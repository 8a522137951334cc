import MessageFormat.Proofs.Anchors
import MessageFormat.Proofs.DateTimeFormat.Refusals
import MessageFormat.Proofs.NumberFormat.Refusals

/-!
# Skeletons in a message and on their own

A skeleton in a message is refused for the reason for which it is refused on its own.  The error
carries that reason as its cause, and its span covers the style that the skeleton is in
(`Span.skeleton?`), so that the skeleton can be read again from the source (`parse_error_cause`).

Two reasons never get that far.  A skeleton without words is found missing before it is read.  And
its quotations are closed, because the text of a style ends outside of quotations.  The rule for
apostrophes is not the same in a style and in a skeleton, but each of them is decided by whether the
number of apostrophes is even (`Style.scan_closed`).
-/

namespace MessageFormat

/-- The skeleton in a stretch of the source that holds a style: what is left without the blanks at
the end, the two colons, and the blanks after them. -/
def Span.skeleton? (s : Span) (source : String) : Option String := do
  let style ← s.slice? source
  let skeleton ← Text.after? [':', ':'] (Text.trimEnd style.toList)
  return String.ofList (Text.trimStart skeleton)

/-- The refusal is that of a skeleton that is read on its own. -/
def SkeletonFault.Refuses (options : Options) (skeleton : String) : SkeletonFault → Prop
  | .number cause =>
    if options.interpretSkeletons then NumberSkeleton.parse skeleton = .error cause
    else NumberSkeleton.tokenize skeleton = .error cause
  | .dateTime cause => DateTimeSkeleton.parse skeleton = .error cause

/-! ## Apostrophes -/

theorem count_dropWhile {test : Char → Bool} {mark : Char} (h : test mark = false)
    (text : List Char) : (text.dropWhile test).count mark = text.count mark := by
  have hnone : (text.takeWhile test).count mark = 0 := by
    rw [List.count_eq_zero]
    intro hmem
    have htest := List.all_eq_true.1 (List.all_takeWhile (p := test) (l := text)) mark hmem
    rw [h] at htest
    cases htest
  calc
    (text.dropWhile test).count mark
        = (text.takeWhile test ++ text.dropWhile test).count mark := by
          rw [List.count_append, hnone, Nat.zero_add]
    _ = text.count mark := by rw [List.takeWhile_append_dropWhile]

/-- Reading a style ends outside of quotations, or what is left to read has one that is not
closed. -/
theorem Style.scanFrom_closed (quote : Option Position) (depth : Nat) (rest : List Char)
    (p : Position) :
    match scanFrom quote depth rest p with
    | .ok (text, _) => Even (text.count '\'' + quote.isSome.toNat)
    | .error _ => ¬Even (rest.count '\'' + quote.isSome.toNat) := by
  induction rest generalizing quote depth p with
  | nil => cases quote <;> simp [scanFrom]
  | cons ch rest ih =>
    -- An apostrophe changes whether a quotation is open, and nothing else does.
    have step : ∀ (inner : Option Position) (depth : Nat),
        (inner.isSome = if ch = '\'' then !quote.isSome else quote.isSome) →
        match (scanFrom inner depth rest (p.advance ch) >>= fun read =>
          (.ok (ch :: read.1, read.2) : Except Span (List Char × Cursor))) with
        | .ok (text, _) => Even (text.count '\'' + quote.isSome.toNat)
        | .error _ => ¬Even ((ch :: rest).count '\'' + quote.isSome.toNat) := by
      intro inner depth hinner
      have hparity : ∀ text : List Char, Even ((ch :: text).count '\'' + quote.isSome.toNat) ↔
          Even (text.count '\'' + inner.isSome.toNat) := by
        intro text
        rw [hinner]
        by_cases hch : ch = '\''
        · subst hch
          cases quote <;> simp [Nat.even_add]
        · rw [if_neg hch, List.count_cons_of_ne hch]
      have hrest := ih inner depth (p.advance ch)
      cases hscan : scanFrom inner depth rest (p.advance ch) with
      | error span =>
        rw [hscan] at hrest
        exact fun heven => hrest ((hparity rest).1 heven)
      | ok read =>
        rw [hscan] at hrest
        exact (hparity read.1).2 hrest
    cases quote with
    | some start =>
      rw [scanFrom]
      exact step _ _ (by split <;> rfl)
    | none =>
      rw [scanFrom]
      by_cases hends : ch = '}' ∧ depth = 0
      · rw [if_pos hends]
        simp
      · rw [if_neg hends]
        exact step _ _ (by split <;> rfl)

/-- A style and a date/time skeleton agree about which texts have all their quotations closed. -/
theorem Style.scan_closed (c : Cursor) :
    match scan c with
    | .ok (text, _) => (DateTimeSkeleton.scan false text).2 = true
    | .error _ => (DateTimeSkeleton.scan false c.rest).2 = false := by
  have h := scanFrom_closed none 0 c.rest c.position
  rw [scan]
  cases hscan : scanFrom none 0 c.rest c.position with
  | ok read =>
    rw [hscan] at h
    exact (DateTimeSkeleton.scan_closed_iff false read.1).2 h
  | error span =>
    rw [hscan] at h
    rw [Bool.eq_false_iff, ne_eq, DateTimeSkeleton.scan_closed_iff]
    exact h

/-! ## The skeleton of a style -/

/-- The skeleton stands in the source, in a style that takes the whole span. -/
def SkeletonAt (source : String) (span : Span) (skeleton : List Char) : Prop :=
  ∃ c d style rest, c.In source ∧ Style.scan c = .ok (style, d) ∧
    span = ⟨c.position, d.position⟩ ∧ Text.trimEnd style = [':', ':'] ++ rest ∧
    skeleton = Text.trimStart rest

namespace SkeletonAt

variable {source : String} {span : Span} {skeleton : List Char}

theorem skeleton?_eq (h : SkeletonAt source span skeleton) :
    span.skeleton? source = some (String.ofList skeleton) := by
  obtain ⟨c, d, style, rest, hc, hscan, rfl, hstyle, rfl⟩ := h
  have hslice : Span.slice? ⟨c.position, d.position⟩ source = some (String.ofList style) := by
    rw [slice?_eq_some_iff, String.toList_ofList]
    exact hc.stands (Style.scan_ok hscan)
  rw [Span.skeleton?, hslice, Option.bind_eq_bind, Option.bind_some, String.toList_ofList,
    Text.after?_eq_some_iff.2 hstyle]
  rfl

theorem wordsOf_ne_nil (h : SkeletonAt source span skeleton) (nonempty : skeleton ≠ []) :
    NumberSkeleton.wordsOf skeleton ≠ [] := by
  obtain ⟨c, d, style, rest, -, -, -, -, rfl⟩ := h
  obtain ⟨ch, tail, htrim⟩ := List.exists_cons_of_ne_nil nonempty
  have hhead := List.head?_dropWhile_not isWhiteSpace rest
  rw [Text.trimStart] at htrim ⊢
  rw [htrim] at hhead ⊢
  exact NumberSkeleton.wordsOf_ne_nil hhead

/-- Nothing but blanks and colons is taken from a style to get at its skeleton, so that the number
of apostrophes stays the same. -/
theorem closed (h : SkeletonAt source span skeleton) :
    (DateTimeSkeleton.scan false skeleton).2 = true := by
  obtain ⟨c, d, style, rest, -, hscan, -, hstyle, rfl⟩ := h
  have hblank : isWhiteSpace '\'' = false := by decide
  have hcount : (Text.trimStart rest).count '\'' = style.count '\'' := by
    calc
      (Text.trimStart rest).count '\'' = rest.count '\'' := count_dropWhile hblank rest
      _ = (Text.trimEnd style).count '\'' := by simp [hstyle]
      _ = style.count '\'' := by
        rw [Text.trimEnd, List.count_reverse, count_dropWhile hblank, List.count_reverse]
  have hclosed := Style.scan_closed c
  rw [hscan] at hclosed
  rw [DateTimeSkeleton.scan_closed_iff, hcount]
  exact (DateTimeSkeleton.scan_closed_iff false style).1 hclosed

end SkeletonAt

/-! ## Refusals -/

variable {options : Options} {source : String} {c : Cursor} {skeleton : List Char} {span : Span}
  {fault : Fault} {cause : SkeletonFault} {e : ParseError}

theorem refuses_of_numberPatternOf
    (h : Style.numberPatternOf options skeleton span = .error fault)
    (hcause : fault.cause? = some cause) :
    skeleton ≠ [] ∧ cause.Refuses options (String.ofList skeleton) := by
  rw [Style.numberPatternOf] at h
  split at h
  · cases h
    cases hcause
  next hempty =>
  refine ⟨by simpa using hempty, ?_⟩
  split at h
  · next reason htokens =>
    cases h
    cases hcause
    rw [SkeletonFault.Refuses, NumberSkeleton.parse, htokens]
    split <;> rfl
  next tokens htokens =>
  split at h
  · next hinterpret =>
    split at h
    · next reason hreason =>
      cases h
      cases hcause
      rw [SkeletonFault.Refuses, if_pos hinterpret, NumberSkeleton.parse, htokens]
      exact hreason
    · cases h
  · cases h

theorem refuses_of_dateTimePatternOf
    (h : Style.dateTimePatternOf options skeleton span = .error fault)
    (hcause : fault.cause? = some cause) :
    skeleton ≠ [] ∧ cause.Refuses options (String.ofList skeleton) := by
  rw [Style.dateTimePatternOf] at h
  split at h
  · cases h
    cases hcause
  next hempty =>
  refine ⟨by simpa using hempty, ?_⟩
  split at h
  · split at h
    · next reason hreason =>
      cases h
      cases hcause
      exact hreason
    · cases h
  · cases h

/-- A style is refused with a cause only because of its skeleton. -/
theorem skeletonAt_of_style {σ : Type} {patternOf : List Char → Span → Except Fault σ}
    {opening : Cursor} (h : StyleFault patternOf opening c e) (hc : c.In source)
    (hcause : e.fault.cause? = some cause) :
    ∃ skeleton, SkeletonAt source e.span skeleton ∧ patternOf skeleton e.span = .error e.fault := by
  cases h with
  | unclosedQuote _ _ => cases hcause
  | missing _ _ _ => cases hcause
  | unclosed _ _ => cases hcause
  | pattern style _ refused =>
    cases style with
    | present comma _ scan _ =>
      rw [Style.styleOf] at refused
      split at refused
      · next rest hrest =>
        refine ⟨Text.trimStart rest, ⟨_, _, _, rest, hc.reaches comma.reaches, scan, rfl,
          Text.after?_eq_some_iff.1 hrest, rfl⟩, ?_⟩
        split at refused
        · cases refused
        · next hpattern =>
          cases refused
          exact hpattern
      · cases refused

theorem cause?_of_integer {missing tooLarge : Fault} (h : IntegerFault missing tooLarge c e)
    (hmissing : missing.cause? = none) (htooLarge : tooLarge.cause? = none) :
    e.fault.cause? = none := by
  cases h with
  | missing _ => exact hmissing
  | tooLarge _ _ => exact htooLarge

theorem cause?_of_choice {depth : Nat} {frame : Frame} (h : ChoiceFault options depth frame c e) :
    e.fault.cause? = none := by
  cases h with
  | offset _ _ _ fault =>
    cases fault with
    | integer _ _ fault => exact cause?_of_integer fault rfl rfl
    | _ => rfl
  | selector _ _ _ fault => exact cause?_of_integer fault rfl rfl
  | _ => rfl

/-- An error has a cause only if it is about a skeleton, and then the skeleton is refused on its own
for that cause. -/
theorem refuses_of_argument {depth : Nat} {frame : Frame}
    (h : ArgumentFault options depth frame c e) (hc : c.In source)
    (hcause : e.fault.cause? = some cause) :
    ∃ skeleton, SkeletonAt source e.span skeleton ∧ skeleton ≠ [] ∧
      cause.Refuses options (String.ofList skeleton) := by
  cases h with
  | number head fault =>
    obtain ⟨skeleton, hat, hrefused⟩ := skeletonAt_of_style fault (hc.reaches head.reaches) hcause
    exact ⟨skeleton, hat, refuses_of_numberPatternOf hrefused hcause⟩
  | dateTime _ head fault =>
    obtain ⟨skeleton, hat, hrefused⟩ := skeletonAt_of_style fault (hc.reaches head.reaches) hcause
    exact ⟨skeleton, hat, refuses_of_dateTimePatternOf hrefused hcause⟩
  | choice fault =>
    rw [cause?_of_choice fault] at hcause
    cases hcause
  | _ => cases hcause

theorem refuses_of_parse (h : parse options source = .error e)
    (hcause : e.fault.cause? = some cause) :
    ∃ skeleton, SkeletonAt source e.span skeleton ∧ skeleton ≠ [] ∧
      cause.Refuses options (String.ofList skeleton) := by
  obtain ⟨site, leads, fault⟩ := refused_of_parse h
  cases fault with
  | argument fault => exact refuses_of_argument fault (in_of_leads leads) hcause
  | tag fault => cases fault <;> cases hcause
  | unmatchedBrace _ _ => cases hcause
  | unexpectedClosingTag _ _ _ _ => cases hcause

/-! ## Results -/

/-- The kind of a fault says whether it has a cause, and of which sort. -/
theorem kind_cause? (fault : Fault) :
    match fault.cause? with
    | some (.number _) => fault.kind = .invalidNumberSkeleton
    | some (.dateTime _) => fault.kind = .invalidDateTimeSkeleton
    | none => fault.kind ≠ .invalidNumberSkeleton ∧ fault.kind ≠ .invalidDateTimeSkeleton := by
  cases fault with
  | invalidNumberSkeleton skeleton reason => rfl
  | invalidDateTimeSkeleton skeleton reason => rfl
  | missingSelector family => cases family <;> exact ⟨nofun, nofun⟩
  | missingFragment family selector => cases family <;> exact ⟨nofun, nofun⟩
  | duplicateSelector family selector => cases family <;> exact ⟨nofun, nofun⟩
  | _ => exact ⟨nofun, nofun⟩

/-- Two causes that a skeleton of a message never has. -/
theorem SkeletonAt.not_refuses (h : SkeletonAt source span skeleton) (nonempty : skeleton ≠ []) :
    ¬SkeletonFault.Refuses options (String.ofList skeleton) (.number .empty) ∧
      ¬SkeletonFault.Refuses options (String.ofList skeleton) (.dateTime .unclosedQuote) := by
  constructor
  · intro hrefuses
    have hwords : NumberSkeleton.wordsOf (String.ofList skeleton).toList ≠ [] := by
      rw [String.toList_ofList]
      exact h.wordsOf_ne_nil nonempty
    rw [SkeletonFault.Refuses] at hrefuses
    split at hrefuses
    · exact NumberSkeleton.parse_ne_empty hwords hrefuses
    · exact NumberSkeleton.tokenize_ne_empty hwords hrefuses
  · intro hrefuses
    have hopen := DateTimeSkeleton.open_of_parse hrefuses
    rw [DateTimeSkeleton.runsOf, String.toList_ofList, h.closed] at hopen
    cases hopen

/-- An error has a cause exactly if it is about an invalid skeleton.  The cause is what reading the
skeleton on its own gives, and it is neither that the skeleton is empty nor that a quotation is
open. -/
theorem parse_error_cause {text : String} (h : parse options text = .error e) :
    (match e.fault.cause? with
      | some (.number _) => e.kind = .invalidNumberSkeleton
      | some (.dateTime _) => e.kind = .invalidDateTimeSkeleton
      | none => e.kind ≠ .invalidNumberSkeleton ∧ e.kind ≠ .invalidDateTimeSkeleton) ∧
    (∀ cause, e.fault.cause? = some cause →
      ∃ skeleton, e.span.skeleton? text = some skeleton ∧ skeleton ≠ "" ∧
        cause.Refuses options skeleton) ∧
    e.fault.cause? ≠ some (.number .empty) ∧
    e.fault.cause? ≠ some (.dateTime .unclosedQuote) ∧
    ∀ c : Cursor,
      match Style.scan c with
      | .ok (style, _) => (DateTimeSkeleton.scan false style).2 = true
      | .error _ => (DateTimeSkeleton.scan false c.rest).2 = false := by
  refine ⟨kind_cause? e.fault, ?_, ?_, ?_, Style.scan_closed⟩
  · intro cause hcause
    obtain ⟨skeleton, hat, nonempty, hrefuses⟩ := refuses_of_parse h hcause
    exact ⟨String.ofList skeleton, hat.skeleton?_eq, by simpa using nonempty, hrefuses⟩
  · intro hcause
    obtain ⟨skeleton, hat, nonempty, hrefuses⟩ := refuses_of_parse h hcause
    exact (hat.not_refuses nonempty).1 hrefuses
  · intro hcause
    obtain ⟨skeleton, hat, nonempty, hrefuses⟩ := refuses_of_parse h hcause
    exact (hat.not_refuses nonempty).2 hrefuses

/-- A skeleton with a quoted apostrophe, refused in a branch for the letter after the quotation. -/
theorem parse_error_cause_quoted :
    parse {} "\x7bn, plural, other \x7b\x7bd, date, ::'it''s' Q \x7d\x7d\x7d" =
      .error ⟨.invalidDateTimeSkeleton "'it''s' Q" (.unsupportedField 'Q' "quarter" ""),
        ⟨⟨29, 1, 30⟩, ⟨41, 1, 42⟩⟩⟩ ∧
    DateTimeSkeleton.parse "'it''s' Q" = .error (.unsupportedField 'Q' "quarter" "") := by
  have hparse : parse {} "\x7bn, plural, other \x7b\x7bd, date, ::'it''s' Q \x7d\x7d\x7d" =
      .error ⟨.invalidDateTimeSkeleton "'it''s' Q" (.unsupportedField 'Q' "quarter" ""),
        ⟨⟨29, 1, 30⟩, ⟨41, 1, 42⟩⟩⟩ :=
    eq_error_of_map (by decide +kernel)
  have hskeleton : Span.skeleton? ⟨⟨29, 1, 30⟩, ⟨41, 1, 42⟩⟩
      "\x7bn, plural, other \x7b\x7bd, date, ::'it''s' Q \x7d\x7d\x7d" = some "'it''s' Q" := by
    decide +kernel
  obtain ⟨-, halone, -, -, -⟩ := parse_error_cause hparse
  obtain ⟨skeleton, hfound, -, hrefuses⟩ := halone _ rfl
  rw [hskeleton] at hfound
  cases hfound
  exact ⟨hparse, hrefuses⟩

end MessageFormat
