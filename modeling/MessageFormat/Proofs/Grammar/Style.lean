import MessageFormat.Parse.Style
import MessageFormat.Proofs.Grammar.Words
import MessageFormat.Proofs.Reading

/-!
# Written styles

What follows the type word of a number, date or time argument, up to the brace that closes the
argument: nothing but blanks, or a comma and a style.  `StyleWritten` is the written form, and
`StyleFault` lists what can be wrong with it.

Which style a text stands for is a matter of the text alone.  `Style.styleOf` says it without a
reader, given what a skeleton stands for (`Style.numberPatternOf`, `Style.dateTimePatternOf`);
`Read.meets_styled` ties both to the reading action.
-/

namespace MessageFormat

/-- A fault that is reported from one cursor to another. -/
def faultAt (fault : Fault) (start stop : Cursor) : ParseError :=
  ⟨fault, ⟨start.position, stop.position⟩⟩

/-- The span from one cursor to another, if spans are to be kept. -/
def kept (options : Options) (start stop : Cursor) : Option Span :=
  if options.captureSpans then some ⟨start.position, stop.position⟩ else none

/-- A comma with blanks around it leads from `c` to `d`. -/
def CommaWritten (c d : Cursor) : Prop :=
  ∃ before after, IsBlank before ∧ IsBlank after ∧ c.Reads (before ++ ',' :: after) d

namespace Style

/-! ## The text of a style -/

theorem scanFrom_ok {quote : Option Position} {depth : Nat} {rest text : List Char}
    {p : Position} {d : Cursor} (h : scanFrom quote depth rest p = .ok (text, d)) :
    Cursor.Reads ⟨rest, p⟩ text d := by
  induction rest generalizing quote depth text p with
  | nil =>
    cases quote with
    | none =>
      cases h
      exact .refl _
    | some start => cases h
  | cons ch rest ih =>
    -- In either state a character that does not end the style is read on its own.
    have step : ∀ {quote : Option Position} {depth : Nat},
        (scanFrom quote depth rest (p.advance ch) >>= fun read =>
          (.ok (ch :: read.1, read.2) : Except Span _)) = .ok (text, d) →
        Cursor.Reads ⟨ch :: rest, p⟩ text d := by
      intro quote depth h
      cases hrest : scanFrom quote depth rest (p.advance ch) with
      | error span =>
        rw [hrest] at h
        cases h
      | ok read =>
        rw [hrest] at h
        cases h
        exact Cursor.Reads.append (s := [ch]) ⟨rfl, rfl⟩ (ih hrest)
    cases quote with
    | some start => exact step h
    | none =>
      rw [scanFrom] at h
      split at h
      · cases h
        exact .refl _
      · exact step h

/-- The span of an open quotation runs from after its apostrophe to the end of the text, and there
is no other apostrophe in it. -/
theorem scanFrom_error {quote : Option Position} {depth : Nat} {rest : List Char}
    {p : Position} {span : Span} (h : scanFrom quote depth rest p = .error span) :
    ∃ quoted b, span.stop = b.position ∧ b.rest = [] ∧ '\'' ∉ quoted ∧
      ((quote = some span.start ∧ Cursor.Reads ⟨rest, p⟩ quoted b) ∨
        ∃ o a, Cursor.Reaches ⟨rest, p⟩ o ∧ o.Reads ['\''] a ∧ span.start = a.position ∧
          a.Reads quoted b) := by
  induction rest generalizing quote depth p with
  | nil =>
    cases quote with
    | none => cases h
    | some start =>
      cases h
      exact ⟨[], ⟨[], p⟩, rfl, rfl, List.not_mem_nil, .inl ⟨rfl, .refl _⟩⟩
  | cons ch rest ih =>
    have hch : Cursor.Reads ⟨ch :: rest, p⟩ [ch] ⟨rest, p.advance ch⟩ := ⟨rfl, rfl⟩
    -- The open quotation was opened before this character, by it, or after it.
    have step : ∀ {inner : Option Position} {depth : Nat},
        (scanFrom inner depth rest (p.advance ch) >>= fun read =>
          (.ok (ch :: read.1, read.2) : Except Span _)) = .error span →
        (inner = quote ∧ ch ≠ '\'' ∨ inner = none ∨ inner = some (p.advance ch) ∧ ch = '\'') →
        ∃ quoted b, span.stop = b.position ∧ b.rest = [] ∧ '\'' ∉ quoted ∧
          ((quote = some span.start ∧ Cursor.Reads ⟨ch :: rest, p⟩ quoted b) ∨
            ∃ o a, Cursor.Reaches ⟨ch :: rest, p⟩ o ∧ o.Reads ['\''] a ∧
              span.start = a.position ∧ a.Reads quoted b) := by
      intro inner depth h hinner
      cases hrest : scanFrom inner depth rest (p.advance ch) with
      | ok read =>
        rw [hrest] at h
        cases h
      | error span' =>
        rw [hrest] at h
        cases h
        obtain ⟨quoted, b, hstop, hb, hnone, hstart⟩ := ih hrest
        rcases hstart with ⟨hquote, hquoted⟩ | ⟨o, a, ho, hopens, hstart, hquoted⟩
        · rcases hinner with ⟨rfl, hne⟩ | rfl | ⟨rfl, rfl⟩
          · refine ⟨_, b, hstop, hb, ?_, .inl ⟨hquote, hch.append hquoted⟩⟩
            simpa [hne.symm] using hnone
          · cases hquote
          · refine ⟨_, b, hstop, hb, hnone, .inr ⟨_, _, .refl _, hch, ?_, hquoted⟩⟩
            exact (Option.some.inj hquote).symm
        · exact ⟨_, b, hstop, hb, hnone, .inr ⟨o, a, hch.reaches.trans ho, hopens, hstart, hquoted⟩⟩
    cases quote with
    | some start =>
      rw [scanFrom] at h
      refine step h ?_
      split
      · exact .inr (.inl rfl)
      · next hne => exact .inl ⟨rfl, hne⟩
    | none =>
      rw [scanFrom] at h
      split at h
      · cases h
      · refine step h ?_
        split
        · next heq => exact .inr (.inr ⟨rfl, heq⟩)
        · exact .inr (.inl rfl)

theorem scan_ok {c d : Cursor} {text : List Char} (h : scan c = .ok (text, d)) :
    c.Reads text d :=
  scanFrom_ok h

theorem scan_error {c : Cursor} {span : Span} (h : scan c = .error span) :
    ∃ o a quoted b, c.Reaches o ∧ o.Reads ['\''] a ∧ a.Reads quoted b ∧ '\'' ∉ quoted ∧
      b.rest = [] ∧ span = ⟨a.position, b.position⟩ := by
  obtain ⟨quoted, b, hstop, hb, hnone, hstart⟩ := scanFrom_error h
  rcases hstart with ⟨hquote, -⟩ | ⟨o, a, ho, hopens, hstart, hquoted⟩
  · cases hquote
  · refine ⟨o, a, quoted, b, ho, hopens, hquoted, hnone, hb, ?_⟩
    rw [← hstart, ← hstop]

/-! ## What a style stands for -/

/-- What a number skeleton stands for. -/
def numberPatternOf (options : Options) (skeleton : List Char) (span : Span) :
    Except Fault NumberPattern :=
  if skeleton.isEmpty then .error .missingNumberSkeleton
  else
    match NumberSkeleton.tokenize (String.ofList skeleton) with
    | .error cause => .error (.invalidNumberSkeleton (String.ofList skeleton) cause)
    | .ok tokens =>
      if options.interpretSkeletons then
        match NumberSkeleton.interpret tokens with
        | .error cause => .error (.invalidNumberSkeleton (String.ofList skeleton) cause)
        | .ok format => .ok ⟨tokens, format, Read.patternSpan options span⟩
      else .ok ⟨tokens, {}, Read.patternSpan options span⟩

/-- What a date/time skeleton stands for. -/
def dateTimePatternOf (options : Options) (skeleton : List Char) (span : Span) :
    Except Fault DateTimePattern :=
  if skeleton.isEmpty then .error .missingDateTimeSkeleton
  else if options.interpretSkeletons then
    match DateTimeSkeleton.parse (String.ofList skeleton) with
    | .error cause => .error (.invalidDateTimeSkeleton (String.ofList skeleton) cause)
    | .ok format => .ok ⟨String.ofList skeleton, format, Read.patternSpan options span⟩
  else .ok ⟨String.ofList skeleton, {}, Read.patternSpan options span⟩

/-- What a style stands for, given what a skeleton stands for. -/
def styleOf {σ : Type} (patternOf : List Char → Span → Except Fault σ) :
    Option (List Char × Span) → Except Fault (Option (ArgumentStyle σ))
  | none => .ok none
  | some (text, span) =>
    match Text.after? [':', ':'] text with
    | some skeleton =>
      match patternOf (Text.trimStart skeleton) span with
      | .ok pattern => .ok (some (.skeleton pattern))
      | .error fault => .error fault
    | none => .ok (some (.simple (String.ofList text)))

end Style

/-! ## The written form -/

/-- What stands between the type word of an argument and the brace that closes it: blanks, or a
comma and a style, whose span goes from its first character to the brace. -/
inductive StyleWritten (c d : Cursor) : Option (List Char × Span) → Prop
  | absent {blanks : List Char} (blank : IsBlank blanks) (reads : c.Reads blanks d) :
      StyleWritten c d none
  | present {m : Cursor} {text : List Char} (comma : CommaWritten c m)
      (ends : m.Ends isPatternWhiteSpace) (scan : Style.scan m = .ok (text, d))
      (nonempty : Text.trimEnd text ≠ []) :
      StyleWritten c d (some (Text.trimEnd text, ⟨m.position, d.position⟩))

/-- What can be wrong after the type word `c` of a number, date or time argument that was opened
at `opening`. -/
inductive StyleFault {σ : Type} (patternOf : List Char → Span → Except Fault σ)
    (opening c : Cursor) : ParseError → Prop
  | unclosedQuote {m : Cursor} {span : Span} (comma : CommaWritten c m)
      (scan : Style.scan m = .error span) :
      StyleFault patternOf opening c ⟨.unclosedQuote, span⟩
  | missing {m d : Cursor} {text : List Char} (comma : CommaWritten c m)
      (scan : Style.scan m = .ok (text, d)) (empty : Text.trimEnd text = []) :
      StyleFault patternOf opening c (faultAt .missingStyle d d)
  | unclosed {d : Cursor} {style : Option (List Char × Span)} (style : StyleWritten c d style)
      (open_ : d.current? ≠ some '}') :
      StyleFault patternOf opening c (faultAt .unclosedArgument opening d)
  | pattern {m d : Cursor} {text : List Char} {span : Span} {fault : Fault}
      (style : StyleWritten c m (some (text, span))) (close : m.Reads ['}'] d)
      (refused : Style.styleOf patternOf (some (text, span)) = .error fault) :
      StyleFault patternOf opening c ⟨fault, span⟩

theorem CommaWritten.reaches {c d : Cursor} (h : CommaWritten c d) : c.Reaches d := by
  obtain ⟨before, after, -, -, reads⟩ := h
  exact reads.reaches

theorem StyleWritten.reaches {c d : Cursor} {style : Option (List Char × Span)}
    (h : StyleWritten c d style) : c.Reaches d := by
  cases h with
  | absent _ reads => exact reads.reaches
  | present comma _ scan _ => exact comma.reaches.trans (Style.scan_ok scan).reaches

/-! ## Reading it -/

namespace Read

variable {α σ : Type} {c d : Cursor} {ok : α → Cursor → Prop} {bad : ParseError → Prop}

/-- The action computes what the skeleton stands for and does not move. -/
def Computes (pattern : List Char → Span → Read σ)
    (patternOf : List Char → Span → Except Fault σ) : Prop :=
  ∀ skeleton span c, Meets (pattern skeleton span) c
    (fun a d => d = c ∧ patternOf skeleton span = .ok a)
    (fun e => ∃ fault, patternOf skeleton span = .error fault ∧ e = ⟨fault, span⟩)

theorem computes_numberPattern (options : Options) :
    Computes (numberPattern options) (Style.numberPatternOf options) := by
  intro skeleton span c
  rw [numberPattern, Style.numberPatternOf]
  split
  · exact meets_failAt ⟨_, rfl, rfl⟩
  · apply bind_report
    cases NumberSkeleton.tokenize (String.ofList skeleton) with
    | error cause => exact meets_failAt ⟨_, rfl, rfl⟩
    | ok tokens =>
      dsimp only
      split
      · cases NumberSkeleton.interpret tokens with
        | error cause => exact meets_failAt ⟨_, rfl, rfl⟩
        | ok format => exact meets_pure ⟨rfl, rfl⟩
      · exact meets_pure ⟨rfl, rfl⟩

theorem computes_dateTimePattern (options : Options) :
    Computes (dateTimePattern options) (Style.dateTimePatternOf options) := by
  intro skeleton span c
  rw [dateTimePattern, Style.dateTimePatternOf]
  split
  · exact meets_failAt ⟨_, rfl, rfl⟩
  · apply bind_report
    split
    · cases DateTimeSkeleton.parse (String.ofList skeleton) with
      | error cause => exact meets_failAt ⟨_, rfl, rfl⟩
      | ok format => exact meets_pure ⟨rfl, rfl⟩
    · exact meets_pure ⟨rfl, rfl⟩

theorem bind_styleText {f : List Char → Read α}
    (yes : ∀ text d, Style.scan c = .ok (text, d) → Meets (f text) d ok bad)
    (no : ∀ span, Style.scan c = .error span → bad ⟨.unclosedQuote, span⟩) :
    Meets (styleText >>= f) c ok bad := by
  refine Meets.bind (P := fun text d => Style.scan c = .ok (text, d)) ?_ yes
  apply bind_cursor
  cases h : Style.scan c with
  | error span => exact meets_failAt (no span h)
  | ok read => exact fun _ => rfl

theorem run_styleText {text : List Char} {events : List Event}
    (h : Style.scan c = .ok (text, d)) : styleText ⟨c, events⟩ = .ok text ⟨d, events⟩ := by
  have hcursor : cursor ⟨c, events⟩ = .ok c ⟨c, events⟩ := rfl
  rw [styleText, run_bind hcursor, h]
  rfl

theorem run_styleText_error {span : Span} {events : List Event}
    (h : Style.scan c = .error span) :
    styleText ⟨c, events⟩ = .error ⟨.unclosedQuote, span⟩ ⟨c, events⟩ := by
  have hcursor : cursor ⟨c, events⟩ = .ok c ⟨c, events⟩ := rfl
  rw [styleText, run_bind hcursor, h]
  rfl

theorem gives_styleText {text : List Char} (h : Style.scan c = .ok (text, d)) :
    Gives styleText c text d :=
  .of_run fun _ => run_styleText h

theorem meets_style? {patternOf : List Char → Span → Except Fault σ} {opening : Cursor} :
    Meets style? c (fun style d => StyleWritten c d style) (StyleFault patternOf opening c) := by
  unfold style?
  refine bind_skipBlanks fun before c₁ hbefore => ?_
  refine bind_accept (fun c₂ hcomma => ?_) (fun _ => ?_)
  · refine bind_skipBlanks fun after m hafter => ?_
    have comma : CommaWritten c m :=
      ⟨before, after, hbefore.all, hafter.all,
        hbefore.reads.append (hcomma.append hafter.reads)⟩
    refine bind_position (bind_styleText (fun text d hscan => ?_) fun span hscan => ?_)
    · dsimp only
      split
      · next hempty => exact meets_failHere (.missing comma hscan (by simpa using hempty))
      · next hempty =>
        exact bind_cursor (meets_pure (.present comma hafter.ends hscan (by simpa using hempty)))
    · exact .unclosedQuote comma hscan
  · exact meets_pure (.absent hbefore.all hbefore.reads)

theorem gives_style? {m : Cursor} {style : Option (List Char × Span)}
    (h : StyleWritten c m style) (close : m.Reads ['}'] d) : Gives style? c style m := by
  cases h with
  | absent blank reads =>
    refine (gives_skipBlanks ⟨reads, blank, close.ends rfl⟩).bind ?_
    refine (gives_accept_false (Cursor.accept?_eq_none ?_)).bind (gives_pure _ _)
    rw [close.current?_eq]
    decide
  | present comma ends scan nonempty =>
    obtain ⟨before, after, hbefore, hafter, reads⟩ := comma
    obtain ⟨c₁, reads₁, reads₂⟩ := reads.split
    obtain ⟨c₂, hcomma, reads₃⟩ := Cursor.Reads.split (s := [',']) reads₂
    refine (gives_skipBlanks ⟨reads₁, hbefore, hcomma.ends rfl⟩).bind ?_
    refine (gives_accept hcomma).bind ((gives_skipBlanks ⟨reads₃, hafter, ends⟩).bind ?_)
    refine bind_position ((gives_styleText scan).bind ?_)
    rw [if_neg (by simpa using nonempty)]
    exact bind_cursor (gives_pure _ _)

theorem meets_argumentStyle {pattern : List Char → Span → Read σ}
    {patternOf : List Char → Span → Except Fault σ} (h : Computes pattern patternOf)
    (style : Option (List Char × Span)) :
    Meets (argumentStyle pattern style) c
      (fun value d => d = c ∧ Style.styleOf patternOf style = .ok value)
      (fun e => ∃ text span fault, style = some (text, span) ∧
        Style.styleOf patternOf style = .error fault ∧ e = ⟨fault, span⟩) := by
  cases style with
  | none => exact meets_pure ⟨rfl, rfl⟩
  | some style =>
    obtain ⟨text, span⟩ := style
    simp only [argumentStyle, Style.styleOf]
    cases Text.after? [':', ':'] text with
    | none => exact meets_pure ⟨rfl, rfl⟩
    | some skeleton =>
      refine Meets.bind ((h _ span c).imp (fun _ _ h => h) ?_) ?_
      · rintro e ⟨fault, hfault, rfl⟩
        exact ⟨text, span, fault, rfl, by simp [hfault], rfl⟩
      · rintro value d ⟨rfl, hvalue⟩
        exact meets_pure ⟨rfl, by simp [hvalue]⟩

theorem meets_styled {pattern : List Char → Span → Read σ}
    {patternOf : List Char → Span → Except Fault σ} (h : Computes pattern patternOf)
    (options : Options) (opening : Cursor) :
    Meets (styled options opening.position pattern) c
      (fun read d => ∃ style m, StyleWritten c m style ∧ m.Reads ['}'] d ∧
        Style.styleOf patternOf style = .ok read.1 ∧ read.2 = kept options opening d)
      (StyleFault patternOf opening c) := by
  refine Meets.bind meets_style? fun style m hstyle => ?_
  refine bind_closeBrace (fun d hclose => ?_) fun hopen => .unclosed hstyle hopen
  refine bind_capture (Meets.bind ((meets_argumentStyle h style).imp (fun _ _ h => h) ?_) ?_)
  · rintro e ⟨text, span, fault, rfl, hfault, rfl⟩
    exact .pattern hstyle hclose hfault
  · rintro value d ⟨rfl, hvalue⟩
    exact meets_pure ⟨style, m, hstyle, hclose, hvalue, rfl⟩

theorem gives_styled {pattern : List Char → Span → Read σ}
    {patternOf : List Char → Span → Except Fault σ} (h : Computes pattern patternOf)
    (options : Options) (opening : Cursor) {m : Cursor} {style : Option (List Char × Span)}
    {value : Option (ArgumentStyle σ)} (hstyle : StyleWritten c m style)
    (hclose : m.Reads ['}'] d) (hvalue : Style.styleOf patternOf style = .ok value) :
    Gives (styled options opening.position pattern) c (value, kept options opening d) d := by
  refine (gives_style? hstyle hclose).bind ((gives_closeBrace hclose).bind (bind_capture ?_))
  refine Meets.bind ((meets_argumentStyle h style).imp (fun _ _ h => h) ?_) ?_
  · rintro e ⟨text, span, fault, rfl, hfault, rfl⟩
    rw [hvalue] at hfault
    cases hfault
  · rintro value' d ⟨rfl, hvalue'⟩
    rw [hvalue] at hvalue'
    cases hvalue'
    exact gives_pure _ _

end Read

end MessageFormat
