import MessageFormat.Proofs.Grammar.Completeness
import MessageFormat.Proofs.Grammar.Soundness
import MessageFormat.Proofs.Source

/-!
# Every span is a true one

Whatever comes out of reading a text, the spans in it point into the text: those of the elements,
branches and skeletons of a message, that of the message itself, and that of an error.  Both ends
are positions that counting gives, they are in order, and the text between them can be cut out
(`Span.CountedIn`).  In a text of fewer than `2 ^ 32 - 1` characters, what counting gives is the
true line and column (`Span.TrueIn`).  With one character more, a column may wrap around
(`parse_span_wraps`).

For a message this is an induction on the grammar.  For an error there is nothing to induct on but
the way to the place of the fault.  Each kind of fault is `ReportedFrom` that place, between two
cursors of which the second is reached from the first.
-/

namespace MessageFormat

/-- The span is a stretch of the source. -/
structure Span.CountedIn (source : String) (s : Span) : Prop where
  start : s.start.CountedIn source
  stop : s.stop.CountedIn source
  bounded : s.stop.offset ≤ source.utf8ByteSize
  ordered : Span.between s.start s.stop = .ok s
  slice : s.slice? source ≠ none

/-- The span is a stretch of the source, and its ends have their true lines and columns. -/
structure Span.TrueIn (source : String) (s : Span) : Prop where
  start : s.start.TrueIn source
  stop : s.stop.TrueIn source
  bounded : s.stop.offset ≤ source.utf8ByteSize
  ordered : Span.between s.start s.stop = .ok s
  slice : s.slice? source ≠ none

theorem Span.CountedIn.trueIn {source : String} {s : Span} (h : s.CountedIn source)
    (small : source.length < UInt32.size - 1) : s.TrueIn source :=
  ⟨h.start.trueIn small, h.stop.trueIn small, h.bounded, h.ordered, h.slice⟩

/-! ## The spans of a message -/

/-- The span of a skeleton, if the style is one and has it. -/
def ArgumentStyle.spans {σ : Type} (span : σ → Option Span) :
    Option (ArgumentStyle σ) → List Span
  | some (.skeleton value) => (span value).toList
  | _ => []

mutual

/-- The spans in an element. -/
def Element.spans : Element → List Span
  | .literal _ span => span.toList
  | .argument _ span => span.toList
  | .number _ style span => ArgumentStyle.spans NumberPattern.span style ++ span.toList
  | .date _ style span => ArgumentStyle.spans DateTimePattern.span style ++ span.toList
  | .time _ style span => ArgumentStyle.spans DateTimePattern.span style ++ span.toList
  | .select _ branches span => Branch.spansList branches ++ span.toList
  | .plural _ _ _ branches span => Branch.spansList branches ++ span.toList
  | .pound span => span.toList
  | .tag _ children span => Element.spansList children ++ span.toList

/-- The spans in a list of elements. -/
def Element.spansList : List Element → List Span
  | [] => []
  | e :: es => e.spans ++ Element.spansList es

/-- The spans in a list of branches. -/
def Branch.spansList : List Branch → List Span
  | [] => []
  | .mk _ body span :: branches =>
    Element.spansList body ++ span.toList ++ Branch.spansList branches

end

/-- All spans of a message. -/
def Message.spans (m : Message) : List Span := m.span :: Element.spansList m.elements

/-- The spans in a phrase. -/
def Phrase.spans : Phrase → List Span
  | .message es => Element.spansList es
  | .element e => e.spans
  | .branches _ list => Branch.spansList list

/-! ## Messages -/

variable {options : Options} {source : String} {c d : Cursor}

/-- The stretch between two cursors of a source, the second reached from the first. -/
theorem countedIn_of_reaches (hc : c.In source) (h : c.Reaches d) :
    Span.CountedIn source ⟨c.position, d.position⟩ := by
  obtain ⟨text, reads⟩ := h
  have hd := hc.reads reads
  have stands := hc.stands reads
  refine ⟨hc.countedIn, hd.countedIn, hd.countedIn.offset_le, ?_, ?_⟩
  · rw [Span.between, if_pos stands.le]
  · have hslice : Span.slice? ⟨c.position, d.position⟩ source = some (String.ofList text) := by
      rw [slice?_eq_some_iff, String.toList_ofList]
      exact stands
    rw [hslice]
    simp

theorem countedIn_of_kept {s : Span} (hs : s ∈ (kept options c d).toList) (hc : c.In source)
    (h : c.Reaches d) : s.CountedIn source := by
  rw [kept] at hs
  split at hs
  · simp only [Option.toList_some, List.mem_singleton] at hs
    subst hs
    exact countedIn_of_reaches hc h
  · cases hs

/-- A skeleton has the span of the style it was read from. -/
theorem span_of_style {σ : Type} {patternOf : List Char → Span → Except Fault σ}
    {span : σ → Option Span} {text : Option (List Char × Span)} {style : Option (ArgumentStyle σ)}
    {s : Span} (value : Style.styleOf patternOf text = .ok style)
    (hspan : ∀ skeleton whole pattern, patternOf skeleton whole = .ok pattern →
      span pattern = Read.patternSpan options whole)
    (hs : s ∈ ArgumentStyle.spans span style) : ∃ t, text = some (t, s) := by
  cases text with
  | none =>
    cases value
    cases hs
  | some read =>
    obtain ⟨t, whole⟩ := read
    rw [Style.styleOf] at value
    split at value
    · next skeleton hskeleton =>
      split at value
      · next pattern hpattern =>
        cases value
        rw [ArgumentStyle.spans, hspan _ _ _ hpattern, Read.patternSpan] at hs
        split at hs
        · simp only [Option.toList_some, List.mem_singleton] at hs
          exact ⟨t, by rw [hs]⟩
        · cases hs
      · cases value
    · cases value
      cases hs

theorem span_of_numberPattern {skeleton : List Char} {whole : Span} {pattern : NumberPattern}
    (h : Style.numberPatternOf options skeleton whole = .ok pattern) :
    pattern.span = Read.patternSpan options whole := by
  rw [Style.numberPatternOf] at h
  split at h
  · cases h
  · split at h
    · cases h
    · split at h
      · split at h
        · cases h
        · cases h
          rfl
      · cases h
        rfl

theorem span_of_dateTimePattern {skeleton : List Char} {whole : Span} {pattern : DateTimePattern}
    (h : Style.dateTimePatternOf options skeleton whole = .ok pattern) :
    pattern.span = Read.patternSpan options whole := by
  rw [Style.dateTimePatternOf] at h
  split at h
  · cases h
  · split at h
    · split at h
      · cases h
      · cases h
        rfl
    · cases h
      rfl

/-- The spans of an argument with a style: that of its skeleton and its own. -/
theorem countedIn_of_styled {σ : Type} {patternOf : List Char → Span → Except Fault σ}
    {span : σ → Option Span} {text : Option (List Char × Span)} {style : Option (ArgumentStyle σ)}
    {name word : List Char} {c₁ m : Cursor} {s : Span}
    (hspan : ∀ skeleton whole pattern, patternOf skeleton whole = .ok pattern →
      span pattern = Read.patternSpan options whole)
    (head : TypeWritten c name word c₁) (written : StyleWritten c₁ m text)
    (close : m.Reads ['}'] d) (value : Style.styleOf patternOf text = .ok style)
    (hc : c.In source) (hs : s ∈ ArgumentStyle.spans span style ++ (kept options c d).toList) :
    s.CountedIn source := by
  rcases List.mem_append.1 hs with hs | hs
  · obtain ⟨t, rfl⟩ := span_of_style value hspan hs
    cases written with
    | present comma _ scan _ =>
      have hm := hc.reaches (head.reaches.trans comma.reaches)
      exact countedIn_of_reaches hm (Style.scan_ok scan).reaches
  · exact countedIn_of_kept hs hc (head.reaches.trans (written.reaches.trans close.reaches))

theorem countedIn_of_written {depth : Nat} {frame : Frame} {x : Phrase}
    (h : Written options depth frame x c d) (hc : c.In source) :
    ∀ s ∈ x.spans, s.CountedIn source := by
  induction h with
  | nil | noBranch =>
    intro s hs
    simp [Phrase.spans, Element.spansList, Branch.spansList] at hs
  | cons head _ ihhead ihtail =>
    intro s hs
    simp only [Phrase.spans, Element.spansList, List.mem_append] at hs
    rcases hs with hs | hs
    · exact ihhead hc s hs
    · exact ihtail (hc.reaches head.reaches) s hs
  | literal _ scan =>
    intro s hs
    simp only [Phrase.spans, Element.spans] at hs
    exact countedIn_of_kept hs hc (Literal.scan_reaches scan)
  | selfClosing _ _ _ reads =>
    intro s hs
    simp only [Phrase.spans, Element.spans] at hs
    exact countedIn_of_kept hs hc reads.reaches
  | pound _ reads =>
    intro s hs
    simp only [Phrase.spans, Element.spans] at hs
    exact countedIn_of_kept hs hc reads.reaches
  | argument head close =>
    intro s hs
    simp only [Phrase.spans, Element.spans] at hs
    exact countedIn_of_kept hs hc (head.reaches.trans close.reaches)
  | number head written close value =>
    intro s hs
    simp only [Phrase.spans, Element.spans] at hs
    exact countedIn_of_styled (fun _ _ _ => span_of_numberPattern) head written close value hc hs
  | date head written close value =>
    intro s hs
    simp only [Phrase.spans, Element.spans] at hs
    exact countedIn_of_styled (fun _ _ _ => span_of_dateTimePattern) head written close value hc hs
  | time head written close value =>
    intro s hs
    simp only [Phrase.spans, Element.spans] at hs
    exact countedIn_of_styled (fun _ _ _ => span_of_dateTimePattern) head written close value hc hs
  | @choice _ _ choice _ _ list c _ _ c₃ _ d head comma offset branches _ _ _ close ih =>
    intro s hs
    have hs : s ∈ Branch.spansList list ++ (kept options c d).toList := by
      cases choice <;> simpa only [Phrase.spans, Choice.element, Element.spans] using hs
    have hfirst : c.Reaches c₃ := head.reaches.trans (comma.reaches.trans offset.reaches)
    rcases List.mem_append.1 hs with hs | hs
    · exact ih (hc.reaches hfirst) s hs
    · exact countedIn_of_kept hs hc (hfirst.trans (branches.reaches.trans close.reaches))
  | tag _ opening children closing ih =>
    intro s hs
    simp only [Phrase.spans, Element.spans, List.mem_append] at hs
    rcases hs with hs | hs
    · exact ih (hc.reaches opening.reaches) s hs
    · exact countedIn_of_kept hs hc (opening.reaches.trans (children.reaches.trans closing.reaches))
  | branch _ _ head brace body close _ gap _ ihbody ihtail =>
    intro s hs
    simp only [Phrase.spans, Branch.spansList, List.mem_append] at hs
    have hc₁ := hc.reaches head.reaches
    have hbody := brace.reaches.trans (body.reaches.trans close.reaches)
    rcases hs with (hs | hs) | hs
    · exact ihbody (hc₁.reaches brace.reaches) s hs
    · exact countedIn_of_kept hs hc₁ hbody
    · exact ihtail (hc₁.reaches (hbody.trans gap.reaches)) s hs

/-! ## Errors -/

/-- The error is reported between two cursors, one reached after the other from `c`. -/
def ReportedFrom (c : Cursor) (e : ParseError) : Prop :=
  ∃ a b, c.Reaches a ∧ a.Reaches b ∧ e.span = ⟨a.position, b.position⟩

variable {depth : Nat} {frame : Frame} {e : ParseError}

theorem reportedFrom_faultAt {fault : Fault} {a b : Cursor} (ha : c.Reaches a)
    (hb : a.Reaches b) : ReportedFrom c (faultAt fault a b) :=
  ⟨a, b, ha, hb, rfl⟩

theorem ReportedFrom.of_reaches (h : ReportedFrom d e) (hd : c.Reaches d) : ReportedFrom c e := by
  obtain ⟨a, b, ha, hb, hspan⟩ := h
  exact ⟨a, b, hd.trans ha, hb, hspan⟩

theorem ReportedFrom.countedIn (h : ReportedFrom c e) (hc : c.In source) :
    e.span.CountedIn source := by
  obtain ⟨a, b, ha, hb, hspan⟩ := h
  rw [hspan]
  exact countedIn_of_reaches (hc.reaches ha) hb

theorem NumeralWritten.reaches {sign digits : List Char} (h : NumeralWritten c sign digits d) :
    c.Reaches d := by
  obtain ⟨-, -, m, hsign, hdigits⟩ := h
  exact hsign.reaches.trans hdigits.reads.reaches

theorem reportedFrom_of_integer {missing tooLarge : Fault}
    (h : IntegerFault missing tooLarge c e) : ReportedFrom c e := by
  cases h with
  | missing numeral => exact reportedFrom_faultAt (.refl c) numeral.reaches
  | tooLarge numeral _ => exact reportedFrom_faultAt (.refl c) numeral.reaches

theorem reportedFrom_of_offset (h : OffsetFault c e) : ReportedFrom c e := by
  cases h with
  | missing keyword _ => exact reportedFrom_faultAt keyword.reads.reaches (.refl _)
  | integer reads _ fault => exact (reportedFrom_of_integer fault).of_reaches reads.reaches
  | range reads _ numeral _ _ => exact reportedFrom_faultAt reads.reaches numeral.reaches

/-- What can be wrong with a style is reported from the argument's brace. -/
theorem reportedFrom_of_style {σ : Type} {patternOf : List Char → Span → Except Fault σ}
    (h : StyleFault patternOf c d e) (hd : c.Reaches d) : ReportedFrom c e := by
  cases h with
  | unclosedQuote comma scan =>
    obtain ⟨o, a, quoted, b, ho, ha, hb, -, -, hspan⟩ := Style.scan_error scan
    exact ⟨a, b, hd.trans (comma.reaches.trans (ho.trans ha.reaches)), hb.reaches, hspan⟩
  | missing comma scan _ =>
    exact reportedFrom_faultAt
      (hd.trans (comma.reaches.trans (Style.scan_ok scan).reaches)) (.refl _)
  | unclosed style _ => exact reportedFrom_faultAt (.refl c) (hd.trans style.reaches)
  | pattern style close refused =>
    cases style with
    | present comma _ scan _ =>
      exact ⟨_, _, hd.trans comma.reaches, (Style.scan_ok scan).reaches, rfl⟩

theorem ChoiceBegun.reaches {choice : Choice} {list : List Branch} {first m : Cursor}
    (h : ChoiceBegun options depth frame c choice list first m) :
    c.Reaches first ∧ first.Reaches m := by
  obtain ⟨name, n, c₁, c₂, head, comma, offset, branches⟩ := h
  exact ⟨head.reaches.trans (comma.reaches.trans offset.reaches), branches.reaches⟩

theorem BranchBegun.reaches {choice : Choice} {list : List Branch} {selector : List Char}
    {s : Cursor} (h : BranchBegun options depth frame c choice list selector s) :
    c.Reaches s := by
  obtain ⟨first, m, blanks, begun, -, -, reads⟩ := h
  exact begun.reaches.1.trans (begun.reaches.2.trans reads.reaches)

theorem reportedFrom_of_choice (h : ChoiceFault options depth frame c e) : ReportedFrom c e := by
  cases h with
  | missingOptions head _ _ => exact reportedFrom_faultAt head.reaches (.refl _)
  | offset _ head comma fault =>
    exact (reportedFrom_of_offset fault).of_reaches (head.reaches.trans comma.reaches)
  | selector _ begun equals fault =>
    exact (reportedFrom_of_integer fault).of_reaches
      (begun.reaches.1.trans (begun.reaches.2.trans equals.reaches))
  | duplicate begun _ reads _ =>
    exact reportedFrom_faultAt (begun.reaches.1.trans begun.reaches.2) reads.reaches
  | missingFragment begun _ => exact reportedFrom_faultAt begun.reaches (.refl _)
  | nesting _ begun brace => exact reportedFrom_faultAt begun.reaches brace.reaches
  | unclosedBranch _ begun brace body _ =>
    exact reportedFrom_faultAt begun.reaches (brace.reaches.trans body.reaches)
  | missingSelector begun =>
    exact reportedFrom_faultAt (begun.reaches.1.trans begun.reaches.2) (.refl _)
  | missingOther begun _ _ _ => exact reportedFrom_faultAt begun.reaches.1 begun.reaches.2
  | unclosed begun _ =>
    exact reportedFrom_faultAt (.refl c) (begun.reaches.1.trans begun.reaches.2)

theorem reportedFrom_of_argument (h : ArgumentFault options depth frame c e) :
    ReportedFrom c e := by
  cases h with
  | unclosed _ reads _ => exact reportedFrom_faultAt (.refl c) reads.reaches
  | empty _ reads => exact reportedFrom_faultAt (.refl c) reads.reaches
  | invalidNameCharacter _ _ reads => exact reportedFrom_faultAt (.refl c) reads.reaches
  | unclosedName head _ => exact reportedFrom_faultAt (.refl c) head.reaches
  | malformed head _ _ reads =>
    exact reportedFrom_faultAt (.refl c) (head.reaches.trans reads.reaches)
  | unclosedComma head _ => exact reportedFrom_faultAt (.refl c) head.reaches
  | missingType head _ => exact reportedFrom_faultAt head.reaches (.refl _)
  | invalidType head run _ _ => exact reportedFrom_faultAt head.reaches run.reads.reaches
  | number head fault => exact reportedFrom_of_style fault head.reaches
  | dateTime _ head fault => exact reportedFrom_of_style fault head.reaches
  | choice fault => exact reportedFrom_of_choice fault

theorem TagBegun.reaches {name : List Char} {m : Cursor}
    (h : TagBegun options depth frame c name m) : c.Reaches m := by
  obtain ⟨below, c₁, es, -, opening, children⟩ := h
  exact opening.reaches.trans children.reaches

theorem reportedFrom_of_tag (h : TagFault options depth frame c e) : ReportedFrom c e := by
  cases h with
  | invalidName _ _ reads => exact reportedFrom_faultAt (.refl c) reads.reaches
  | unclosedOpening _ _ reads _ => exact reportedFrom_faultAt (.refl c) reads.reaches
  | nesting _ opening => exact reportedFrom_faultAt (.refl c) opening.reaches
  | unclosed begun _ => exact reportedFrom_faultAt (.refl c) begun.reaches
  | missingName begun reads _ => exact reportedFrom_faultAt begun.reaches reads.reaches
  | mismatched begun reads _ run _ =>
    exact reportedFrom_faultAt (begun.reaches.trans reads.reaches) run.reads.reaches
  | unclosedClosing begun _ reads _ => exact reportedFrom_faultAt begun.reaches reads.reaches

theorem reportedFrom_of_faultAt {place : Place} (h : FaultAt options place e) :
    ReportedFrom place.cursor e := by
  cases h with
  | unmatchedBrace _ reads => exact reportedFrom_faultAt (.refl _) reads.reaches
  | unexpectedClosingTag _ reads _ bracket =>
    rcases bracket with bracket | rfl
    · exact reportedFrom_faultAt (.refl _) (reads.reaches.trans bracket.reaches)
    · exact reportedFrom_faultAt (.refl _) reads.reaches
  | argument fault => exact reportedFrom_of_argument fault
  | tag fault => exact reportedFrom_of_tag fault

theorem Place.Step.reaches {place next : Place} (h : place.Step options next) :
    place.cursor.Reaches next.cursor := by
  cases h with
  | pass written => exact written.reaches
  | enterTag opening => exact opening.reaches
  | enterBranch begun brace => exact begun.reaches.trans brace.reaches

theorem Place.Leads.reaches {place site : Place} (h : place.Leads options site) :
    place.cursor.Reaches site.cursor := by
  induction h with
  | refl => exact .refl _
  | tail _ step ih => exact ih.trans step.reaches

theorem reportedFrom_of_refused {place : Place} (h : Refused options place e) :
    ReportedFrom place.cursor e := by
  obtain ⟨site, leads, fault⟩ := h
  exact (reportedFrom_of_faultAt fault).of_reaches leads.reaches

/-! ## Results -/

/-- Every span in the result of reading a text, whether a message or an error, is one that counting
gives. -/
theorem parse_spans_countedIn (options : Options) (text : String) :
    (∀ m, parse options text = .ok m → ∀ s ∈ m.spans, s.CountedIn text) ∧
      ∀ e, parse options text = .error e → e.span.CountedIn text := by
  have hstart := Cursor.in_ofString text
  constructor
  · intro m h s hs
    obtain ⟨d, written, hspan⟩ := written_of_parse h
    rcases List.mem_cons.1 hs with rfl | hs
    · rw [hspan]
      exact countedIn_of_reaches hstart written.reaches
    · exact countedIn_of_written written hstart s hs
  · intro e h
    exact (reportedFrom_of_refused (refused_of_parse h)).countedIn hstart

/-- Every span in the result of reading a text of fewer than `2 ^ 32 - 1` characters, whether a
message or an error, is a true one. -/
theorem parse_spans_trueIn (options : Options) {text : String}
    (small : text.length < UInt32.size - 1) :
    (∀ m, parse options text = .ok m → ∀ s ∈ m.spans, s.TrueIn text) ∧
      ∀ e, parse options text = .error e → e.span.TrueIn text := by
  obtain ⟨hmessage, herror⟩ := parse_spans_countedIn options text
  exact ⟨fun m h s hs => (hmessage m h s hs).trueIn small, fun e h => (herror e h).trueIn small⟩

/-- Characters of two bytes, and a branch on the second line. -/
theorem parse_spans_trueIn_multiline :
    "é\né {n, plural, other {#}}".length < UInt32.size - 1 ∧
      ∃ m, parse {} "é\né {n, plural, other {#}}" = .ok m ∧
        (⟨⟨24, 2, 21⟩, ⟨27, 2, 24⟩⟩ : Span) ∈ m.spans ∧
        ∀ s ∈ m.spans, s.TrueIn "é\né {n, plural, other {#}}" := by
  have small : "é\né {n, plural, other {#}}".length < UInt32.size - 1 := by decide +kernel
  have hmap : (parse {} "é\né {n, plural, other {#}}").toOption.map
      (fun m => decide ((⟨⟨24, 2, 21⟩, ⟨27, 2, 24⟩⟩ : Span) ∈ m.spans)) = some true := by
    decide +kernel
  obtain ⟨m, hparse, hmem⟩ := exists_parse_of_map hmap
  exact ⟨small, m, hparse, of_decide_eq_true hmem, (parse_spans_trueIn {} small).1 m hparse⟩

/-! ## One character more -/

/-- A text of letters that are no syntax is written as it is. -/
theorem quotes_replicate (context : TextContext) (n : Nat) :
    Literal.Quotes context (.replicate n 'a') (.replicate n 'a') := by
  induction n with
  | zero => exact .nil
  | succ n ih => exact .plain (by simp [Literal.isSpecial]) (by decide) ih

/-- A text of letters is read to its end. -/
theorem exists_parse_replicate (options : Options) {n : Nat} (hn : n ≠ 0) :
    ∃ m, parse options (String.ofList (.replicate n 'a')) = .ok m ∧
      m.span = ⟨.start, .counted (.replicate n 'a')⟩ := by
  have quotes := quotes_replicate (Frame.context {} options) n
  have reads : (Cursor.ofString (String.ofList (.replicate n 'a'))).Reads (.replicate n 'a')
      ⟨[], .counted (.replicate n 'a')⟩ := by
    refine ⟨by simp [Cursor.ofString], ?_⟩
    exact (Position.advanceAll_start _).symm
  have peek : Token.peek (Frame.context {} options)
      (Cursor.ofString (String.ofList (.replicate n 'a'))).rest = .text := by
    rw [reads.1]
    exact quotes.peek (by simpa using hn)
  have scan := Literal.scan_quotes quotes (by simp [Token.peek]) reads
  have literal : Written options options.maxNestingDepth {} (.element (.literal _ _)) _ _ :=
    .literal peek scan
  have written := Written.cons literal (.nil trivial)
  exact ⟨_, parse_of_written written, rfl⟩

theorem Position.counted_replicate (n : Nat) :
    counted (.replicate n 'a') = ⟨n, 1, .ofNat (1 + n)⟩ := by
  have hbytes : byteSize (.replicate n 'a') = n := by
    induction n with
    | zero => rfl
    | succ n ih =>
      rw [List.replicate_succ, byteSize_cons, ih, Nat.add_comm]
      rfl
  have hlines : List.count '\n' (.replicate n 'a') = 0 := by simp [List.count_replicate]
  have hline : (List.replicate n 'a').takeWhile (fun ch => ch ≠ '\n') = .replicate n 'a' := by
    simp
  rw [counted, hbytes, lineAfter, hlines, columnAfter, List.reverse_replicate, hline,
    List.length_replicate]
  rfl

/-- In a text of `2 ^ 32 - 1` letters, the column at the end wraps around to zero. -/
theorem parse_span_wraps :
    ∃ text m, text = String.ofList (.replicate (UInt32.size - 1) 'a') ∧
      text.length = UInt32.size - 1 ∧ parse {} text = .ok m ∧
      m.span.stop = ⟨UInt32.size - 1, 1, 0⟩ ∧ ¬∀ s ∈ m.spans, s.TrueIn text := by
  obtain ⟨m, hparse, hspan⟩ := exists_parse_replicate {} (n := UInt32.size - 1) (by decide)
  have hstop : m.span.stop = ⟨UInt32.size - 1, 1, 0⟩ := by
    rw [hspan, Position.counted_replicate]
    rfl
  have hlength : (String.ofList (.replicate (UInt32.size - 1) 'a')).length = UInt32.size - 1 := by
    rw [String.length_ofList, List.length_replicate]
  refine ⟨_, m, rfl, hlength, hparse, hstop, fun htrue => ?_⟩
  obtain ⟨before, -, -, -, -, hcolumn⟩ := (htrue m.span List.mem_cons_self).stop
  have hzero : m.span.stop.column.toNat = 0 := by
    rw [hstop]
    rfl
  rw [hzero, Position.columnAfter] at hcolumn
  omega

end MessageFormat
