import Mathlib.Data.List.DropRight
import MessageFormat.Proofs.Grammar.Completeness
import MessageFormat.Proofs.Positions
import MessageFormat.Proofs.WellFormed

/-!
# Errors point at what they name

An error has a kind and a span, and the kind says what stands in the span.  An argument that is not
closed is reported from the brace that opens it, a repeated selector over the second occurrence, an
unknown type word over the word, and something that is missing over nothing.
`ErrorKind.Marks` has one line for each kind, and every error of `parse` keeps to it
(`parse_error_anchored`).

Where a fault is found does not matter, so that nothing is said about the depth.  Only two kinds
speak of more than the text of their span: a repeated selector and a missing `other` are about the
branches that have been read, and for them the argument is found again by `ChoiceStarted`.
-/

namespace MessageFormat

/-- A plural or select argument somewhere in the source, read up to `m`, after the branches `list`.
The first of them begins at `first`. -/
def ChoiceStarted (options : Options) (source : String) (choice : Choice) (list : List Branch)
    (first m : Cursor) : Prop :=
  ∃ site : Place, (Place.start options source).Leads options site ∧
    ChoiceBegun options site.depth site.frame site.cursor choice list first m

/-- The selector of a branch that has been read stands at `a` again. -/
def SelectorRepeated (options : Options) (source : String) (family : ChoiceFamily) (a : Cursor)
    (s : List Char) : Prop :=
  ∃ choice list first, choice.family = family ∧
    ChoiceStarted options source choice list first a ∧ ∃ b ∈ list, b.selector = String.ofList s

/-- What stands in the span of an error of a kind: the text `s`, from the cursor `a` of the source
to the cursor `b`. -/
def ErrorKind.Marks (options : Options) (source : String) (a : Cursor) (s : List Char)
    (b : Cursor) : ErrorKind → Prop
  | .other => s = ['}']
  | .emptyArgument => ∃ blanks, IsBlank blanks ∧ s = '{' :: blanks ++ ['}']
  | .expectArgumentClosingBrace | .malformedArgument => ['{'] <+: s
  | .nestingLimitExceeded => s = ['{'] ∨
      ∃ name blanks, IsTagName name ∧ IsBlank blanks ∧ s = '<' :: name ++ blanks ++ ['>']
  | .invalidTagName | .unclosedTag =>
      ∃ letter, isAsciiLetter letter = true ∧ ['<', letter] <+: s
  | .invalidTag => ['<'] <+: s
  | .unmatchedClosingTag => ['<', '/'] <+: s ∨
      (∃ m : Cursor, m.In source ∧ m.Reads ['<', '/'] a) ∧ s ≠ [] ∧
        s = a.rest.takeWhile isTagNameChar
  | .expectArgumentType => s = []
  | .invalidArgumentType => IsIdentifier s ∧ String.ofList s ∉
      ["number", "date", "time", "plural", "selectordinal", "select"]
  | .duplicatePluralArgumentSelector => SelectorRepeated options source .plural a s
  | .duplicateSelectArgumentSelector => SelectorRepeated options source .select a s
  | .expectNumberSkeleton | .invalidNumberSkeleton | .expectDateTimeSkeleton
  | .invalidDateTimeSkeleton => [':', ':'] <+: s
  | .unclosedQuoteInArgumentStyle =>
      (∃ m : Cursor, m.In source ∧ m.Reads ['\''] a) ∧ '\'' ∉ s ∧ b.rest = []
  | .expectArgumentStyle | .expectSelectArgumentOptions | .expectSelectArgumentSelector
  | .expectSelectArgumentSelectorFragment | .expectPluralArgumentSelectorFragment => s = []
  | .expectPluralArgumentOffsetValue | .expectPluralArgumentSelector => IsSign s
  | .invalidPluralArgumentOffsetValue | .invalidPluralArgumentSelector =>
      ∃ sign digits, IsSign sign ∧ IsDigits digits ∧ s = sign ++ digits
  | .missingOtherClause => ∃ choice list, ChoiceStarted options source choice list a b ∧
      list ≠ [] ∧ ∀ branch ∈ list, branch.selector ≠ "other"

/-- The error is reported over a text that its kind allows. -/
def ParseError.Anchored (options : Options) (source : String) (e : ParseError) : Prop :=
  ∃ a s b, a.In source ∧ a.Reads s b ∧ e.span = ⟨a.position, b.position⟩ ∧
    e.kind.Marks options source a s b

variable {options : Options} {source : String} {c d m : Cursor} {e : ParseError}

/-! ## Texts with a known beginning -/

/-- What leads from `c` to `d` begins with the given text. -/
def Cursor.Begins (c : Cursor) (start : List Char) (d : Cursor) : Prop :=
  ∃ t, c.Reads (start ++ t) d

theorem Cursor.Reads.begins (start : List Char) {t : List Char} (h : c.Reads (start ++ t) d) :
    c.Begins start d :=
  ⟨t, h⟩

theorem Cursor.Begins.trans {start : List Char} (h : c.Begins start m) (hd : m.Reaches d) :
    c.Begins start d := by
  obtain ⟨s, hs⟩ := h
  obtain ⟨t, ht⟩ := hd
  refine ⟨s ++ t, ?_⟩
  rw [← List.append_assoc]
  exact hs.append ht

theorem NameWritten.begins {name : List Char} (h : NameWritten c name d) : c.Begins ['{'] d := by
  obtain ⟨before, after, -, -, -, reads⟩ := h
  exact reads.begins ['{']

theorem TypeWritten.begins {name word : List Char} (h : TypeWritten c name word d) :
    c.Begins ['{'] d := by
  obtain ⟨m, blanks, head, -, reads⟩ := h
  exact head.begins.trans reads.reaches

theorem ChoiceBegun.begins {depth : Nat} {frame : Frame} {choice : Choice} {list : List Branch}
    {first : Cursor} (h : ChoiceBegun options depth frame c choice list first d) :
    c.Begins ['{'] d := by
  obtain ⟨name, n, c₁, c₂, head, comma, offset, branches⟩ := h
  exact head.begins.trans (comma.reaches.trans (offset.reaches.trans branches.reaches))

/-- An opening tag begins with a left angle bracket and a letter. -/
theorem IsTagName.begins {name t : List Char} (h : IsTagName name)
    (reads : c.Reads ('<' :: name ++ t) d) :
    ∃ letter, isAsciiLetter letter = true ∧ c.Begins ['<', letter] d := by
  obtain ⟨letter, tail, rfl, hletter⟩ := h.exists_cons
  exact ⟨letter, hletter, tail ++ t, reads⟩

theorem anchored_faultAt {fault : Fault} {s : List Char} (hc : c.In source) (reads : c.Reads s d)
    (marks : fault.kind.Marks options source c s d) :
    (faultAt fault c d).Anchored options source :=
  ⟨c, s, d, hc, reads, rfl, marks⟩

theorem anchored_of_begins {fault : Fault} {start : List Char} (hc : c.In source)
    (h : c.Begins start d)
    (marks : ∀ s, start <+: s → fault.kind.Marks options source c s d) :
    (faultAt fault c d).Anchored options source := by
  obtain ⟨t, reads⟩ := h
  exact anchored_faultAt hc reads (marks _ (List.prefix_append start t))

/-- An argument that is not closed is reported from its brace. -/
theorem anchored_unclosedArgument (hc : c.In source) (h : c.Begins ['{'] d) :
    (faultAt .unclosedArgument c d).Anchored options source :=
  anchored_of_begins hc h fun _ hs => hs

/-- What is missing is reported where it should be. -/
theorem anchored_missing {fault : Fault} (hc : c.In source)
    (marks : fault.kind.Marks options source c [] c) :
    (faultAt fault c c).Anchored options source :=
  anchored_faultAt hc (.refl c) marks

/-! ## Integers and offsets -/

theorem NumeralWritten.reads {sign digits : List Char} (h : NumeralWritten c sign digits d) :
    c.Reads (sign ++ digits) d := by
  obtain ⟨-, -, m, hsign, hdigits⟩ := h
  exact hsign.append hdigits.reads

theorem NumeralWritten.isDigits {sign digits : List Char} (h : NumeralWritten c sign digits d)
    (nonempty : digits ≠ []) : IsDigits digits := by
  obtain ⟨-, -, m, -, hdigits⟩ := h
  exact ⟨nonempty, hdigits.all⟩

/-- A fault of an integer is reported over its sign or over all of it. -/
theorem anchored_of_integer {missing tooLarge : Fault}
    (h : IntegerFault missing tooLarge c e) (hc : c.In source)
    (hmissing : ∀ s d, IsSign s → missing.kind.Marks options source c s d)
    (htooLarge : ∀ sign digits d, IsSign sign → IsDigits digits →
      tooLarge.kind.Marks options source c (sign ++ digits) d) :
    e.Anchored options source := by
  cases h with
  | @missing sign d numeral =>
    have reads := numeral.reads
    rw [List.append_nil] at reads
    exact anchored_faultAt hc reads (hmissing sign d numeral.1)
  | @tooLarge sign digits d numeral large =>
    have hdigits : digits ≠ [] := by
      rintro rfl
      exact absurd large (by decide)
    exact anchored_faultAt hc numeral.reads
      (htooLarge sign digits d numeral.1 (numeral.isDigits hdigits))

theorem anchored_of_offset (h : OffsetFault c e) (hc : c.In source) :
    e.Anchored options source := by
  cases h with
  | missing keyword _ => exact anchored_missing (hc.reads keyword.reads) (.inl rfl)
  | integer reads _ fault =>
    exact anchored_of_integer fault (hc.reads reads) (fun _ _ hsign => hsign)
      fun sign digits _ hsign hdigits => ⟨sign, digits, hsign, hdigits, rfl⟩
  | @range blanks sign digits m d reads _ numeral nonempty _ =>
    exact anchored_faultAt (hc.reads reads) numeral.reads
      ⟨sign, digits, numeral.1, numeral.isDigits nonempty, rfl⟩

/-! ## Styles -/

theorem marks_of_numberPatternOf {skeleton s : List Char} {span : Span} {fault : Fault}
    (h : Style.numberPatternOf options skeleton span = .error fault) (hs : [':', ':'] <+: s)
    (a b : Cursor) : fault.kind.Marks options source a s b := by
  rw [Style.numberPatternOf] at h
  split at h
  · cases h
    exact hs
  split at h
  · cases h
    exact hs
  split at h
  · split at h
    · cases h
      exact hs
    · cases h
  · cases h

theorem marks_of_dateTimePatternOf {skeleton s : List Char} {span : Span} {fault : Fault}
    (h : Style.dateTimePatternOf options skeleton span = .error fault) (hs : [':', ':'] <+: s)
    (a b : Cursor) : fault.kind.Marks options source a s b := by
  rw [Style.dateTimePatternOf] at h
  split at h
  · cases h
    exact hs
  split at h
  · split at h
    · cases h
      exact hs
    · cases h
  · cases h

/-- Only what begins with two colons is refused as a skeleton. -/
theorem colons_of_styleOf {σ : Type} {patternOf : List Char → Span → Except Fault σ}
    {text : List Char} {span : Span} {fault : Fault}
    (h : Style.styleOf patternOf (some (text, span)) = .error fault) :
    [':', ':'] <+: text ∧ ∃ skeleton, patternOf skeleton span = .error fault := by
  rw [Style.styleOf] at h
  cases hafter : Text.after? [':', ':'] text with
  | none =>
    rw [hafter] at h
    cases h
  | some skeleton =>
    have hcolons : ∃ rest, text = ':' :: ':' :: rest := by
      by_contra hnone
      rw [after?_colons_eq_none_iff.2 fun rest heq => hnone ⟨rest, heq⟩] at hafter
      cases hafter
    obtain ⟨rest, rfl⟩ := hcolons
    refine ⟨List.prefix_append [':', ':'] rest, Text.trimStart skeleton, ?_⟩
    rw [hafter] at h
    dsimp only at h
    split at h
    · cases h
    · next hpattern =>
      cases h
      exact hpattern

/-- A fault of a style, in an argument opened at `c`. -/
theorem anchored_of_style {σ : Type} {patternOf : List Char → Span → Except Fault σ}
    (hpattern : ∀ {skeleton s span fault}, patternOf skeleton span = .error fault →
      [':', ':'] <+: s → ∀ a b, fault.kind.Marks options source a s b)
    (h : StyleFault patternOf c d e) (hc : c.In source) (head : c.Begins ['{'] d) :
    e.Anchored options source := by
  have hd : d.In source := by
    obtain ⟨t, reads⟩ := head
    exact hc.reads reads
  cases h with
  | unclosedQuote comma scan =>
    obtain ⟨o, a, quoted, b, ho, hopens, hquoted, hnone, hb, hspan⟩ := Style.scan_error scan
    have ho : o.In source := hd.reaches (comma.reaches.trans ho)
    exact ⟨a, quoted, b, ho.reads hopens, hquoted, hspan, ⟨o, ho, hopens⟩, hnone, hb⟩
  | missing comma scan _ =>
    exact anchored_missing (hd.reaches (comma.reaches.trans (Style.scan_ok scan).reaches)) rfl
  | unclosed style _ => exact anchored_unclosedArgument hc (head.trans style.reaches)
  | pattern style _ refused =>
    obtain ⟨hcolons, skeleton, hfault⟩ := colons_of_styleOf refused
    cases style with
    | present comma _ scan _ =>
      have hcolons := hcolons.trans (List.rdropWhile_prefix isWhiteSpace _)
      exact ⟨_, _, _, hd.reaches comma.reaches, Style.scan_ok scan, rfl,
        hpattern hfault hcolons _ _⟩

/-! ## Arguments and tags -/

section Site

variable {site : Place} (leads : (Place.start options source).Leads options site)
include leads

theorem in_of_leads : site.cursor.In source := (Cursor.in_ofString source).reaches leads.reaches

theorem anchored_of_choice
    (h : ChoiceFault options site.depth site.frame site.cursor e) : e.Anchored options source := by
  have hc := in_of_leads leads
  cases h with
  | missingOptions head _ _ => exact anchored_missing (hc.reaches head.reaches) rfl
  | offset _ head comma fault =>
    exact anchored_of_offset fault (hc.reaches (head.reaches.trans comma.reaches))
  | selector _ begun equals fault =>
    have hm := hc.reaches (begun.reaches.1.trans (begun.reaches.2.trans equals.reaches))
    exact anchored_of_integer fault hm (fun _ _ hsign => hsign)
      fun sign digits _ hsign hdigits => ⟨sign, digits, hsign, hdigits, rfl⟩
  | @duplicate choice list selector first m d begun selects reads again =>
    have hm := hc.reaches (begun.reaches.1.trans begun.reaches.2)
    have repeated : SelectorRepeated options source choice.family m selector :=
      ⟨choice, list, first, rfl, ⟨site, leads, begun⟩, again⟩
    refine anchored_faultAt hm reads ?_
    cases choice with
    | select => exact repeated
    | plural kind => exact repeated
  | @missingFragment choice _ _ _ begun _ =>
    refine anchored_missing (hc.reaches begun.reaches) ?_
    cases choice <;> rfl
  | nesting _ begun brace =>
    exact anchored_faultAt (hc.reaches begun.reaches) brace (.inl rfl)
  | unclosedBranch _ begun brace body _ =>
    exact anchored_unclosedArgument (hc.reaches begun.reaches)
      ((brace.begins ['{']).trans body.reaches)
  | @missingSelector choice _ _ begun =>
    refine anchored_missing (hc.reaches (begun.reaches.1.trans begun.reaches.2)) ?_
    cases choice with
    | select => rfl
    | plural kind => exact .inl rfl
  | @missingOther choice list first d begun nonempty _ none =>
    obtain ⟨s, reads⟩ := begun.reaches.2
    exact anchored_faultAt (hc.reaches begun.reaches.1) reads
      ⟨choice, list, ⟨site, leads, begun⟩, nonempty, none⟩
  | unclosed begun _ => exact anchored_unclosedArgument hc begun.begins

theorem anchored_of_argument
    (h : ArgumentFault options site.depth site.frame site.cursor e) :
    e.Anchored options source := by
  have hc := in_of_leads leads
  cases h with
  | unclosed _ reads _ => exact anchored_unclosedArgument hc (reads.begins ['{'])
  | @empty blanks _ blank reads => exact anchored_faultAt hc reads ⟨blanks, blank, rfl⟩
  | invalidNameCharacter _ _ reads =>
    exact anchored_of_begins hc (reads.begins ['{']) fun _ hs => hs
  | unclosedName head _ => exact anchored_unclosedArgument hc head.begins
  | malformed head _ _ reads =>
    exact anchored_of_begins hc (head.begins.trans reads.reaches) fun _ hs => hs
  | unclosedComma head _ => exact anchored_unclosedArgument hc head.begins
  | missingType head _ => exact anchored_missing (hc.reaches head.reaches) rfl
  | invalidType head run nonempty unknown =>
    exact anchored_faultAt (hc.reaches head.reaches) run.reads ⟨⟨nonempty, run.all⟩, unknown⟩
  | number head fault => exact anchored_of_style marks_of_numberPatternOf fault hc head.begins
  | dateTime _ head fault =>
    exact anchored_of_style marks_of_dateTimePatternOf fault hc head.begins
  | choice fault => exact anchored_of_choice leads fault

theorem anchored_of_tag (h : TagFault options site.depth site.frame site.cursor e) :
    e.Anchored options source := by
  have hc := in_of_leads leads
  cases h with
  | invalidName tagName _ reads =>
    obtain ⟨letter, hletter, begins⟩ := tagName.begins reads
    exact anchored_of_begins hc begins fun _ hs => ⟨letter, hletter, hs⟩
  | unclosedOpening _ _ reads _ =>
    exact anchored_of_begins hc (reads.begins ['<']) fun _ hs => hs
  | nesting _ opening =>
    obtain ⟨blanks, tagName, blank, reads⟩ := opening
    exact anchored_faultAt hc reads (.inr ⟨_, blanks, tagName, blank, rfl⟩)
  | unclosed begun _ =>
    obtain ⟨below, c₁, es, -, ⟨blanks, tagName, -, reads⟩, children⟩ := begun
    rw [List.append_assoc] at reads
    obtain ⟨letter, hletter, begins⟩ := tagName.begins reads
    exact anchored_of_begins hc (begins.trans children.reaches) fun _ hs => ⟨letter, hletter, hs⟩
  | missingName begun reads _ =>
    exact anchored_of_begins (hc.reaches begun.reaches) (reads.begins ['<']) fun _ hs => hs
  | mismatched begun reads tagName run _ =>
    have hm := hc.reaches begun.reaches
    obtain ⟨letter, tail, hclosing, -⟩ := tagName.exists_cons
    exact anchored_faultAt (hm.reads reads) run.reads
      (.inr ⟨⟨_, hm, reads⟩, by simp [hclosing], run.eq_takeWhile⟩)
  | unclosedClosing begun _ reads _ =>
    exact anchored_of_begins (hc.reaches begun.reaches) (reads.begins ['<']) fun _ hs => hs

theorem anchored_of_faultAt (h : FaultAt options site e) : e.Anchored options source := by
  have hc := in_of_leads leads
  cases h with
  | unmatchedBrace _ reads => exact anchored_faultAt hc reads rfl
  | @unexpectedClosingTag _ _ _ c m d _ reads _ bracket =>
    have hd : m.Reaches d := by
      rcases bracket with bracket | rfl
      · exact bracket.reaches
      · exact .refl _
    exact anchored_of_begins hc ((reads.begins ['<', '/']).trans hd) fun _ hs => .inl hs
  | argument fault => exact anchored_of_argument leads fault
  | tag fault => exact anchored_of_tag leads fault

end Site

/-! ## Results -/

/-- Every error is reported over a text of the source that its kind allows, and over all of it. -/
theorem parse_error_anchored {text : String} (h : parse options text = .error e) :
    ∃ a s b, a.In text ∧ a.Reads s b ∧ e.span = ⟨a.position, b.position⟩ ∧
      e.span.slice? text = some (String.ofList s) ∧ e.kind.Marks options text a s b := by
  obtain ⟨site, leads, fault⟩ := refused_of_parse h
  obtain ⟨a, s, b, ha, reads, hspan, marks⟩ := anchored_of_faultAt leads fault
  refine ⟨a, s, b, ha, reads, hspan, ?_, marks⟩
  rw [slice?_eq_some_iff, String.toList_ofList, hspan]
  exact ha.stands reads

theorem eq_error_of_map {ε α : Type} {x : Except ε α} {e : ε}
    (h : x.map (fun _ => ()) = .error e) : x = .error e := by
  cases x with
  | error e' => rw [Except.error.inj h]
  | ok a => cases h

/-- A selector repeated inside a tag is reported over its second occurrence. -/
theorem parse_error_anchored_repeated :
    parse {} "Hi <b>{n, plural, =1 {one} =1 {uno} other {#}}</b>" =
      .error ⟨.duplicateSelector .plural "=1", ⟨⟨27, 1, 28⟩, ⟨29, 1, 30⟩⟩⟩ ∧
    ∃ a : Cursor, a.position = ⟨27, 1, 28⟩ ∧
      SelectorRepeated {} "Hi <b>{n, plural, =1 {one} =1 {uno} other {#}}</b>" .plural a
        ['=', '1'] := by
  have hparse : parse {} "Hi <b>{n, plural, =1 {one} =1 {uno} other {#}}</b>" =
      .error ⟨.duplicateSelector .plural "=1", ⟨⟨27, 1, 28⟩, ⟨29, 1, 30⟩⟩⟩ :=
    eq_error_of_map (by decide +kernel)
  have hslice : Span.slice? ⟨⟨27, 1, 28⟩, ⟨29, 1, 30⟩⟩
      "Hi <b>{n, plural, =1 {one} =1 {uno} other {#}}</b>" = some (String.ofList ['=', '1']) := by
    decide +kernel
  obtain ⟨a, s, b, -, -, hspan, hs, marks⟩ := parse_error_anchored hparse
  have hs : s = ['=', '1'] :=
    String.ofList_injective (Option.some.inj (hs.symm.trans hslice))
  rw [hs] at marks
  exact ⟨hparse, a, (congrArg Span.start hspan).symm, marks⟩

end MessageFormat
