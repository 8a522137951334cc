import MessageFormat.Proofs.Grammar.Soundness
import MessageFormat.Proofs.NumberFormat.Words

/-!
# What is read is well formed

A tree can have a node that no text stands for: a choice with no branches or with one selector
twice, a name with blanks in it, a number sign outside of every plural argument.  Reading a text
never gives one.  `Element.WellFormed` is the list of what can be relied on at every node, and
`parse_wellFormed` says that it holds of every message that is read.

The number sign is what makes the predicate depend on its surroundings.  `inPlural` tells whether
the nearest branch around belongs to a plural argument: a branch sets it, a tag hands it on, and
outside of every branch it is false.
-/

namespace MessageFormat

/-- A style that is not a skeleton. -/
structure IsSimpleStyle (text : List Char) : Prop where
  nonempty : text ≠ []
  noSkeleton : ∀ rest, text ≠ ':' :: ':' :: rest
  trimmed : ∀ ch, text.getLast? = some ch → isWhiteSpace ch = false

/-- A style is absent, simple, or a skeleton with the given property. -/
def ArgumentStyle.WellFormed {σ : Type} (skeleton : σ → Prop) : Option (ArgumentStyle σ) → Prop
  | none => True
  | some (.simple text) => IsSimpleStyle text.toList
  | some (.skeleton value) => skeleton value

/-- The branches of a plural or select argument, apart from their bodies. -/
structure Choice.Selects (options : Options) (choice : Choice) (list : List Branch) : Prop where
  nonempty : list ≠ []
  selectors : ∀ b ∈ list, IsSelector choice b.selector.toList
  distinct : (list.map Branch.selector).Nodup
  other : options.requiresOther = true → ∃ b ∈ list, b.selector = "other"

mutual

/-- The element and everything below it is well formed. -/
def Element.WellFormed (options : Options) (inPlural : Bool) : Element → Prop
  | .literal text _ => text ≠ ""
  | .argument name _ => IsIdentifier name.toList
  | .number name style _ =>
    IsIdentifier name.toList ∧ ArgumentStyle.WellFormed (fun p => p.tokens ≠ []) style
  | .date name style _ =>
    IsIdentifier name.toList ∧ ArgumentStyle.WellFormed (fun _ => True) style
  | .time name style _ =>
    IsIdentifier name.toList ∧ ArgumentStyle.WellFormed (fun _ => True) style
  | .select name branches _ =>
    IsIdentifier name.toList ∧ Choice.select.Selects options branches ∧
      Branch.AllWellFormed options false branches
  | .plural name kind _ branches _ =>
    IsIdentifier name.toList ∧ (Choice.plural kind).Selects options branches ∧
      Branch.AllWellFormed options true branches
  | .pound _ => inPlural = true
  | .tag name children _ =>
    options.ignoreTag = false ∧ IsTagName name.toList ∧
      Element.AllWellFormed options inPlural children

/-- All elements of a list are well formed. -/
def Element.AllWellFormed (options : Options) (inPlural : Bool) : List Element → Prop
  | [] => True
  | e :: es => e.WellFormed options inPlural ∧ Element.AllWellFormed options inPlural es

/-- The bodies of all branches of a list are well formed. -/
def Branch.AllWellFormed (options : Options) (inPlural : Bool) : List Branch → Prop
  | [] => True
  | .mk _ body _ :: branches =>
    Element.AllWellFormed options inPlural body ∧ Branch.AllWellFormed options inPlural branches

end

/-! ## What is below -/

section Below

variable {options : Options}

mutual

/-- Everything below a well-formed element is well formed. -/
theorem Element.wellFormed_of_mem_walk {inPlural : Bool} {path : String} : {e : Element} →
    e.WellFormed options inPlural → ∀ x ∈ e.walk path, ∃ inner, x.2.WellFormed options inner
  | .literal .., h | .argument .., h | .number .., h | .date .., h | .time .., h
  | .pound .., h => by
    intro x hx
    simp only [Element.walk, List.mem_singleton] at hx
    subst hx
    exact ⟨inPlural, h⟩
  | .select name branches span, h => by
    intro x hx
    rw [Element.walk, List.mem_cons] at hx
    rcases hx with rfl | hx
    · exact ⟨_, h⟩
    · rw [Element.WellFormed] at h
      exact Branch.wellFormed_of_mem_walkList h.2.2 x hx
  | .plural name kind offset branches span, h => by
    intro x hx
    rw [Element.walk, List.mem_cons] at hx
    rcases hx with rfl | hx
    · exact ⟨_, h⟩
    · rw [Element.WellFormed] at h
      exact Branch.wellFormed_of_mem_walkList h.2.2 x hx
  | .tag name children span, h => by
    intro x hx
    rw [Element.walk, List.mem_cons] at hx
    rcases hx with rfl | hx
    · exact ⟨_, h⟩
    · rw [Element.WellFormed] at h
      exact Element.wellFormed_of_mem_walkList h.2.2 x hx

theorem Element.wellFormed_of_mem_walkList {inPlural : Bool} {path : String} {index : Nat} :
    {es : List Element} → Element.AllWellFormed options inPlural es →
      ∀ x ∈ Element.walkList path index es, ∃ inner, x.2.WellFormed options inner
  | [], _ => by simp [Element.walkList]
  | e :: es, h => by
    intro x hx
    rw [Element.AllWellFormed] at h
    rw [Element.walkList, List.mem_append] at hx
    rcases hx with hx | hx
    · exact Element.wellFormed_of_mem_walk h.1 x hx
    · exact Element.wellFormed_of_mem_walkList h.2 x hx

theorem Branch.wellFormed_of_mem_walkList {inPlural : Bool} {path : String} :
    {branches : List Branch} → Branch.AllWellFormed options inPlural branches →
      ∀ x ∈ Branch.walkList path branches, ∃ inner, x.2.WellFormed options inner
  | [], _ => by simp [Branch.walkList]
  | .mk selector body span :: branches, h => by
    intro x hx
    rw [Branch.AllWellFormed] at h
    rw [Branch.walkList, List.mem_append] at hx
    rcases hx with hx | hx
    · exact Element.wellFormed_of_mem_walkList h.1 x hx
    · exact Branch.wellFormed_of_mem_walkList h.2 x hx

end

end Below

/-! ## Styles -/

theorem after?_colons_eq_none_iff {text : List Char} :
    Text.after? [':', ':'] text = none ↔ ∀ rest, text ≠ ':' :: ':' :: rest := by
  constructor
  · rintro h rest rfl
    simp [Text.after?] at h
  · intro h
    match text with
    | [] => rfl
    | [x] => simp [Text.after?]
    | x :: y :: rest =>
      simp only [Text.after?]
      split
      · next hx =>
        split
        · next hy => exact absurd (by rw [← hx, ← hy]) (h rest)
        · rfl
      · rfl

theorem tokens_ne_nil_of_numberPattern {options : Options} {skeleton : List Char} {span : Span}
    {pattern : NumberPattern} (h : Style.numberPatternOf options skeleton span = .ok pattern) :
    pattern.tokens ≠ [] := by
  rw [Style.numberPatternOf] at h
  split at h
  · cases h
  · split at h
    · cases h
    · next tokens htokens =>
      have hne := (NumberSkeleton.tokenize_eq_ok_iff.1 htokens).2.1
      split at h
      · split at h
        · cases h
        · cases h
          exact hne
      · cases h
        exact hne

/-- The style that a written one stands for is well formed if the skeletons are. -/
theorem styleOf_wellFormed {σ : Type} {patternOf : List Char → Span → Except Fault σ}
    {skeleton : σ → Prop} {text : Option (List Char × Span)} {style : Option (ArgumentStyle σ)}
    {c d : Cursor} (written : StyleWritten c d text)
    (value : Style.styleOf patternOf text = .ok style)
    (hskeleton : ∀ t span pattern, patternOf t span = .ok pattern → skeleton pattern) :
    ArgumentStyle.WellFormed skeleton style := by
  cases written with
  | absent =>
    cases value
    trivial
  | present comma ends scan nonempty =>
    rw [Style.styleOf] at value
    split at value
    · split at value
      · next pattern hpattern =>
        cases value
        exact hskeleton _ _ _ hpattern
      · cases value
    · next hnone =>
      cases value
      rw [ArgumentStyle.WellFormed, String.toList_ofList]
      exact ⟨nonempty, after?_colons_eq_none_iff.1 hnone,
        fun _ => Text.isWhiteSpace_getLast?_trimEnd⟩

/-! ## From the grammar -/

/-- The phrase is well formed. -/
def Phrase.WellFormed (options : Options) (inPlural : Bool) : Phrase → Prop
  | .message es => Element.AllWellFormed options inPlural es
  | .element e => e.WellFormed options inPlural
  | .branches choice list => Branch.AllWellFormed options choice.isPlural list ∧
      ∀ b ∈ list, IsSelector choice b.selector.toList

variable {options : Options} {c d : Cursor}

theorem NameWritten.isIdentifier {name : List Char} (h : NameWritten c name d) :
    IsIdentifier (String.ofList name).toList := by
  obtain ⟨before, after, -, -, isName, -⟩ := h
  rwa [String.toList_ofList]

theorem TypeWritten.isIdentifier {name word : List Char} (h : TypeWritten c name word d) :
    IsIdentifier (String.ofList name).toList := by
  obtain ⟨m, blanks, head, -, -⟩ := h
  exact head.isIdentifier

theorem wellFormed_of_written {depth : Nat} {frame : Frame} {x : Phrase}
    (h : Written options depth frame x c d) : x.WellFormed options frame.inPlural := by
  induction h with
  | nil => simp [Phrase.WellFormed, Element.AllWellFormed]
  | cons _ _ ihhead ihtail =>
    simp only [Phrase.WellFormed, Element.AllWellFormed] at ihtail ⊢
    exact ⟨ihhead, ihtail⟩
  | literal peek scan =>
    have hne := (Literal.scan_of_peek scan peek).1
    simpa [Phrase.WellFormed, Element.WellFormed] using hne
  | selfClosing => simp [Phrase.WellFormed, Element.WellFormed]
  | pound plural => simpa [Phrase.WellFormed, Element.WellFormed] using plural
  | argument head _ =>
    simp only [Phrase.WellFormed, Element.WellFormed]
    exact head.isIdentifier
  | number head written _ value =>
    simp only [Phrase.WellFormed, Element.WellFormed]
    exact ⟨head.isIdentifier, styleOf_wellFormed written value
      fun _ _ _ => tokens_ne_nil_of_numberPattern⟩
  | date head written _ value =>
    simp only [Phrase.WellFormed, Element.WellFormed]
    exact ⟨head.isIdentifier, styleOf_wellFormed written value fun _ _ _ _ => trivial⟩
  | time head written _ value =>
    simp only [Phrase.WellFormed, Element.WellFormed]
    exact ⟨head.isIdentifier, styleOf_wellFormed written value fun _ _ _ _ => trivial⟩
  | @choice _ _ choice _ _ list _ _ _ _ _ _ head _ _ _ nonempty distinct other _ ih =>
    obtain ⟨bodies, selectors⟩ := ih
    have selects : choice.Selects options list := ⟨nonempty, selectors, distinct, other⟩
    cases choice with
    | select =>
      simp only [Phrase.WellFormed, Choice.element, Element.WellFormed]
      exact ⟨head.isIdentifier, selects, bodies⟩
    | plural kind =>
      simp only [Phrase.WellFormed, Choice.element, Element.WellFormed]
      exact ⟨head.isIdentifier, selects, bodies⟩
  | tag tags opening _ _ ih =>
    obtain ⟨blanks, tagName, -, -⟩ := opening
    simp only [Phrase.WellFormed, Element.WellFormed, String.toList_ofList]
    exact ⟨tags, tagName, ih⟩
  | noBranch => simp [Phrase.WellFormed, Branch.AllWellFormed]
  | branch selects _ _ _ _ _ _ _ _ ihbody ihtail =>
    obtain ⟨bodies, selectors⟩ := ihtail
    constructor
    · simp only [Branch.AllWellFormed]
      exact ⟨ihbody, bodies⟩
    · intro b hb
      rcases List.mem_cons.1 hb with rfl | hb
      · rwa [Branch.selector, String.toList_ofList]
      · exact selectors b hb

/-- Every message that is read is well formed. -/
theorem parse_wellFormed {text : String} {m : Message} (h : parse options text = .ok m) :
    Element.AllWellFormed options false m.elements := by
  obtain ⟨d, written, -⟩ := written_of_parse h
  exact wellFormed_of_written written

theorem parse_wellFormed_nested : ∃ m,
    parse {} "{n, plural, =1 {<b>#</b>} other {{g, select, other {{n, number, ::percent}}}}}" =
      .ok m ∧ m.elements.length = 1 ∧ Element.AllWellFormed {} false m.elements := by
  obtain ⟨m, hparse, hlength⟩ := exists_parse_eq_ok {}
    "{n, plural, =1 {<b>#</b>} other {{g, select, other {{n, number, ::percent}}}}}"
    1 (by decide +kernel)
  exact ⟨m, hparse, hlength, parse_wellFormed hparse⟩

end MessageFormat
