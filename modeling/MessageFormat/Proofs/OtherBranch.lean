import MessageFormat.Proofs.Comparison.Messages
import MessageFormat.Proofs.Grammar.Completeness

/-!
# The branch `other`

The options can require that every plural and select argument has a branch `other`.  The
requirement is a filter on trees.  A text whose tree has the branch everywhere
(`Element.offersOtherList`) is read as the same tree, a text whose tree lacks it somewhere is
refused for that, and a text that has no tree without the requirement has none with it.

That the tree stays the same is seen on the grammar, where the requirement is a condition of one
rule.  That nothing else goes wrong is seen by comparing the two runs: the one that requires the
branch may stop early, at any depth, and it is the only way in which they differ.
-/

namespace MessageFormat

/-! ## Trees that have the branch everywhere -/

/-- Whether one of the branches is `other`. -/
def Branch.hasOther (branches : List Branch) : Bool := branches.any fun b => b.selector == "other"

mutual

/-- Whether every plural and select argument in an element has a branch `other`. -/
def Element.offersOther : Element → Bool
  | .select _ branches _ => Branch.hasOther branches && Branch.offersOtherList branches
  | .plural _ _ _ branches _ => Branch.hasOther branches && Branch.offersOtherList branches
  | .tag _ children _ => Element.offersOtherList children
  | _ => true

/-- Whether every plural and select argument in a list of elements has a branch `other`. -/
def Element.offersOtherList : List Element → Bool
  | [] => true
  | e :: es => e.offersOther && Element.offersOtherList es

/-- Whether every plural and select argument in the bodies of branches has a branch `other`. -/
def Branch.offersOtherList : List Branch → Bool
  | [] => true
  | .mk _ body _ :: branches => Element.offersOtherList body && Branch.offersOtherList branches

end

/-- Whether every plural and select argument in a phrase has a branch `other`. -/
def Phrase.offersOther : Phrase → Bool
  | .message es => Element.offersOtherList es
  | .element e => e.offersOther
  | .branches _ list => Branch.offersOtherList list

theorem Branch.hasOther_iff {branches : List Branch} :
    hasOther branches = true ↔ ∃ b ∈ branches, b.selector = "other" := by
  simp [hasOther]

theorem Choice.offersOther_element (choice : Choice) (name : String) (offset : Nat)
    (branches : List Branch) (span : Option Span) :
    (choice.element name offset branches span).offersOther =
      (Branch.hasOther branches && Branch.offersOtherList branches) := by
  cases choice <;> simp [Choice.element, Element.offersOther]

/-! ## The requirement in the grammar -/

variable {options : Options} {depth : Nat} {frame : Frame} {x : Phrase} {c d : Cursor}

/-- What is written where the branch is required has it everywhere. -/
theorem offersOther_of_written (required : options.requiresOther = true)
    (h : Written options depth frame x c d) : x.offersOther = true := by
  induction h with
  | nil | noBranch => simp [Phrase.offersOther, Element.offersOtherList, Branch.offersOtherList]
  | literal | selfClosing | pound | argument | number | date | time =>
    simp [Phrase.offersOther, Element.offersOther]
  | cons _ _ ihhead ihtail =>
    simp only [Phrase.offersOther, Element.offersOtherList] at ihtail ⊢
    exact Bool.and_eq_true_iff.2 ⟨ihhead, ihtail⟩
  | choice _ _ _ _ _ _ other _ ih =>
    rw [Phrase.offersOther, Choice.offersOther_element]
    exact Bool.and_eq_true_iff.2 ⟨Branch.hasOther_iff.2 (other required), ih⟩
  | tag _ _ _ _ ih => simpa only [Phrase.offersOther, Element.offersOther] using ih
  | branch _ _ _ _ _ _ _ _ _ ihbody ihtail =>
    simp only [Phrase.offersOther, Branch.offersOtherList] at ihbody ihtail ⊢
    exact Bool.and_eq_true_iff.2 ⟨ihbody, ihtail⟩

/-- What has the branch everywhere is written alike whether the branch is required or not. -/
theorem written_of_offersOther (required : Bool) (h : Written options depth frame x c d)
    (offers : x.offersOther = true) :
    Written { options with requiresOther := required } depth frame x c d := by
  induction h with
  | nil stops => exact .nil stops
  | cons _ _ ihhead ihtail =>
    simp only [Phrase.offersOther, Element.offersOtherList, Bool.and_eq_true] at offers
    exact .cons (ihhead offers.1) (ihtail offers.2)
  | literal peek scan => exact .literal peek scan
  | selfClosing tags tagName blank reads => exact .selfClosing tags tagName blank reads
  | pound plural reads => exact .pound plural reads
  | argument head close => exact .argument head close
  | number head written close value => exact .number head written close value
  | date head written close value => exact .date head written close value
  | time head written close value => exact .time head written close value
  | choice head comma offset _ nonempty distinct _ close ih =>
    rw [Phrase.offersOther, Choice.offersOther_element, Bool.and_eq_true] at offers
    have other := Branch.hasOther_iff.1 offers.1
    exact .choice head comma offset (ih offers.2) nonempty distinct (fun _ => other) close
  | tag tags opening _ closing ih =>
    simp only [Phrase.offersOther, Element.offersOther] at offers
    exact .tag tags opening (ih offers) closing
  | noBranch => exact .noBranch
  | branch selects blank₁ head brace _ close blank₂ gap _ ihbody ihtail =>
    simp only [Phrase.offersOther, Branch.offersOtherList, Bool.and_eq_true] at offers
    exact .branch selects blank₁ head brace (ihbody offers.1) close blank₂ gap (ihtail offers.2)

/-! ## Two runs -/

/-- Reading without and with the requirement.  The second run may miss the branch. -/
def Comparison.requiringOther (options : Options) : Comparison where
  left := { options with requiresOther := false }
  right := { options with requiresOther := true }
  relabel := {}
  stray e := e.kind = .missingOtherClause
  accepts _ := True
  refuses _ _ := False
  ignoreTag := rfl
  spans _ := rfl
  number _ _ := Read.agree_refl (fun _ => rfl) fun _ _ _ => trivial
  dateTime _ _ := Read.agree_refl (fun _ => rfl) fun _ _ _ => trivial
  other := .inr ⟨rfl, fun _ => rfl⟩
  nesting := .inl rfl

theorem Comparison.kind_of_lost_requiringOther {l : List Skeleton} {e : ParseError}
    (h : (Comparison.requiringOther options).Lost l e) : e.kind = .missingOtherClause := by
  rcases h with hstray | ⟨_, _, _, _, _, hfalse⟩
  · exact hstray
  · exact hfalse.elim

/-- Requiring the branch `other` is a filter: it keeps the trees that have the branch everywhere
as they are, refuses the others for lacking it, and accepts no further text. -/
theorem parse_requiresOther (options : Options) (text : String) :
    match parse { options with requiresOther := false } text with
    | .ok m =>
      if Element.offersOtherList m.elements then
        parse { options with requiresOther := true } text = .ok m
      else ∃ e, parse { options with requiresOther := true } text = .error e ∧
        e.kind = .missingOtherClause
    | .error e => ∃ e', parse { options with requiresOther := true } text = .error e' ∧
        (e' = e ∨ e'.kind = .missingOtherClause) := by
  let k := Comparison.requiringOther options
  cases hfree : parse { options with requiresOther := false } text with
  | error e =>
    rcases k.parse_of_error hfree with hstrict | ⟨e', l, hstrict, lost⟩
    · exact ⟨e, hstrict, .inl rfl⟩
    · exact ⟨e', hstrict, .inr (Comparison.kind_of_lost_requiringOther lost)⟩
  | ok m =>
    dsimp only
    split
    · next offers =>
      obtain ⟨d, written, hspan⟩ := written_of_parse hfree
      have strict := written_of_offersOther true written offers
      exact parse_eq_ok_iff.2 ⟨d, strict, hspan⟩
    · next lacks =>
      rcases k.parse_of_ok hfree with ⟨hstrict, -⟩ | ⟨e, hstrict, lost⟩
      · -- Had the strict run given a tree, it would be this one, and it would have the branch.
        rw [show k.relabel = {} from rfl, Element.relabelList_id] at hstrict
        obtain ⟨d, written, -⟩ := written_of_parse hstrict
        exact absurd (offersOther_of_written rfl written) lacks
      · exact ⟨e, hstrict, Comparison.kind_of_lost_requiringOther lost⟩

end MessageFormat
