import Mathlib.Algebra.Group.Nat.Even
import MessageFormat.DateTimeFormat.Skeleton

/-!
# Why a date/time skeleton is refused

A date/time skeleton is refused because of one of its runs, for a field that is named twice, for a
quotation that is not closed, or for having no runs.  A refusal because of a run names its letter
(`Run.concerns_of_meaning`), so it cannot be taken for one of the others.

Whether the quotations of a skeleton are closed depends only on the number of its apostrophes
(`scan_closed_iff`).  Two of them inside a quotation are one apostrophe and not the end of one
quotation and the start of another, but as far as the number is concerned that is the same.
-/

namespace MessageFormat.DateTimeSkeleton

/-! ## Quotations -/

/-- A skeleton that begins inside a quotation if `quoted` closes all of them if the apostrophes,
with the one before it, are even in number. -/
theorem scan_closed_iff (quoted : Bool) (text : List Char) :
    (scan quoted text).2 = true ↔ Even (text.count '\'' + quoted.toNat) := by
  fun_induction scan quoted text with
  | case1 quoted => cases quoted <;> simp
  | case2 rest ih =>
    rw [ih]
    simp [Nat.even_add]
  | case3 rest _ ih =>
    rw [ih]
    simp [Nat.even_add_one]
  | case4 ch rest _ hch ih => rw [ih, List.count_cons_of_ne hch]
  | case5 ch rest hblank ih =>
    have hch : ch ≠ '\'' := by
      rintro rfl
      exact absurd hblank (by decide)
    rw [ih, List.count_cons_of_ne hch]
  | case6 rest _ ih =>
    rw [ih]
    simp
  | case7 ch rest _ hch runs closed hrest ih =>
    rw [hrest] at ih
    rw [List.count_cons_of_ne hch]
    exact ih

/-! ## Runs -/

/-- The refusal names the letter of the run, and its width if that is the reason. -/
def Fault.Concerns (r : Run) : Fault → Prop
  | .empty | .duplicateField _ | .unclosedQuote => False
  | .unknownField letter | .unsupportedField letter _ _ => letter = r.letter
  | .invalidWidth letter width least most =>
    letter = r.letter ∧ width = r.width ∧ ¬(least ≤ width ∧ width ≤ most)

namespace Run

variable {r : Run} {fault : Fault}

theorem concerns_of_within {least most : Nat} {field : Field} {update : Update}
    (h : r.within least most field update = .error fault) : fault.Concerns r := by
  unfold within at h
  split at h
  · cases h
  · next hwidth =>
    cases h
    exact ⟨rfl, rfl, hwidth⟩

theorem concerns_unsupported (letter : Char) (hletter : r.letter = letter) :
    (unsupported letter).Concerns r := by
  unfold unsupported
  split
  all_goals exact hletter.symm

/-- Every refusal of a run names its letter. -/
theorem concerns_of_meaning (h : r.meaning = .error fault) : fault.Concerns r := by
  unfold meaning at h
  split at h
  any_goals exact concerns_of_within h
  -- What is left are the two letters for a weekday that is not a number, and all other letters.
  · split at h
    · cases h
      rfl
    · exact concerns_of_within h
  · split at h
    · cases h
      rfl
    · exact concerns_of_within h
  · cases h
    exact concerns_unsupported r.letter rfl

end Run

/-! ## Skeletons -/

theorem applyRuns_cons {r : Run} {field : Field} {update : Update}
    (h : r.meaning = .ok (field, update)) (seen : List Field) (format : DateTimeFormat)
    (runs : List Run) :
    applyRuns seen format (r :: runs) =
      if field ∈ seen then .error (.duplicateField field)
      else applyRuns (field :: seen) (update format) runs := by
  rw [applyRuns, h]
  by_cases hseen : field ∈ seen
  · rw [if_pos hseen]
    exact if_pos hseen
  · rw [if_neg hseen]
    exact if_neg hseen

/-- A skeleton is refused because of its runs first, then for an open quotation, and last for
having no runs. -/
theorem parse_eq (skeleton : String) :
    parse skeleton =
      match applyRuns [] {} (runsOf skeleton).1 with
      | .error fault => .error fault
      | .ok format =>
        if (runsOf skeleton).2 = false then .error .unclosedQuote
        else if (runsOf skeleton).1 = [] then .error .empty
        else .ok format := by
  rw [parse]
  obtain ⟨runs, closed⟩ := runsOf skeleton
  dsimp only
  cases applyRuns [] {} runs with
  | error fault => rfl
  | ok format =>
    cases closed with
    | false => rfl
    | true => cases runs <;> rfl

theorem applyRuns_error {seen : List Field} {format : DateTimeFormat} {runs : List Run}
    {fault : Fault} (h : applyRuns seen format runs = .error fault) :
    (∃ r ∈ runs, fault.Concerns r) ∨ ∃ field, fault = .duplicateField field := by
  induction runs generalizing seen format with
  | nil => cases h
  | cons r runs ih =>
    cases hmeaning : r.meaning with
    | error fault' =>
      rw [applyRuns, hmeaning] at h
      cases h
      exact .inl ⟨r, List.mem_cons_self, Run.concerns_of_meaning hmeaning⟩
    | ok read =>
      obtain ⟨field, update⟩ := read
      rw [applyRuns_cons hmeaning] at h
      split at h
      · cases h
        exact .inr ⟨field, rfl⟩
      · rcases ih h with ⟨r', hmem, hconcerns⟩ | hduplicate
        · exact .inl ⟨r', List.mem_cons_of_mem r hmem, hconcerns⟩
        · exact .inr hduplicate

/-- Only an open quotation is reported as one. -/
theorem open_of_parse {skeleton : String} (h : parse skeleton = .error .unclosedQuote) :
    (runsOf skeleton).2 = false := by
  rw [parse_eq] at h
  cases happly : applyRuns [] {} (runsOf skeleton).1 with
  | error fault =>
    rw [happly] at h
    cases h
    rcases applyRuns_error happly with ⟨r, -, hconcerns⟩ | ⟨field, hfield⟩
    · exact hconcerns.elim
    · cases hfield
  | ok format =>
    rw [happly] at h
    dsimp only at h
    split at h
    · next hopen => exact hopen
    · split at h
      · cases h
      · cases h

end MessageFormat.DateTimeSkeleton
