import MessageFormat.Proofs.DateTimeFormat.Refusals

/-!
# The runs of a date/time skeleton

A skeleton is a sequence of runs, with blanks and closed quotations between and around them.
`RunsWritten` is that grammar.  A run ends where another letter, a gap or the end of the skeleton
follows, so that a text is written in one way only.  Scanning finds the runs and reports that all
quotations are closed exactly for the texts of the grammar (`scan_eq_iff`).

Where a quotation ends is not unique in the grammar: two apostrophes in a row are an apostrophe
inside a quotation, or the end of one quotation and the start of another.  No run stands between
them in either case, and scanning does not tell the two apart (`scan_true_apostrophe`).
-/

namespace MessageFormat.DateTimeSkeleton

/-! ## The grammar -/

/-- What stands inside of a quotation, where an apostrophe is written twice. -/
inductive Quoted : List Char → Prop
  | nil : Quoted []
  | char {c : Char} {text : List Char} (hc : c ≠ '\'') (h : Quoted text) : Quoted (c :: text)
  | apostrophe {text : List Char} (h : Quoted text) : Quoted ('\'' :: '\'' :: text)

/-- Blanks and closed quotations. -/
inductive IsGap : List Char → Prop
  | nil : IsGap []
  | blank {c : Char} {text : List Char} (hc : isWhiteSpace c = true) (h : IsGap text) :
    IsGap (c :: text)
  | quotation {quoted text : List Char} (hquoted : Quoted quoted) (h : IsGap text) :
    IsGap ('\'' :: (quoted ++ '\'' :: text))

/-- What a run can be made of. -/
def IsLetter (c : Char) : Prop := isWhiteSpace c = false ∧ c ≠ '\''

/-- A run as it stands in a skeleton. -/
def Run.text (r : Run) : List Char := List.replicate r.width r.letter

theorem Run.head?_text {r : Run} (h : 1 ≤ r.width) (rest : List Char) :
    (r.text ++ rest).head? = some r.letter := by
  obtain ⟨n, hn⟩ : ∃ n, r.width = n + 1 := Nat.exists_eq_add_of_le' h
  rw [Run.text, hn]
  rfl

/-- The runs in a skeleton, in order and each as long as it can be. -/
inductive RunsWritten : List Run → List Char → Prop
  | gap {gap : List Char} (h : IsGap gap) : RunsWritten [] gap
  | run {gap rest : List Char} {r : Run} {runs : List Run} (hgap : IsGap gap)
    (hletter : IsLetter r.letter) (hwidth : 1 ≤ r.width) (hnext : rest.head? ≠ some r.letter)
    (hrest : RunsWritten runs rest) : RunsWritten (r :: runs) (gap ++ (r.text ++ rest))

/-! ## Scanning what is written -/

theorem scan_false_apostrophe (rest : List Char) : scan false ('\'' :: rest) = scan true rest := by
  rw [scan, if_neg (by decide), if_pos rfl]

/-- Behind an apostrophe inside of a quotation, scanning goes on as if it were outside. -/
theorem scan_true_apostrophe (rest : List Char) : scan true ('\'' :: rest) = scan false rest := by
  cases rest with
  | nil => rfl
  | cons c rest =>
    by_cases hc : c = '\''
    · rw [hc, scan, scan_false_apostrophe]
    · rw [scan]
      simpa using hc

theorem scan_true_char {c : Char} (hc : c ≠ '\'') (rest : List Char) :
    scan true (c :: rest) = scan true rest := by
  rw [scan]
  · exact fun _ heq => absurd heq hc
  · exact hc

theorem scan_false_blank {c : Char} (hc : isWhiteSpace c = true) (rest : List Char) :
    scan false (c :: rest) = scan false rest := by
  rw [scan, if_pos hc]

theorem scan_false_letter {c : Char} (hc : IsLetter c) (rest : List Char) :
    scan false (c :: rest) = (extend c rest.head? (scan false rest).1, (scan false rest).2) := by
  rw [scan, if_neg (by simp [hc.1]), if_neg hc.2]

theorem Quoted.scan_eq {quoted : List Char} (h : Quoted quoted) (rest : List Char) :
    scan true (quoted ++ '\'' :: rest) = scan false rest := by
  induction h with
  | nil => exact scan_true_apostrophe rest
  | char hc h ih => rw [List.cons_append, scan_true_char hc, ih]
  | apostrophe h ih => rw [List.cons_append, List.cons_append, scan, ih]

/-- Gaps are skipped. -/
theorem IsGap.scan_eq {gap : List Char} (h : IsGap gap) (rest : List Char) :
    scan false (gap ++ rest) = scan false rest := by
  induction h with
  | nil => rfl
  | blank hc h ih => rw [List.cons_append, scan_false_blank hc, ih]
  | quotation hquoted h ih =>
    rw [List.cons_append, List.append_assoc, List.cons_append, scan_false_apostrophe,
      hquoted.scan_eq, ih]

theorem extend_of_ne {c : Char} {next : Option Char} (h : next ≠ some c) (runs : List Run) :
    extend c next runs = ⟨c, 1⟩ :: runs := by
  cases runs with
  | nil => rfl
  | cons r runs => rw [extend, if_neg h]

/-- A run is found as a whole. -/
theorem scan_run {c : Char} (hc : IsLetter c) {rest : List Char} (hnext : rest.head? ≠ some c)
    (n : Nat) :
    scan false (List.replicate (n + 1) c ++ rest) =
      (⟨c, n + 1⟩ :: (scan false rest).1, (scan false rest).2) := by
  induction n with
  | zero =>
    rw [List.replicate_one, List.singleton_append, scan_false_letter hc, extend_of_ne hnext]
  | succ n ih =>
    have hhead : (List.replicate (n + 1) c ++ rest).head? = some c := rfl
    rw [List.replicate_succ, List.cons_append, scan_false_letter hc, ih, hhead, extend, if_pos rfl]

theorem RunsWritten.scan_eq {runs : List Run} {text : List Char} (h : RunsWritten runs text) :
    scan false text = (runs, true) := by
  induction h with
  | @gap gap h =>
    have hscan := h.scan_eq []
    rwa [List.append_nil] at hscan
  | @run gap rest r runs hgap hletter hwidth hnext hrest ih =>
    obtain ⟨n, hn⟩ : ∃ n, r.width = n + 1 := Nat.exists_eq_add_of_le' hwidth
    rw [hgap.scan_eq, Run.text, hn, scan_run hletter hnext, ih, ← hn]

/-! ## Writing what is scanned -/

theorem IsGap.not_isLetter {c : Char} {text : List Char} (h : IsGap (c :: text)) :
    ¬IsLetter c := by
  rintro ⟨hblank, hquote⟩
  cases h with
  | blank hc _ =>
    rw [hblank] at hc
    cases hc
  | quotation _ _ => exact hquote rfl

theorem RunsWritten.blank {c : Char} {runs : List Run} {text : List Char}
    (hc : isWhiteSpace c = true) (h : RunsWritten runs text) : RunsWritten runs (c :: text) := by
  cases h with
  | gap h => exact .gap (.blank hc h)
  | run hgap hletter hwidth hnext hrest => exact .run (.blank hc hgap) hletter hwidth hnext hrest

theorem RunsWritten.quotation {quoted text : List Char} {runs : List Run} (hquoted : Quoted quoted)
    (h : RunsWritten runs text) : RunsWritten runs ('\'' :: (quoted ++ '\'' :: text)) := by
  cases h with
  | gap h => exact .gap (.quotation hquoted h)
  | @run gap rest r runs hgap hletter hwidth hnext hrest =>
    have hwritten := RunsWritten.run (.quotation hquoted hgap) hletter hwidth hnext hrest
    rwa [List.cons_append, List.append_assoc, List.cons_append] at hwritten

/-- One more letter is a run of its own, or it makes the first run longer. -/
theorem RunsWritten.extend {c : Char} {runs : List Run} {text : List Char} (hc : IsLetter c)
    (h : RunsWritten runs text) : RunsWritten (extend c text.head? runs) (c :: text) := by
  by_cases hnext : text.head? = some c
  · cases h with
    | gap h =>
      obtain ⟨tail, rfl⟩ := List.head?_eq_some_iff.1 hnext
      exact absurd hc h.not_isLetter
    | @run gap rest r runs hgap hletter hwidth hend hrest =>
      cases gap with
      | nil =>
        rw [List.nil_append, Run.head?_text hwidth, Option.some.injEq] at hnext
        subst hnext
        have hlonger := RunsWritten.run .nil (r := ⟨r.letter, r.width + 1⟩) hc
          (Nat.le_add_left 1 _) hend hrest
        rwa [List.nil_append, Run.head?_text hwidth, DateTimeSkeleton.extend, if_pos rfl]
      | cons d gap =>
        cases hnext
        exact absurd hc hgap.not_isLetter
  · rw [extend_of_ne hnext]
    exact .run .nil hc (Nat.le_refl 1) hnext h

/-- What scanning a text says of how it is written, outside and inside of a quotation. -/
theorem written_of_scan (quoted : Bool) (text : List Char) (h : (scan quoted text).2 = true) :
    if quoted then ∃ inside rest, Quoted inside ∧ text = inside ++ '\'' :: rest ∧
      RunsWritten (scan quoted text).1 rest
    else RunsWritten (scan quoted text).1 text := by
  fun_induction scan quoted text with
  | case1 quoted =>
    cases quoted with
    | true => cases h
    | false => exact .gap .nil
  | case2 rest ih =>
    obtain ⟨inside, after, hinside, rfl, hafter⟩ := ih h
    exact ⟨_, after, .apostrophe hinside, rfl, hafter⟩
  | case3 rest _ ih => exact ⟨[], rest, .nil, rfl, ih h⟩
  | case4 c rest _ hc ih =>
    obtain ⟨inside, after, hinside, rfl, hafter⟩ := ih h
    exact ⟨_, after, .char hc hinside, rfl, hafter⟩
  | case5 c rest hblank ih => exact (ih h).blank hblank
  | case6 rest _ ih =>
    obtain ⟨inside, after, hinside, rfl, hafter⟩ := ih h
    exact .quotation hinside hafter
  | case7 c rest hblank hc runs closed hscan ih =>
    rw [hscan] at ih
    exact (ih h).extend ⟨by simpa using hblank, hc⟩

theorem scan_eq_iff {text : List Char} {runs : List Run} :
    scan false text = (runs, true) ↔ RunsWritten runs text := by
  refine ⟨fun h => ?_, RunsWritten.scan_eq⟩
  have hwritten := written_of_scan false text (by rw [h])
  rwa [h] at hwritten

end MessageFormat.DateTimeSkeleton
