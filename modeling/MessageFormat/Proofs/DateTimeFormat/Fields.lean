import Mathlib.Data.List.Pairwise
import MessageFormat.Proofs.DateTimeFormat.Runs

/-!
# The fields of a date/time skeleton

A run names the field of its letter (`Field.letters`), if its width is in the range of that letter.
A list of runs can be read if each names a field and no two of them the same (`Acceptable`), and
then every part of the format comes from the run of one field (`formatOf`).  So the order of the
runs does not matter, nor what stands between them (`parse_runs`).

The hours are the field to look at twice.  All of its letters set the width and some of them also
the cycle, so that two runs of hours could leave the cycle of one with the width of the other; but
they are the same field, and a format never gets both.
-/

namespace MessageFormat.DateTimeSkeleton

/-! ## Letters -/

/-- The letters for a field, each with the least and the greatest width of its runs. -/
def Field.letters : Field → List (Char × Nat × Nat)
  | .era => [('G', 1, 5)]
  | .year => [('y', 1, 4)]
  | .month => [('M', 1, 5), ('L', 1, 5)]
  | .day => [('d', 1, 2)]
  | .weekday => [('E', 1, 6), ('e', 4, 6), ('c', 4, 6)]
  | .dayPeriod => [('a', 1, 5)]
  | .hour =>
    [('h', 1, 2), ('H', 1, 2), ('K', 1, 2), ('k', 1, 2), ('j', 1, 2), ('J', 1, 2), ('C', 1, 2)]
  | .minute => [('m', 1, 2)]
  | .second => [('s', 1, 2)]
  | .timeZone => [('z', 1, 4)]

/-- The run has a letter for the field, in a width that it may have. -/
def Run.Names (r : Run) (field : Field) : Prop :=
  ∃ range ∈ field.letters, r.letter = range.1 ∧ range.2.1 ≤ r.width ∧ r.width ≤ range.2.2

instance (r : Run) (field : Field) : Decidable (r.Names field) :=
  inferInstanceAs (Decidable (∃ range ∈ field.letters, _))

/-- The cycle that an hour letter fixes. -/
def cycleOf : Char → Option HourCycle
  | 'h' => some .h12
  | 'H' => some .h23
  | 'K' => some .h11
  | 'k' => some .h24
  | _ => none

/-- What a run of the field sets. -/
def Field.set (r : Run) : Field → Update
  | .era, f => { f with era := some (textual r.width) }
  | .year, f => { f with year := some (numeric r.width) }
  | .month, f => { f with month := some (monthly r.width) }
  | .day, f => { f with day := some (numeric r.width) }
  | .weekday, f => { f with weekday := some (textual r.width) }
  | .dayPeriod, f => { f with hour12 := some true }
  | .hour, f =>
    { f with
      hourCycle := (cycleOf r.letter).or f.hourCycle
      hour := some (numeric r.width) }
  | .minute, f => { f with minute := some (numeric r.width) }
  | .second, f => { f with second := some (numeric r.width) }
  | .timeZone, f => { f with timeZoneName := some (if r.width < 4 then .short else .long) }

namespace Run

/-- A run that is accepted within the range of its letter names the field of the letter. -/
theorem names_of_within {r : Run} {least most : Nat} {field field' : Field} {update : Update}
    (hmem : (r.letter, least, most) ∈ field.letters)
    (h : r.within least most field (field.set r) = .ok (field', update)) :
    r.Names field' ∧ update = field'.set r := by
  rw [within] at h
  split at h
  · next hwidth =>
    cases h
    exact ⟨⟨_, hmem, rfl, hwidth⟩, rfl⟩
  · cases h

/-- Every letter is read as the table says. -/
theorem meaning_eq_ok_iff {r : Run} {field : Field} {update : Update} :
    r.meaning = .ok (field, update) ↔ r.Names field ∧ update = field.set r := by
  obtain ⟨letter, width⟩ := r
  constructor
  · intro h
    unfold meaning at h
    split at h
    all_goals rename_i hletter
    any_goals
      obtain rfl : letter = _ := hletter
      exact names_of_within (by simp [Field.letters]) h
    -- What is left are the two letters for a weekday that is not a number, and all other letters.
    · obtain rfl : letter = _ := hletter
      split at h
      · cases h
      · exact names_of_within (by simp [Field.letters]) h
    · obtain rfl : letter = _ := hletter
      split at h
      · cases h
      · exact names_of_within (by simp [Field.letters]) h
    · cases h
  · rintro ⟨⟨range, hmem, hletter, hwidth⟩, rfl⟩
    obtain rfl : letter = range.1 := hletter
    dsimp only at hwidth
    cases field
    all_goals
      simp only [Field.letters, List.mem_cons, List.not_mem_nil, or_false] at hmem
      rcases hmem with rfl | rfl | rfl | rfl | rfl | rfl | rfl
      all_goals
        simp only [meaning, cycle, within, if_neg (Nat.not_lt.2 hwidth.1), if_pos hwidth]
        rfl

end Run

/-- No letter is for two fields. -/
theorem Field.eq_of_letter (field other : Field) :
    ∀ range ∈ field.letters, ∀ range' ∈ other.letters, range.1 = range'.1 → field = other := by
  cases field <;> cases other <;> decide

theorem Field.letters_valid (field : Field) :
    ∀ range ∈ field.letters, isWhiteSpace range.1 = false ∧ range.1 ≠ '\'' ∧ 1 ≤ range.2.1 := by
  cases field <;> decide

namespace Run

variable {r s : Run} {field other : Field}

theorem Names.eq_of_letter (h : r.Names field) (h' : s.Names other) (heq : r.letter = s.letter) :
    field = other := by
  obtain ⟨range, hmem, hletter, -⟩ := h
  obtain ⟨range', hmem', hletter', -⟩ := h'
  exact Field.eq_of_letter field other range hmem range' hmem' (by rw [← hletter, ← hletter', heq])

theorem Names.eq (h : r.Names field) (h' : r.Names other) : field = other :=
  h.eq_of_letter h' rfl

theorem Names.isLetter (h : r.Names field) : IsLetter r.letter := by
  obtain ⟨range, hmem, hletter, -⟩ := h
  obtain ⟨hblank, hquote, -⟩ := field.letters_valid range hmem
  exact ⟨hletter ▸ hblank, hletter ▸ hquote⟩

theorem Names.one_le_width (h : r.Names field) : 1 ≤ r.width := by
  obtain ⟨range, hmem, -, hwidth, -⟩ := h
  exact Nat.le_trans (field.letters_valid range hmem).2.2 hwidth

/-- No field is named by both runs. -/
def Apart (r s : Run) : Prop := ∀ field, r.Names field → ¬s.Names field

instance : Std.Symm Apart where
  symm _ _ h field hs hr := h field hr hs

end Run

/-! ## Formats -/

/-- The first run that names the field. -/
def runOf (field : Field) (runs : List Run) : Option Run := runs.find? fun r => r.Names field

/-- The format with every part taken from the run of its field. -/
def formatOf (runs : List Run) : DateTimeFormat where
  era := (runOf .era runs).map fun r => textual r.width
  year := (runOf .year runs).map fun r => numeric r.width
  month := (runOf .month runs).map fun r => monthly r.width
  day := (runOf .day runs).map fun r => numeric r.width
  weekday := (runOf .weekday runs).map fun r => textual r.width
  hour12 := (runOf .dayPeriod runs).map fun _ => true
  hourCycle := (runOf .hour runs).bind fun r => cycleOf r.letter
  hour := (runOf .hour runs).map fun r => numeric r.width
  minute := (runOf .minute runs).map fun r => numeric r.width
  second := (runOf .second runs).map fun r => numeric r.width
  timeZoneName := (runOf .timeZone runs).map fun r => if r.width < 4 then .short else .long

theorem runOf_eq_none_iff {field : Field} {runs : List Run} :
    runOf field runs = none ↔ ∀ r ∈ runs, ¬r.Names field := by
  simp [runOf]

theorem runOf_concat {field : Field} {r : Run} {runs : List Run} (h : r.Names field)
    (hnew : runOf field runs = none) (other : Field) :
    runOf other (runs ++ [r]) = if other = field then some r else runOf other runs := by
  unfold runOf at *
  rw [List.find?_append]
  split
  · next heq =>
    subst heq
    rw [hnew, List.find?_cons_of_pos (by simpa using h), Option.none_or]
  · next hne =>
    have hother : ¬r.Names other := fun hr => hne (hr.eq h)
    rw [List.find?_cons_of_neg (by simpa using hother), List.find?_nil, Option.or_none]

/-- One more run sets what its field is for and leaves the rest. -/
theorem formatOf_concat {field : Field} {r : Run} {runs : List Run} (h : r.Names field)
    (hnew : runOf field runs = none) :
    formatOf (runs ++ [r]) = field.set r (formatOf runs) := by
  have hconcat := runOf_concat h hnew
  cases field
  all_goals simp [formatOf, Field.set, hconcat, hnew]

theorem applyRuns_cons_eq_ok_iff {seen : List Field} {start format : DateTimeFormat} {r : Run}
    {runs : List Run} :
    applyRuns seen start (r :: runs) = .ok format ↔
      ∃ field, r.Names field ∧ field ∉ seen ∧
        applyRuns (field :: seen) (field.set r start) runs = .ok format := by
  constructor
  · intro h
    cases hmeaning : r.meaning with
    | error fault =>
      rw [applyRuns, hmeaning] at h
      cases h
    | ok read =>
      obtain ⟨field, update⟩ := read
      rw [applyRuns_cons hmeaning] at h
      obtain ⟨hnames, rfl⟩ := Run.meaning_eq_ok_iff.1 hmeaning
      split at h
      · cases h
      · next hseen => exact ⟨field, hnames, hseen, h⟩
  · rintro ⟨field, hnames, hseen, h⟩
    rw [applyRuns_cons (Run.meaning_eq_ok_iff.2 ⟨hnames, rfl⟩), if_neg hseen, h]

/-- Runs are accepted behind others if they name fields that are neither among those of the others
nor named twice. -/
theorem applyRuns_eq_ok_iff {seen : List Field} {passed runs : List Run} {format : DateTimeFormat}
    (hseen : ∀ field, field ∉ seen ↔ ∀ r ∈ passed, ¬r.Names field)
    (hpassed : passed.Pairwise Run.Apart) :
    applyRuns seen (formatOf passed) runs = .ok format ↔
      (∀ r ∈ runs, ∃ field, r.Names field) ∧ (passed ++ runs).Pairwise Run.Apart ∧
        format = formatOf (passed ++ runs) := by
  induction runs generalizing seen passed with
  | nil => simp [applyRuns, hpassed, eq_comm]
  | cons r runs ih =>
    have hassoc : passed ++ r :: runs = (passed ++ [r]) ++ runs := by simp
    -- Once the run is known to be of a new field, it is one of those passed.
    have hstep {field : Field} (hr : r.Names field) (hnew : field ∉ seen) :
        applyRuns (field :: seen) (field.set r (formatOf passed)) runs = .ok format ↔
          (∀ r ∈ runs, ∃ field, r.Names field) ∧ (passed ++ r :: runs).Pairwise Run.Apart ∧
            format = formatOf (passed ++ r :: runs) := by
      have hfresh := (hseen field).1 hnew
      rw [← formatOf_concat hr (runOf_eq_none_iff.2 hfresh), hassoc]
      refine ih (fun other => ?_) ?_
      · by_cases hother : other = field
        · subst hother
          simp [hr]
        · have hrother : ¬r.Names other := fun hr' => hother (hr'.eq hr)
          simp [hother, hseen other, or_imp, forall_and, hrother]
      · refine List.pairwise_append.2 ⟨hpassed, List.pairwise_singleton _ _, ?_⟩
        intro p hp s hs other hpother hrother
        rw [List.mem_singleton.1 hs] at hrother
        rw [hrother.eq hr] at hpother
        exact hfresh p hp hpother
    rw [applyRuns_cons_eq_ok_iff]
    constructor
    · rintro ⟨field, hr, hnew, h⟩
      obtain ⟨hnamed, hrest⟩ := (hstep hr hnew).1 h
      exact ⟨List.forall_mem_cons.2 ⟨⟨field, hr⟩, hnamed⟩, hrest⟩
    · rintro ⟨hnamed, hapart, hformat⟩
      obtain ⟨⟨field, hr⟩, hnamed⟩ := List.forall_mem_cons.1 hnamed
      have hnew : field ∉ seen := (hseen field).2 fun p hp hpfield =>
        (List.pairwise_append.1 hapart).2.2 p hp r List.mem_cons_self field hpfield hr
      exact ⟨field, hr, hnew, (hstep hr hnew).2 ⟨hnamed, hapart, hformat⟩⟩

/-- At least one run, each for a field, and no field twice. -/
structure Acceptable (runs : List Run) : Prop where
  ne_nil : runs ≠ []
  named : ∀ r ∈ runs, ∃ field, r.Names field
  apart : runs.Pairwise Run.Apart

theorem parse_eq_ok_iff_applyRuns {skeleton : String} {format : DateTimeFormat} :
    parse skeleton = .ok format ↔
      applyRuns [] {} (runsOf skeleton).1 = .ok format ∧ (runsOf skeleton).2 = true ∧
        (runsOf skeleton).1 ≠ [] := by
  rw [parse_eq]
  cases applyRuns [] {} (runsOf skeleton).1 with
  | error fault => simp
  | ok read =>
    dsimp only
    split_ifs with hopen hnil
    · simp [hopen]
    · simp [hnil]
    · simp [hopen, hnil]

theorem parse_eq_ok_iff {skeleton : String} {format : DateTimeFormat} :
    parse skeleton = .ok format ↔
      ∃ runs, RunsWritten runs skeleton.toList ∧ Acceptable runs ∧ format = formatOf runs := by
  have happly (runs : List Run) :
      applyRuns [] {} runs = .ok format ↔
        (∀ r ∈ runs, ∃ field, r.Names field) ∧ runs.Pairwise Run.Apart ∧
          format = formatOf runs :=
    @applyRuns_eq_ok_iff [] [] runs format (by simp) .nil
  rw [parse_eq_ok_iff_applyRuns, happly]
  constructor
  · rintro ⟨⟨hnamed, hapart, hformat⟩, hclosed, hne⟩
    exact ⟨_, scan_eq_iff.1 (Prod.ext rfl hclosed), ⟨hne, hnamed, hapart⟩, hformat⟩
  · rintro ⟨runs, hwritten, haccept, hformat⟩
    rw [runsOf, hwritten.scan_eq]
    exact ⟨⟨haccept.named, haccept.apart, hformat⟩, rfl, haccept.ne_nil⟩

/-! ## Order -/

/-- Of runs for different fields it does not matter which is the first. -/
theorem runOf_eq_some_iff {field : Field} {r : Run} {runs : List Run}
    (h : runs.Pairwise Run.Apart) : runOf field runs = some r ↔ r ∈ runs ∧ r.Names field := by
  constructor
  · intro hfind
    exact ⟨List.mem_of_find?_eq_some hfind, by simpa using List.find?_some hfind⟩
  · rintro ⟨hmem, hr⟩
    cases hfind : runOf field runs with
    | none => exact absurd hr (runOf_eq_none_iff.1 hfind r hmem)
    | some s =>
      have hs : s.Names field := by simpa using List.find?_some hfind
      by_contra hne
      exact h.forall (List.mem_of_find?_eq_some hfind) hmem (fun heq => hne (by rw [heq])) field
        hs hr

theorem runOf_perm {runs runs' : List Run} (hperm : runs.Perm runs')
    (h : runs.Pairwise Run.Apart) (field : Field) : runOf field runs = runOf field runs' := by
  ext r
  rw [runOf_eq_some_iff h, runOf_eq_some_iff (hperm.pairwise h (Std.Symm.symm _ _)), hperm.mem_iff]

theorem formatOf_perm {runs runs' : List Run} (hperm : runs.Perm runs')
    (h : runs.Pairwise Run.Apart) : formatOf runs = formatOf runs' := by
  simp only [formatOf, runOf_perm hperm h]

theorem Acceptable.perm {runs runs' : List Run} (h : Acceptable runs) (hperm : runs.Perm runs') :
    Acceptable runs' where
  ne_nil hnil := h.ne_nil (List.perm_nil.1 (hnil ▸ hperm))
  named r hr := h.named r (hperm.mem_iff.2 hr)
  apart := hperm.pairwise h.apart (Std.Symm.symm _ _)

/-! ## Writing runs -/

/-- Runs, each behind a gap, with one more gap behind all of them. -/
def written (last : List Char) : List (List Char × Run) → List Char
  | [] => last
  | (gap, r) :: placed => gap ++ (r.text ++ written last placed)

theorem IsGap.head?_append {gap rest : List Char} {c : Char} (h : IsGap gap) (hc : IsLetter c)
    (hhead : (gap ++ rest).head? = some c) : rest.head? = some c := by
  cases gap with
  | nil => exact hhead
  | cons d gap =>
    cases hhead
    exact absurd hc h.not_isLetter

/-- A letter at the start is that of the first run. -/
theorem head?_written {last : List Char} {placed : List (List Char × Run)} {c : Char}
    (hnamed : ∀ p ∈ placed, ∃ field, p.2.Names field) (hgaps : ∀ p ∈ placed, IsGap p.1)
    (hlast : IsGap last) (hc : IsLetter c) (h : (written last placed).head? = some c) :
    ∃ p ∈ placed, p.2.letter = c := by
  cases placed with
  | nil =>
    rw [written, ← List.append_nil last] at h
    cases hlast.head?_append hc h
  | cons p placed =>
    obtain ⟨field, hfield⟩ := hnamed p List.mem_cons_self
    have hhead := (hgaps p List.mem_cons_self).head?_append hc h
    rw [Run.head?_text hfield.one_le_width, Option.some.injEq] at hhead
    exact ⟨p, List.mem_cons_self, hhead⟩

/-- Runs for different fields stay what they are next to each other, as their letters differ. -/
theorem runsWritten_written {last : List Char} {placed : List (List Char × Run)}
    (hnamed : ∀ p ∈ placed, ∃ field, p.2.Names field)
    (hapart : placed.Pairwise fun p q => p.2.Apart q.2) (hgaps : ∀ p ∈ placed, IsGap p.1)
    (hlast : IsGap last) : RunsWritten (placed.map Prod.snd) (written last placed) := by
  induction placed with
  | nil => exact .gap hlast
  | cons p placed ih =>
    obtain ⟨⟨field, hfield⟩, hnamed⟩ := List.forall_mem_cons.1 hnamed
    obtain ⟨hfirst, hapart⟩ := List.pairwise_cons.1 hapart
    obtain ⟨hgap, hgaps⟩ := List.forall_mem_cons.1 hgaps
    refine .run hgap hfield.isLetter hfield.one_le_width (fun hnext => ?_)
      (ih hnamed hapart hgaps)
    obtain ⟨q, hq, hletter⟩ := head?_written hnamed hgaps hlast hfield.isLetter hnext
    obtain ⟨other, hother⟩ := hnamed q hq
    rw [hother.eq_of_letter hfield hletter] at hother
    exact hfirst q hq field hfield hother

/-- A skeleton is accepted if its quotations are closed and its runs, of which there is at least
one, are for different fields; and each part of the format comes from the run of its field.  Such
runs can be written in any order, with any gaps between and around them. -/
theorem parse_runs :
    (∀ skeleton format, parse skeleton = .ok format ↔
      ∃ runs, RunsWritten runs skeleton.toList ∧ Acceptable runs ∧ format = formatOf runs) ∧
    ∀ runs, Acceptable runs → ∀ placed last, (placed.map Prod.snd).Perm runs →
      (∀ p ∈ placed, IsGap p.1) → IsGap last →
        parse (String.ofList (written last placed)) = .ok (formatOf runs) := by
  refine ⟨fun skeleton format => parse_eq_ok_iff, ?_⟩
  intro runs haccept placed last hperm hgaps hlast
  have hplaced := haccept.perm hperm.symm
  refine parse_eq_ok_iff.2 ⟨_, ?_, hplaced, formatOf_perm hperm.symm haccept.apart⟩
  rw [String.toList_ofList]
  exact runsWritten_written (fun p hp => hplaced.named _ (List.mem_map_of_mem hp))
    (List.pairwise_map.1 hplaced.apart) hgaps hlast

/-- The last runs come first, and a quotation with an apostrophe in it stands between two runs. -/
theorem parse_runs_backwards :
    Acceptable [⟨'y', 4⟩, ⟨'h', 1⟩, ⟨'a', 1⟩] ∧
      parse "a'o''c'hyyyy " =
        .ok { year := some .numeric, hour12 := some true, hourCycle := some .h12,
              hour := some .numeric } := by
  have haccept : Acceptable [⟨'y', 4⟩, ⟨'h', 1⟩, ⟨'a', 1⟩] := by
    refine ⟨by decide, ?_, ?_⟩
    · rw [List.forall_mem_cons, List.forall_mem_cons, List.forall_mem_singleton]
      exact ⟨⟨.year, by decide⟩, ⟨.hour, by decide⟩, ⟨.dayPeriod, by decide⟩⟩
    · rw [List.pairwise_cons, List.pairwise_pair]
      refine ⟨List.forall_mem_cons.2 ⟨?_, List.forall_mem_singleton.2 ?_⟩, ?_⟩
      all_goals
        intro field
        cases field <;> decide
  have hgaps : ∀ p ∈ [([], ⟨'a', 1⟩), ("'o''c'".toList, ⟨'h', 1⟩), ([], (⟨'y', 4⟩ : Run))],
      IsGap p.1 := by
    rw [List.forall_mem_cons, List.forall_mem_cons, List.forall_mem_singleton]
    have hquoted : Quoted ['o', '\'', '\'', 'c'] :=
      .char (by decide) (.apostrophe (.char (by decide) .nil))
    exact ⟨.nil, .quotation hquoted .nil, .nil⟩
  have hparse := parse_runs.2 _ haccept _ [' '] (by decide) hgaps (.blank (by decide) .nil)
  exact ⟨haccept, hparse⟩

end MessageFormat.DateTimeSkeleton
