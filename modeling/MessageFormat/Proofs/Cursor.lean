import MessageFormat.Cursor

/-!
# Reading with a cursor

`c.Reads text d` says that the characters of `text` lead from the cursor `c` to the cursor `d`:
they are what `c` has in front of it and `d` has not, and the position of `d` is the one reached
by passing them.  It is the one relation in which the operations of `Cursor` are described here.
None of them does anything else, so what is read in several steps is the concatenation of what
is read in each.

A maximal stretch of characters of one class, as `Cursor.takeWhile` reads it, is a `Cursor.Run`.
It is determined by where it starts, and every cursor starts one, possibly empty.
-/

namespace MessageFormat

namespace Cursor

/-- The characters of `text` lead from `c` to `d`. -/
def Reads (c : Cursor) (text : List Char) (d : Cursor) : Prop :=
  c.rest = text ++ d.rest ∧ d.position = c.position.advanceAll text

/-- Some text leads from `c` to `d`. -/
def Reaches (c d : Cursor) : Prop := ∃ text, c.Reads text d

/-- No character of the class comes next. -/
def Ends (test : Char → Bool) (c : Cursor) : Prop :=
  ∀ ch, c.current? = some ch → test ch = false

/-- `text` is the longest stretch of characters of the class in front of `c`, and `d` comes
after it. -/
structure Run (test : Char → Bool) (c : Cursor) (text : List Char) (d : Cursor) : Prop where
  reads : c.Reads text d
  all : ∀ ch ∈ text, test ch = true
  ends : d.Ends test

/-! ## Composing what is read -/

namespace Reads

variable {c d e : Cursor} {s t : List Char}

theorem refl (c : Cursor) : c.Reads [] c := ⟨rfl, rfl⟩

theorem append (hs : c.Reads s d) (ht : d.Reads t e) : c.Reads (s ++ t) e := by
  constructor
  · rw [hs.1, ht.1, List.append_assoc]
  · rw [ht.2, hs.2, Position.advanceAll_append]

/-- What is read in one go can be read in two. -/
theorem split (h : c.Reads (s ++ t) e) : ∃ d, c.Reads s d ∧ d.Reads t e := by
  refine ⟨⟨t ++ e.rest, c.position.advanceAll s⟩, ⟨?_, rfl⟩, rfl, ?_⟩
  · rw [h.1, List.append_assoc]
  · rw [h.2, Position.advanceAll_append]

theorem unique (hd : c.Reads t d) (he : c.Reads t e) : d = e := by
  have hrest : d.rest = e.rest := List.append_cancel_left (hd.1.symm.trans he.1)
  have hposition : d.position = e.position := hd.2.trans he.2.symm
  cases d
  cases e
  cases hrest
  cases hposition
  rfl

theorem eq_of_nil (h : c.Reads [] d) : c = d := (refl c).unique h

/-- Reading at least one character leaves less to read. -/
theorem length_lt {ch : Char} (h : c.Reads (ch :: t) d) : d.rest.length < c.rest.length := by
  rw [h.1, List.length_append, List.length_cons]
  omega

theorem length_eq (h : c.Reads t d) : c.rest.length = t.length + d.rest.length := by
  rw [h.1, List.length_append]

theorem current?_eq {ch : Char} (h : c.Reads (ch :: t) d) : c.current? = some ch := by
  rw [current?, h.1]
  rfl

theorem ends {test : Char → Bool} {ch : Char} (h : c.Reads (ch :: t) d)
    (hch : test ch = false) : c.Ends test := by
  intro x hx
  rw [h.current?_eq] at hx
  cases hx
  exact hch

/-- A class that holds neither the characters of `s` nor the one after them ends before them. -/
theorem ends_append {test : Char → Bool} {ch : Char} (h : c.Reads (s ++ ch :: t) d)
    (hs : ∀ x ∈ s, test x = false) (hch : test ch = false) : c.Ends test := by
  cases s with
  | nil => exact ends h hch
  | cons x s => exact ends h (hs x (by simp))

theorem reaches (h : c.Reads t d) : c.Reaches d := ⟨t, h⟩

end Reads

namespace Reaches

variable {c d e : Cursor}

theorem refl (c : Cursor) : c.Reaches c := ⟨[], .refl c⟩

theorem trans : c.Reaches d → d.Reaches e → c.Reaches e := by
  rintro ⟨s, hs⟩ ⟨t, ht⟩
  exact ⟨s ++ t, hs.append ht⟩

theorem length_le : c.Reaches d → d.rest.length ≤ c.rest.length := by
  rintro ⟨t, ht⟩
  have := ht.length_eq
  omega

end Reaches

/-! ## One character -/

theorem reads_next {c : Cursor} {ch : Char} (h : c.current? = some ch) :
    c.Reads [ch] c.next := by
  obtain ⟨rest, p⟩ := c
  cases rest with
  | nil => simp [current?] at h
  | cons x rest =>
    simp only [current?, List.head?_cons, Option.some.injEq] at h
    subst h
    exact ⟨rfl, rfl⟩

theorem Reads.next_eq {c d : Cursor} {ch : Char} (h : c.Reads [ch] d) : c.next = d :=
  (reads_next h.current?_eq).unique h

theorem current?_eq_none_iff {c : Cursor} : c.current? = none ↔ c.rest = [] := by
  rw [current?, List.head?_eq_none_iff]

theorem isAtEnd_iff {c : Cursor} : c.isAtEnd = true ↔ c.rest = [] := by
  rw [isAtEnd, List.isEmpty_iff]

theorem ends_of_rest_nil {test : Char → Bool} {c : Cursor} (h : c.rest = []) :
    c.Ends test := by
  intro ch hch
  rw [current?_eq_none_iff.2 h] at hch
  cases hch

/-! ## A given text -/

theorem accept?_eq_some_iff {c d : Cursor} {text : List Char} :
    c.accept? text = some d ↔ c.Reads text d := by
  induction text generalizing c with
  | nil =>
    constructor
    · intro h
      cases h
      exact .refl _
    · intro h
      rw [accept?, h.eq_of_nil]
  | cons ch text ih =>
    rw [accept?]
    constructor
    · intro h
      split at h
      · next hch => exact (reads_next hch).append (ih.1 h)
      · cases h
    · intro h
      obtain ⟨m, hm, htext⟩ := Reads.split (s := [ch]) (t := text) h
      rw [if_pos hm.current?_eq, hm.next_eq]
      exact ih.2 htext

theorem Reads.accept? {c d : Cursor} {text : List Char} (h : c.Reads text d) :
    c.accept? text = some d :=
  accept?_eq_some_iff.2 h

/-- A character that does not come next is not accepted. -/
theorem accept?_eq_none {c : Cursor} {ch : Char} {text : List Char}
    (h : c.current? ≠ some ch) : c.accept? (ch :: text) = none := by
  rw [Cursor.accept?, if_neg h]

theorem current?_ne_of_accept? {c : Cursor} {ch : Char} (h : c.accept? [ch] = none) :
    c.current? ≠ some ch := by
  intro hch
  rw [(reads_next hch).accept?] at h
  cases h

/-! ## Runs -/

theorem takeWhileFrom_run (test : Char → Bool) (rest : List Char) (p : Position) :
    Run test ⟨rest, p⟩ (takeWhileFrom test rest p).1 (takeWhileFrom test rest p).2 := by
  induction rest generalizing p with
  | nil =>
    refine ⟨.refl _, by simp [takeWhileFrom], ?_⟩
    exact ends_of_rest_nil rfl
  | cons ch rest ih =>
    rw [takeWhileFrom]
    by_cases hch : test ch = true
    · simp only [hch, if_true]
      obtain ⟨reads, all, ends⟩ := ih (p.advance ch)
      refine ⟨⟨by rw [List.cons_append, ← reads.1], by rw [reads.2]; rfl⟩, ?_, ends⟩
      intro x hx
      rcases List.mem_cons.1 hx with rfl | hx
      · exact hch
      · exact all x hx
    · simp only [hch]
      refine ⟨.refl _, by simp, ?_⟩
      intro x hx
      cases hx
      exact Bool.eq_false_iff.2 hch

theorem takeWhile_run (test : Char → Bool) (c : Cursor) :
    c.Run test (c.takeWhile test).1 (c.takeWhile test).2 :=
  takeWhileFrom_run test c.rest c.position

/-- Every cursor starts a run. -/
theorem exists_run (test : Char → Bool) (c : Cursor) : ∃ text d, c.Run test text d :=
  ⟨_, _, takeWhile_run test c⟩

/-- What a run takes is read off the characters ahead. -/
theorem Run.eq_takeWhile {test : Char → Bool} {c d : Cursor} {text : List Char}
    (h : c.Run test text d) : text = c.rest.takeWhile test := by
  have hd : d.rest.takeWhile test = [] := by
    cases hrest : d.rest with
    | nil => rfl
    | cons ch rest =>
      have hch : test ch = false := h.ends ch (by rw [current?, hrest]; rfl)
      rw [List.takeWhile_cons_of_neg (by simp [hch])]
  rw [h.reads.1, List.takeWhile_append_of_pos h.all, hd, List.append_nil]

theorem Run.unique {test : Char → Bool} {c d e : Cursor} {s t : List Char}
    (hs : c.Run test s d) (ht : c.Run test t e) : s = t ∧ d = e := by
  have hst : s = t := hs.eq_takeWhile.trans ht.eq_takeWhile.symm
  subst hst
  exact ⟨rfl, hs.reads.unique ht.reads⟩

theorem Run.takeWhile_eq {test : Char → Bool} {c d : Cursor} {text : List Char}
    (h : c.Run test text d) : c.takeWhile test = (text, d) := by
  obtain ⟨htext, hd⟩ := (takeWhile_run test c).unique h
  rw [← htext, ← hd]

theorem Run.skipBlanks_eq {c d : Cursor} {text : List Char}
    (h : c.Run isPatternWhiteSpace text d) : c.skipBlanks = d := by
  rw [skipBlanks, h.takeWhile_eq]

/-- A cursor that no character of the class follows starts the empty run. -/
theorem Ends.run {test : Char → Bool} {c : Cursor} (h : c.Ends test) : c.Run test [] c :=
  ⟨.refl c, by simp, h⟩

/-- Nothing more can be read where a run has ended. -/
theorem Ends.eq_nil {test : Char → Bool} {c d : Cursor} {text : List Char} (h : c.Ends test)
    (hd : c.Run test text d) : text = [] ∧ d = c :=
  hd.unique h.run

end Cursor

end MessageFormat
