import MessageFormat.Catalogue.Entry
import MessageFormat.Proofs.Source

/-!
# Where the messages of a catalogue stand

The message of an entry is not a part of its file.  Its lines are: each of them stands on a line
of the file, the first one after the key and each further one at the start of its line, and what
follows it there was cut off.  `Entry.StandsAt` says so, and every entry that is read from a file
has the property (`standsAt_of_parse`).  It is an invariant of reading line by line, where the
entry that is still open ends just before the next line.

From it follows what `Entry.filePosition` is for.  A position in a message, as it is counted while
the message is read, is taken to the place in the file where the same text stands
(`Entry.StandsAt.shownAt`).  This needs a file in which no line and no column is out of range, as
each of the four numbers involved has 32 bits.
-/

namespace MessageFormat

/-! ## Lines of a message -/

/-- The lines of a message: what lies before, between and after its line feeds. -/
def messageLines (text : List Char) : List (List Char) := text.splitOnP (· == '\n')

/-- What of a text comes after its last line feed. -/
def lastLine (text : List Char) : List Char := (text.reverse.takeWhile (· ≠ '\n')).reverse

theorem messageLines_nil : messageLines [] = [[]] := List.splitOnP_nil

theorem messageLines_newline (text : List Char) :
    messageLines ('\n' :: text) = [] :: messageLines text := by
  simp [messageLines, List.splitOnP_cons_eq_if_modifyHead]

theorem messageLines_cons {ch : Char} (h : ch ≠ '\n') (text : List Char) :
    messageLines (ch :: text) = (messageLines text).modifyHead (ch :: ·) := by
  simp [messageLines, List.splitOnP_cons_eq_if_modifyHead, h]

theorem newline_not_mem_messageLines {text line : List Char} (h : line ∈ messageLines text) :
    '\n' ∉ line := by
  intro hmem
  have hmark := (Text.mem_of_mem_splitOnP h '\n' hmem).2
  simp at hmark

theorem messageLines_of_not_mem {line : List Char} (h : '\n' ∉ line) :
    messageLines line = [line] := by
  apply List.splitOnP_eq_singleton
  intro ch hch
  have hne : ch ≠ '\n' := fun heq => h (heq ▸ hch)
  simpa using hne

/-- One more line. -/
theorem messageLines_append_line (text : List Char) {line : List Char} (h : '\n' ∉ line) :
    messageLines (text ++ '\n' :: line) = messageLines text ++ [line] := by
  rw [messageLines, List.splitOnP_append_cons _ _ (by simp), ← messageLines, ← messageLines,
    messageLines_of_not_mem h]

theorem takeWhile_append_newline (s t : List Char) :
    (s ++ '\n' :: t).takeWhile (· ≠ '\n') = s.takeWhile (· ≠ '\n') := by
  induction s with
  | nil => simp
  | cons ch s ih => by_cases hch : ch = '\n' <;> simp_all

theorem lastLine_newline (text : List Char) : lastLine ('\n' :: text) = lastLine text := by
  rw [lastLine, List.reverse_cons, takeWhile_append_newline, lastLine]

theorem lastLine_cons_of_mem (ch : Char) {text : List Char} (h : '\n' ∈ text) :
    lastLine (ch :: text) = lastLine text := by
  obtain ⟨s, t, hreverse⟩ := List.append_of_mem (List.mem_reverse.2 h)
  rw [lastLine, lastLine, List.reverse_cons, hreverse, List.append_assoc, List.cons_append,
    takeWhile_append_newline, takeWhile_append_newline]

theorem lastLine_of_not_mem {text : List Char} (h : '\n' ∉ text) : lastLine text = text := by
  have hall : ∀ ch ∈ text.reverse, ch ≠ '\n' := by
    intro ch hch
    rintro rfl
    exact h (List.mem_reverse.1 hch)
  rw [lastLine, ← List.append_nil text.reverse,
    List.takeWhile_append_of_pos (by simpa using hall)]
  simp

theorem getElem?_zero_messageLines (text : List Char) :
    (messageLines text)[0]? = some (text.takeWhile (· ≠ '\n')) := by
  induction text with
  | nil => rfl
  | cons ch text ih =>
    by_cases hch : ch = '\n'
    · simp [hch, messageLines_newline]
    · simp [messageLines_cons hch, List.getElem?_modifyHead, ih, hch]

/-- The line that a position stands on, as what is before the position and what is after it. -/
theorem getElem?_messageLines (before after : List Char) :
    (messageLines (before ++ after))[before.count '\n']? =
      some (lastLine before ++ after.takeWhile (· ≠ '\n')) := by
  induction before with
  | nil => exact getElem?_zero_messageLines after
  | cons ch before ih =>
    rw [List.cons_append]
    by_cases hch : ch = '\n'
    · subst hch
      rw [List.count_cons_self, messageLines_newline, List.getElem?_cons_succ, ih,
        lastLine_newline]
    rw [List.count_cons_of_ne hch, messageLines_cons hch, List.getElem?_modifyHead, ih]
    by_cases hmem : '\n' ∈ before
    · have hcount : before.count '\n' ≠ 0 := Nat.pos_iff_ne_zero.1 (List.count_pos_iff.2 hmem)
      rw [if_neg hcount, lastLine_cons_of_mem ch hmem]
    · have hmem' : '\n' ∉ ch :: before := by simp [hmem, Ne.symm hch]
      rw [if_pos (List.count_eq_zero.2 hmem), lastLine_of_not_mem hmem, lastLine_of_not_mem hmem']
      rfl

theorem Position.columnAfter_eq (text : List Char) :
    columnAfter text = (lastLine text).length + 1 := by
  rw [columnAfter, lastLine, List.length_reverse, Nat.add_comm]

theorem length_messageLines (text : List Char) :
    (messageLines text).length = text.count '\n' + 1 := by
  induction text with
  | nil => rfl
  | cons ch text ih =>
    by_cases hch : ch = '\n'
    · rw [hch, messageLines_newline, List.length_cons, ih, List.count_cons_self]
    · rw [messageLines_cons hch, List.length_modifyHead, ih, List.count_cons_of_ne hch]

/-- No line is longer than the text. -/
theorem length_le_of_mem_messageLines {text line : List Char} (h : line ∈ messageLines text) :
    line.length ≤ text.length := by
  induction text generalizing line with
  | nil => simp_all [messageLines_nil]
  | cons ch text ih =>
    by_cases hch : ch = '\n'
    · rw [hch, messageLines_newline, List.mem_cons] at h
      rcases h with rfl | h
      · exact Nat.zero_le _
      · exact Nat.le_succ_of_le (ih h)
    · rw [messageLines_cons hch] at h
      cases hlines : messageLines text with
      | nil => simp [hlines] at h
      | cons first others =>
        rw [hlines, List.modifyHead_cons, List.mem_cons] at h
        rw [hlines] at ih
        rcases h with rfl | h
        · exact Nat.succ_le_succ (ih List.mem_cons_self)
        · exact Nat.le_succ_of_le (ih (List.mem_cons_of_mem _ h))

namespace Catalogue

/-! ## Lines of a file -/

theorem lines_sublist (text : List Char) : (Text.lines text).Sublist (messageLines text) := by
  rw [Text.lines, ← messageLines]
  split
  · exact List.dropLast_sublist _
  · exact .refl _

theorem newline_not_mem_lines {text line : List Char} (h : line ∈ Text.lines text) :
    '\n' ∉ line :=
  newline_not_mem_messageLines ((lines_sublist text).subset h)

/-- A file is at least as long as the number of a line of it, less one, and as each line of it. -/
theorem le_of_getElem?_lines {text line : List Char} {n : Nat}
    (h : (Text.lines text)[n]? = some line) : n ≤ text.length ∧ line.length ≤ text.length := by
  obtain ⟨hn, -⟩ := List.getElem?_eq_some_iff.1 h
  have hlines := (lines_sublist text).length_le
  have hcount : text.count '\n' ≤ text.length := List.count_le_length
  rw [length_messageLines] at hlines
  refine ⟨by omega, ?_⟩
  exact length_le_of_mem_messageLines ((lines_sublist text).subset (List.mem_of_getElem? h))

/-- Trimming cuts something off. -/
theorem exists_trimEnd_append (text : List Char) : ∃ after, text = Text.trimEnd text ++ after := by
  refine ⟨(text.reverse.takeWhile isWhiteSpace).reverse, ?_⟩
  rw [Text.trimEnd, ← List.reverse_append, List.takeWhile_append_dropWhile, List.reverse_reverse]

theorem not_mem_trimEnd {c : Char} {text : List Char} (h : c ∉ text) : c ∉ Text.trimEnd text := by
  obtain ⟨after, hafter⟩ := exists_trimEnd_append text
  rw [hafter] at h
  exact fun hmem => h (List.mem_append_left _ hmem)

theorem exists_append_trimStart (text : List Char) :
    ∃ before, text = before ++ Text.trimStart text :=
  ⟨text.takeWhile isWhiteSpace, List.takeWhile_append_dropWhile.symm⟩

theorem eq_of_cutAt? {mark : Char} {text before after : List Char}
    (h : Text.cutAt? mark text = some (before, after)) : text = before ++ mark :: after := by
  induction text generalizing before with
  | nil => cases h
  | cons ch text ih =>
    rw [Text.cutAt?] at h
    split at h
    · next hch =>
      cases h
      rw [hch, List.nil_append]
    · obtain ⟨⟨before', after'⟩, hcut, heq⟩ := Option.map_eq_some_iff.1 h
      cases heq
      rw [ih hcut, List.cons_append]

/-! ## Entries in their file -/

theorem Entry.toList_value_continued (e : Entry) (line : List Char) :
    (e.continued line).value.toList = e.value.toList ++ '\n' :: line := by
  simp [Entry.continued]

/-- Each line of the message stands on a line of the file, the first of them on the one with the
given index, behind `indent` characters, and the others at the start of the next ones.  The line and
the column of the entry are those of the first character. -/
structure Entry.StandsAt (file : List (List Char)) (index indent : Nat) (e : Entry) : Prop where
  line : e.line = .ofNatClamp (index + 1)
  column : e.column = columnBehind indent
  lines : ∀ i line, (messageLines e.value.toList)[i]? = some line →
    ∃ before after, file[index + i]? = some (before ++ line ++ after) ∧
      before.length = if i = 0 then indent else 0

/-- What the first line of an entry is made of. -/
theorem eq_of_startEntry {number : UInt32} {line : List Char} {e : Entry}
    (h : startEntry number line = .ok e) :
    e.line = number ∧
      ∃ before, line = before ++ e.value.toList ∧ e.column = columnBehind before.length := by
  rw [startEntry] at h
  split at h
  · cases h
  · next before after hcut =>
    dsimp only at h
    split at h
    · cases h
    · split at h
      · cases h
        obtain ⟨blanks, hafter⟩ := exists_append_trimStart after
        refine ⟨rfl, before ++ '=' :: blanks, ?_, congrArg columnBehind ?_⟩
        · rw [String.toList_ofList, List.append_assoc, List.cons_append, ← hafter]
          exact eq_of_cutAt? hcut
        · have hlength := congrArg List.length (eq_of_cutAt? hcut)
          have hlength' := congrArg List.length hafter
          simp only [List.length_append, List.length_cons] at hlength hlength' ⊢
          omega
      · cases h

/-- The entry that is read from its first line stands there. -/
theorem standsAt_startEntry {file : List (List Char)} {n : Nat} {line : List Char} {e : Entry}
    (hline : file[n]? = some line) (free : '\n' ∉ line)
    (h : startEntry (.ofNatClamp (n + 1)) (Text.trimEnd line) = .ok e) :
    (∃ indent, e.StandsAt file n indent) ∧ (messageLines e.value.toList).length = 1 := by
  obtain ⟨hnumber, before, hbefore, hcolumn⟩ := eq_of_startEntry h
  obtain ⟨after, hafter⟩ := exists_trimEnd_append line
  rw [hbefore] at hafter
  have hfree : '\n' ∉ e.value.toList := by
    intro hmem
    exact free (by simp [hafter, hmem])
  have hlines := messageLines_of_not_mem hfree
  refine ⟨⟨before.length, hnumber, hcolumn, ?_⟩, by simp [hlines]⟩
  intro i found hfound
  rw [hlines, List.getElem?_singleton] at hfound
  split at hfound
  · next hi =>
    cases hfound
    refine ⟨before, after, ?_, ?_⟩
    · rw [hi, Nat.add_zero, ← hafter]
      exact hline
    · rw [if_pos hi]
  · cases hfound

/-- With each line that is added, the message goes on where it ended. -/
theorem standsAt_continued {file : List (List Char)} {index indent : Nat} {e : Entry}
    {line : List Char} (h : e.StandsAt file index indent)
    (hline : file[index + (messageLines e.value.toList).length]? = some line)
    (free : '\n' ∉ line) : (e.continued (Text.trimEnd line)).StandsAt file index indent ∧
      (messageLines (e.continued (Text.trimEnd line)).value.toList).length =
        (messageLines e.value.toList).length + 1 := by
  obtain ⟨after, hafter⟩ := exists_trimEnd_append line
  have hlines : messageLines (e.continued (Text.trimEnd line)).value.toList =
      messageLines e.value.toList ++ [Text.trimEnd line] := by
    rw [e.toList_value_continued, messageLines_append_line _ (not_mem_trimEnd free)]
  refine ⟨⟨h.line, h.column, ?_⟩, by simp [hlines]⟩
  intro i found hfound
  rw [hlines, List.getElem?_append] at hfound
  split at hfound
  · exact h.lines i found hfound
  · next hi =>
    rw [List.getElem?_singleton] at hfound
    split at hfound
    · next hzero =>
      cases hfound
      have hi' : i = (messageLines e.value.toList).length := by omega
      have hpos : 0 < (messageLines e.value.toList).length :=
        List.length_pos_iff.2 (List.splitOnP_ne_nil _ _)
      refine ⟨[], after, ?_, ?_⟩
      · rw [List.nil_append, ← hafter, hi']
        exact hline
      · rw [if_neg (by omega)]
        rfl
    · cases hfound

/-- What one line does: it ends the open entry, goes on with it, is skipped, or starts an entry. -/
theorem readLines_cons_cases {number : Nat} {current : Option Entry} {line : List Char}
    {lines : List (List Char)} {entries : List Entry}
    (h : readLines number current (line :: lines) = .ok entries) :
    (∃ entry rest, current = some entry ∧ Text.trimEnd line = [] ∧
      readLines (number + 1) none lines = .ok rest ∧ entries = entry :: rest) ∨
    (∃ entry, current = some entry ∧ Text.trimEnd line ≠ [] ∧
      readLines (number + 1) (some (entry.continued (Text.trimEnd line))) lines = .ok entries) ∨
    (current = none ∧ isSkipped (Text.trimEnd line) = true ∧
      readLines (number + 1) none lines = .ok entries) ∨
    (∃ entry, current = none ∧ isSkipped (Text.trimEnd line) = false ∧
      startEntry (.ofNatClamp number) (Text.trimEnd line) = .ok entry ∧
      readLines (number + 1) (some entry) lines = .ok entries) := by
  cases current with
  | some entry =>
    rw [readLines] at h
    by_cases hblank : Text.trimEnd line = []
    · cases hrest : readLines (number + 1) none lines with
      | error e =>
        simp [hblank, hrest, bind, Except.bind] at h
      | ok rest =>
        simp [hblank, hrest, bind, Except.bind, pure, Except.pure] at h
        exact .inl ⟨entry, rest, rfl, hblank, rfl, h.symm⟩
    · simp only [List.isEmpty_iff, hblank, if_false] at h
      exact .inr (.inl ⟨entry, rfl, hblank, h⟩)
  | none =>
    rw [readLines] at h
    by_cases hskipped : isSkipped (Text.trimEnd line) = true
    · simp only [hskipped, if_true] at h
      exact .inr (.inr (.inl ⟨rfl, hskipped, h⟩))
    · cases hentry : startEntry (.ofNatClamp number) (Text.trimEnd line) with
      | error e =>
        simp [hskipped, hentry, bind, Except.bind] at h
      | ok entry =>
        simp [hskipped, hentry, bind, Except.bind] at h
        exact .inr (.inr (.inr ⟨entry, rfl, by simpa using hskipped, rfl, h⟩))

/-- Reading goes through the lines of a file one by one.  An entry that is still open ends just
before the next line. -/
theorem standsAt_of_readLines {file : List (List Char)} (free : ∀ line ∈ file, '\n' ∉ line)
    {passed lines : List (List Char)} {current : Option Entry} {entries : List Entry}
    (hfile : file = passed ++ lines)
    (hcurrent : ∀ e, current = some e → ∃ index indent, e.StandsAt file index indent ∧
      index + (messageLines e.value.toList).length = passed.length)
    (h : readLines (passed.length + 1) current lines = .ok entries) :
    ∀ e ∈ entries, ∃ index indent, e.StandsAt file index indent := by
  induction lines generalizing passed current entries with
  | nil =>
    cases current with
    | none =>
      cases h
      simp
    | some e =>
      cases h
      obtain ⟨index, indent, stands, -⟩ := hcurrent e rfl
      simpa using ⟨index, indent, stands⟩
  | cons line lines ih =>
    have hnext : file = (passed ++ [line]) ++ lines := by rw [hfile, List.append_assoc]; rfl
    have hlength : (passed ++ [line]).length = passed.length + 1 := by simp
    have hline : file[passed.length]? = some line := by simp [hfile]
    have hfree : '\n' ∉ line := free line (by simp [hfile])
    rcases readLines_cons_cases h with ⟨entry, rest, rfl, -, hread, rfl⟩ | ⟨entry, rfl, -, hread⟩ |
      ⟨rfl, -, hread⟩ | ⟨entry, rfl, -, hstart, hread⟩
    · rw [← hlength] at hread
      obtain ⟨index, indent, stands, -⟩ := hcurrent entry rfl
      have hrest := ih hnext (by simp) hread
      simpa using ⟨⟨index, indent, stands⟩, hrest⟩
    · rw [← hlength] at hread
      obtain ⟨index, indent, stands, hends⟩ := hcurrent entry rfl
      rw [← hends] at hline
      obtain ⟨stands', hends'⟩ := standsAt_continued stands hline hfree
      refine ih hnext ?_ hread
      rintro e he
      cases he
      refine ⟨index, indent, stands', ?_⟩
      rw [hends', hlength, ← hends]
      rfl
    · rw [← hlength] at hread
      exact ih hnext (by simp) hread
    · rw [← hlength] at hread
      obtain ⟨⟨indent, stands⟩, hlines⟩ := standsAt_startEntry hline hfree hstart
      refine ih hnext ?_ hread
      rintro e he
      cases he
      exact ⟨passed.length, indent, stands, by rw [hlines, hlength]⟩

theorem standsAt_of_parse {text : String} {entries : List Entry} (h : parse text = .ok entries) :
    ∀ e ∈ entries, ∃ index indent, e.StandsAt (Text.lines text.toList) index indent :=
  standsAt_of_readLines (fun _ => newline_not_mem_lines) (List.nil_append _).symm (by simp) h

/-! ## Places -/

/-- The place in a file, a line and a column, is where the position `p` of the message is, in
front of the text `after`.  What is before the position on its line stands before the place, and
the character at the position stands at the place. -/
def Entry.ShownAt (e : Entry) (text : String) (p : Position) (after : List Char)
    (place : UInt32 × UInt32) : Prop :=
  ∃ line fileLine,
    (messageLines e.value.toList)[p.line.toNat - 1]? = some line ∧
    p.column.toNat - 1 ≤ line.length ∧
    1 ≤ place.1.toNat ∧ (Text.lines text.toList)[place.1.toNat - 1]? = some fileLine ∧
    1 ≤ place.2.toNat ∧ place.2.toNat - 1 ≤ fileLine.length ∧
    line.take (p.column.toNat - 1) <:+ fileLine.take (place.2.toNat - 1) ∧
    ∀ ch, after.head? = some ch → ch ≠ '\n' → fileLine[place.2.toNat - 1]? = some ch

/-- In a file that is short enough, the line and the column of an entry are not clamped. -/
theorem Entry.StandsAt.toNat_eq {text : String} {e : Entry} {index indent : Nat}
    (h : e.StandsAt (Text.lines text.toList) index indent) (small : text.length < UInt32.size - 1) :
    e.line.toNat = index + 1 ∧ e.column.toNat = indent + 1 := by
  obtain ⟨before, after, hfile, hbefore⟩ := h.lines 0 _ (getElem?_zero_messageLines _)
  obtain ⟨hindex, hlength⟩ := le_of_getElem?_lines hfile
  rw [List.length_append, List.length_append, hbefore, if_pos rfl] at hlength
  rw [String.length_toList] at hindex hlength
  rw [h.line, h.column, columnBehind]
  exact ⟨UInt32.toNat_ofNatClamp_of_lt (by omega), UInt32.toNat_ofNatClamp_of_lt (by omega)⟩

/-- Where the line and the column are in range, the sums are those of the numbers. -/
theorem Entry.toNat_filePosition {e : Entry} {line column : UInt32} {index indent i k : Nat}
    (hentry : e.line.toNat = index + 1 ∧ e.column.toNat = indent + 1)
    (hposition : line.toNat = i + 1 ∧ column.toNat = k + 1)
    (hline : index + i + 1 < UInt32.size)
    (hcolumn : (if i = 0 then indent else 0) + k + 1 < UInt32.size) :
    (e.filePosition line column).1.toNat = index + i + 1 ∧
      (e.filePosition line column).2.toNat = (if i = 0 then indent else 0) + k + 1 := by
  have hsize : UInt32.size = 4294967296 := rfl
  have hfirst : line ≤ 1 ↔ i = 0 := by
    rw [UInt32.le_iff_toNat_le, UInt32.toNat_one]
    omega
  rw [Entry.filePosition]
  by_cases hi : i = 0
  · rw [if_pos (hfirst.2 hi)]
    simp only [hi, if_true, UInt32.toNat_sub, UInt32.toNat_add, UInt32.toNat_one] at hcolumn ⊢
    omega
  · rw [if_neg (fun h => hi (hfirst.1 h))]
    simp only [hi, if_false, UInt32.toNat_sub, UInt32.toNat_add, UInt32.toNat_one] at hcolumn ⊢
    omega

/-- A position in a message is taken to the place where it is in the file, if the file is short
enough. -/
theorem Entry.StandsAt.shownAt {text : String} {e : Entry} {index indent : Nat}
    (h : e.StandsAt (Text.lines text.toList) index indent) (small : text.length < UInt32.size - 1)
    {before after : List Char} (hvalue : e.value.toList = before ++ after) {p : Position}
    (hp : p = Position.start.advanceAll before) :
    e.ShownAt text p after (e.filePosition p.line p.column) := by
  rw [Position.advanceAll_start] at hp
  have hfound := getElem?_messageLines before after
  rw [← hvalue] at hfound
  obtain ⟨pre, post, hfile, hpre⟩ := h.lines _ _ hfound
  have hsplit : pre ++ (lastLine before ++ after.takeWhile (· ≠ '\n')) ++ post =
      pre ++ lastLine before ++ (after.takeWhile (· ≠ '\n') ++ post) := by
    simp
  rw [hsplit] at hfile
  obtain ⟨hindex, hlength⟩ := le_of_getElem?_lines hfile
  rw [String.length_toList] at hindex hlength
  rw [List.length_append, List.length_append, hpre] at hlength
  -- Both numbers of the position and both of the place are bounded by the file.
  have hline : p.line.toNat = before.count '\n' + 1 := by
    rw [hp, Nat.add_comm]
    exact UInt32.toNat_ofNat_of_lt' (by rw [Position.lineAfter]; omega)
  have hcolumn : p.column.toNat = (lastLine before).length + 1 := by
    rw [hp, ← Position.columnAfter_eq]
    exact UInt32.toNat_ofNat_of_lt' (by rw [Position.columnAfter_eq]; omega)
  obtain ⟨hplace₁, hplace₂⟩ := Entry.toNat_filePosition (h.toNat_eq small) ⟨hline, hcolumn⟩
    (by omega) (by omega)
  rw [← hpre, ← List.length_append] at hplace₂
  rw [Entry.ShownAt, hline, hcolumn, hplace₁, hplace₂]
  simp only [Nat.add_sub_cancel]
  refine ⟨_, _, hfound, ?_, Nat.le_add_left _ _, hfile, Nat.le_add_left _ _, ?_, ?_, ?_⟩
  · simp
  · simp
  · rw [List.take_left, List.take_left]
    exact List.suffix_append _ _
  · intro ch hhead hch
    obtain ⟨tail, rfl⟩ := List.head?_eq_some_iff.1 hhead
    rw [List.getElem?_append_right (Nat.le_refl _), Nat.sub_self]
    simp [hch]

end Catalogue

end MessageFormat
