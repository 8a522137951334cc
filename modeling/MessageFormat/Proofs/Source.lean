import MessageFormat.Proofs.Cursor

/-!
# Positions in a source

A position is carried along while a text is read.  Here it is shown to be the one that counting
gives: `Position.counted before` is computed from the text before it, and a cursor that has come
out of a source by reading (`Cursor.In`) stands at the position counted for what it has passed.

Counted positions wrap around as the carried ones do.  In a source that is short enough they are
the true ones (`Position.CountedIn.trueIn`).

With that, byte offsets and texts are the same thing.  `Stands source a b text` says that `text`
is what the source holds between the byte offsets `a` and `b`, and `Span.slice?` decides it
(`slice?_eq_some_iff`).
-/

namespace MessageFormat

/-- The number of bytes of a text. -/
def byteSize (text : List Char) : Nat := (String.ofList text).utf8ByteSize

/-- The text of the source between two byte offsets. -/
def Stands (source : String) (a b : Nat) (text : List Char) : Prop :=
  ∃ before after, source.toList = before ++ text ++ after ∧ a = byteSize before ∧
    b = byteSize (before ++ text)

/-! ## Bytes -/

@[simp] theorem byteSize_nil : byteSize [] = 0 := rfl

@[simp] theorem byteSize_append (s t : List Char) :
    byteSize (s ++ t) = byteSize s + byteSize t := by
  simp only [byteSize, String.ofList_append, String.utf8ByteSize_append]

@[simp] theorem byteSize_cons (ch : Char) (text : List Char) :
    byteSize (ch :: text) = ch.utf8Size + byteSize text := by
  have hone : byteSize [ch] = ch.utf8Size := by
    rw [byteSize, ← String.singleton_eq_ofList, String.utf8ByteSize_singleton]
  rw [← List.singleton_append, byteSize_append, hone]

theorem byteSize_toList (source : String) : byteSize source.toList = source.utf8ByteSize := by
  rw [byteSize, String.ofList_toList]

theorem byteSize_cons_pos (ch : Char) (text : List Char) : 0 < byteSize (ch :: text) := by
  have := ch.utf8Size_pos
  rw [byteSize_cons]
  omega

/-! ## Counting -/

namespace Position

/-- The line on which the text after `before` goes on: one more than it has line feeds. -/
def lineAfter (before : List Char) : Nat := 1 + before.count '\n'

/-- The column at which the text after `before` goes on: one more than it has characters after the
last line feed. -/
def columnAfter (before : List Char) : Nat :=
  1 + (before.reverse.takeWhile fun ch => ch ≠ '\n').length

/-- The position after a text, counted: its bytes, its line and its column. -/
def counted (before : List Char) : Position :=
  ⟨byteSize before, .ofNat (lineAfter before), .ofNat (columnAfter before)⟩

/-- One more character moves the counted position as it moves a cursor. -/
theorem advance_counted (before : List Char) (ch : Char) :
    (counted before).advance ch = counted (before ++ [ch]) := by
  by_cases hch : ch = '\n'
  · subst hch
    simp [advance, counted, lineAfter, columnAfter, UInt32.ofNat_add, UInt32.add_assoc]
  · simp [advance, counted, lineAfter, columnAfter, hch, UInt32.ofNat_add, UInt32.add_assoc]

theorem advanceAll_counted (before text : List Char) :
    (counted before).advanceAll text = counted (before ++ text) := by
  induction text generalizing before with
  | nil => simp
  | cons ch text ih =>
    rw [advanceAll_cons, advance_counted, ih, List.append_assoc]
    rfl

theorem advanceAll_start (text : List Char) : start.advanceAll text = counted text :=
  advanceAll_counted [] text

/-- A position of the source: on a boundary between two characters, or at one of its ends, and as
it is counted for the text before it. -/
def CountedIn (source : String) (p : Position) : Prop :=
  ∃ before after, source.toList = before ++ after ∧ p = counted before

/-- A position of the source with the line and the column that the text before it has. -/
def TrueIn (source : String) (p : Position) : Prop :=
  ∃ before after, source.toList = before ++ after ∧ p.offset = byteSize before ∧
    p.line.toNat = lineAfter before ∧ p.column.toNat = columnAfter before

theorem CountedIn.offset_le {source : String} {p : Position} (h : p.CountedIn source) :
    p.offset ≤ source.utf8ByteSize := by
  obtain ⟨before, after, hsource, rfl⟩ := h
  rw [← byteSize_toList, hsource, byteSize_append]
  exact Nat.le_add_right _ _

theorem lineAfter_le (before : List Char) : lineAfter before ≤ 1 + before.length :=
  Nat.add_le_add_left List.count_le_length 1

theorem columnAfter_le (before : List Char) : columnAfter before ≤ 1 + before.length := by
  have hle := (List.takeWhile_sublist (fun ch => ch ≠ '\n') (l := before.reverse)).length_le
  rw [List.length_reverse] at hle
  exact Nat.add_le_add_left hle 1

/-- After a text that is short enough neither the line nor the column has wrapped around. -/
theorem toNat_counted {before : List Char} (h : before.length < UInt32.size - 1) :
    (counted before).line.toNat = lineAfter before ∧
      (counted before).column.toNat = columnAfter before := by
  have hline := lineAfter_le before
  have hcolumn := columnAfter_le before
  exact ⟨UInt32.toNat_ofNat_of_lt' (by omega), UInt32.toNat_ofNat_of_lt' (by omega)⟩

theorem CountedIn.trueIn {source : String} {p : Position} (h : p.CountedIn source)
    (small : source.length < UInt32.size - 1) : p.TrueIn source := by
  obtain ⟨before, after, hsource, rfl⟩ := h
  have hlength : before.length < UInt32.size - 1 := by
    rw [← String.length_toList, hsource, List.length_append] at small
    omega
  obtain ⟨hline, hcolumn⟩ := toNat_counted hlength
  exact ⟨before, after, hsource, rfl, hline, hcolumn⟩

end Position

/-! ## Slices -/

theorem cutAtByte_append (s t : List Char) : cutAtByte (byteSize s) (s ++ t) = some (s, t) := by
  induction s with
  | nil =>
    rw [byteSize_nil, List.nil_append]
    cases t <;> rfl
  | cons ch s ih =>
    have hpos := ch.utf8Size_pos
    have hne : ch.utf8Size + byteSize s ≠ 0 := by omega
    obtain ⟨n, hn⟩ := Nat.exists_eq_succ_of_ne_zero hne
    have hsub : n + 1 - ch.utf8Size = byteSize s := by omega
    rw [byteSize_cons, hn, List.cons_append, cutAtByte, if_pos (by omega), hsub, ih]
    rfl

theorem cutAtByte_eq_some {n : Nat} {text s t : List Char} (h : cutAtByte n text = some (s, t)) :
    text = s ++ t ∧ n = byteSize s := by
  induction text generalizing n s with
  | nil =>
    cases n with
    | zero =>
      cases h
      exact ⟨rfl, rfl⟩
    | succ n => cases h
  | cons ch text ih =>
    cases n with
    | zero =>
      cases h
      exact ⟨rfl, rfl⟩
    | succ n =>
      rw [cutAtByte] at h
      split at h
      · next hle =>
        obtain ⟨⟨s', t'⟩, hcut, heq⟩ := Option.map_eq_some_iff.1 h
        cases heq
        obtain ⟨rfl, hn⟩ := ih hcut
        refine ⟨rfl, ?_⟩
        rw [byteSize_cons]
        omega
      · cases h

/-- A slice is the text that stands between the two offsets. -/
theorem slice?_eq_some_iff {s : Span} {source text : String} :
    s.slice? source = some text ↔ Stands source s.start.offset s.stop.offset text.toList := by
  constructor
  · intro h
    rw [Span.slice?] at h
    split at h
    · next hle =>
      simp only [bind, Option.bind_eq_some_iff] at h
      obtain ⟨⟨before, rest⟩, hbefore, ⟨covered, after⟩, hcovered, htext⟩ := h
      cases htext
      obtain ⟨hsource, hstart⟩ := cutAtByte_eq_some hbefore
      obtain ⟨rfl, hsize⟩ := cutAtByte_eq_some hcovered
      refine ⟨before, after, ?_, hstart, ?_⟩
      · rw [hsource, String.toList_ofList, List.append_assoc]
      · show s.stop.offset = byteSize (before ++ (String.ofList covered).toList)
        rw [Span.size] at hsize
        rw [String.toList_ofList, byteSize_append]
        omega
    · cases h
  · rintro ⟨before, after, hsource, hstart, hstop⟩
    rw [byteSize_append] at hstop
    have hsize : s.size = byteSize text.toList := by
      rw [Span.size]
      omega
    rw [Span.slice?, if_pos (by omega), hstart, hsource, hsize, List.append_assoc]
    simp [cutAtByte_append]

theorem Stands.le {source : String} {a b : Nat} {text : List Char} (h : Stands source a b text) :
    a ≤ b := by
  obtain ⟨before, after, -, rfl, rfl⟩ := h
  rw [byteSize_append]
  exact Nat.le_add_right _ _

/-! ## Cursors of a source -/

namespace Cursor

/-- The cursor has come out of the source by reading. -/
def In (source : String) (c : Cursor) : Prop :=
  ∃ before, source.toList = before ++ c.rest ∧ c.position = .counted before

variable {source : String} {c d : Cursor} {text : List Char}

theorem in_ofString (source : String) : In source (.ofString source) := ⟨[], rfl, rfl⟩

theorem In.reads (h : c.In source) (reads : c.Reads text d) : d.In source := by
  obtain ⟨before, hsource, hposition⟩ := h
  refine ⟨before ++ text, ?_, ?_⟩
  · rw [hsource, reads.1, List.append_assoc]
  · rw [reads.2, hposition, Position.advanceAll_counted]

theorem In.reaches (h : c.In source) (reaches : c.Reaches d) : d.In source := by
  obtain ⟨text, reads⟩ := reaches
  exact h.reads reads

theorem In.countedIn (h : c.In source) : c.position.CountedIn source := by
  obtain ⟨before, hsource, hposition⟩ := h
  exact ⟨before, c.rest, hsource, hposition⟩

/-- What is read from a cursor stands between the two offsets. -/
theorem In.stands (h : c.In source) (reads : c.Reads text d) :
    Stands source c.position.offset d.position.offset text := by
  obtain ⟨before, hsource, hposition⟩ := h
  refine ⟨before, d.rest, ?_, ?_, ?_⟩
  · rw [hsource, reads.1, List.append_assoc]
  · rw [hposition]
    rfl
  · rw [reads.2, hposition, Position.advanceAll_counted]
    rfl

/-- A cursor with nothing left stands at the end of the source. -/
theorem In.offset_eq (h : c.In source) (hrest : c.rest = []) :
    c.position.offset = source.utf8ByteSize := by
  obtain ⟨before, hsource, hposition⟩ := h
  rw [hrest, List.append_nil] at hsource
  rw [hposition, ← byteSize_toList, hsource]
  rfl

end Cursor

end MessageFormat
