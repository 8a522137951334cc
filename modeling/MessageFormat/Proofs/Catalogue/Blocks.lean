import Mathlib.Data.List.Basic
import MessageFormat.Proofs.Catalogue.Places

/-!
# Catalogues in parts

A blank line ends the entry that is open, and after it reading goes on as at the start of a file.
So a file of two parts with a blank line between them has the entries of the first part and then
those of the second, only that the lines of the second are further down in the file
(`parse_append_blank`).  That the first part may end with an open entry or with line feeds makes no
difference, as the end of a file ends an entry in the same way as a blank line.

The number of a line is clamped, and so is the number of a line further down.  In a file with fewer
than `2 ^ 32` lines no number is.
-/

namespace MessageFormat

namespace Catalogue

/-! ## Lines -/

/-- Up to a line feed a file has the lines of a message, with an empty one if nothing is left. -/
theorem lines_append (a b : List Char) :
    Text.lines (a ++ '\n' :: b) = messageLines a ++ Text.lines b := by
  have hsplit : (a ++ '\n' :: b).splitOnP (· == '\n') = messageLines a ++ messageLines b :=
    List.splitOnP_append_cons a b rfl
  have hne : messageLines b ≠ [] := List.splitOnP_ne_nil _ _
  have hlast := List.getLast?_append_of_ne_nil (messageLines a) hne
  have hfront : (messageLines a ++ messageLines b).dropLast =
      messageLines a ++ (messageLines b).dropLast := List.dropLast_append_of_ne_nil hne
  rw [Text.lines, hsplit, hlast, hfront, Text.lines, ← messageLines]
  split <;> rfl

theorem messageLines_eq_lines_or (text : List Char) :
    messageLines text = Text.lines text ∨ messageLines text = Text.lines text ++ [[]] := by
  rw [Text.lines, ← messageLines]
  split
  · next hlast =>
    obtain ⟨front, hfront⟩ := List.getLast?_eq_some_iff.1 hlast
    exact .inr (by rw [hfront, List.dropLast_concat])
  · exact .inl rfl

/-! ## Two parts of a file -/

/-- The entries of two parts of a file, or the first fault. -/
def joined (first second : Except SourceError (List Entry)) : Except SourceError (List Entry) := do
  return (← first) ++ (← second)

@[simp] theorem joined_error (e : SourceError) (second : Except SourceError (List Entry)) :
    joined (.error e) second = .error e := rfl

@[simp] theorem joined_ok_error (entries : List Entry) (e : SourceError) :
    joined (.ok entries) (.error e) = .error e := rfl

@[simp] theorem joined_ok_ok (entries more : List Entry) :
    joined (.ok entries) (.ok more) = .ok (entries ++ more) := rfl

theorem joined_nil (second : Except SourceError (List Entry)) :
    joined (.ok []) second = second := by
  cases second <;> rfl

theorem joined_assoc (first second third : Except SourceError (List Entry)) :
    joined (joined first second) third = joined first (joined second third) := by
  cases first with
  | error e => rfl
  | ok entries =>
    cases second with
    | error e => rfl
    | ok more => cases third <;> simp

/-- A blank line ends the open entry, any other line goes on with it. -/
theorem readLines_open (number : Nat) (entry : Entry) (line : List Char)
    (lines : List (List Char)) :
    readLines number (some entry) (line :: lines) =
      if Text.trimEnd line = [] then joined (.ok [entry]) (readLines (number + 1) none lines)
      else readLines (number + 1) (some (entry.continued (Text.trimEnd line))) lines := by
  rw [readLines]
  simp only [List.isEmpty_iff]
  split <;> rfl

/-- Between entries a line is skipped or starts an entry. -/
theorem readLines_between (number : Nat) (line : List Char) (lines : List (List Char)) :
    readLines number none (line :: lines) =
      if isSkipped (Text.trimEnd line) = true then readLines (number + 1) none lines
      else
        match startEntry (.ofNatClamp number) (Text.trimEnd line) with
        | .error e => .error e
        | .ok entry => readLines (number + 1) (some entry) lines := by
  rw [readLines]
  split
  · rfl
  · cases startEntry (.ofNatClamp number) (Text.trimEnd line) <;> rfl

/-- At a blank line reading starts anew. -/
theorem readLines_append_blank (number : Nat) (current : Option Entry)
    (lines more : List (List Char)) :
    readLines number current (lines ++ [] :: more) =
      joined (readLines number current lines)
        (readLines (number + lines.length + 1) none more) := by
  induction lines generalizing number current with
  | nil =>
    cases current with
    | none =>
      have hskip : isSkipped (Text.trimEnd []) = true := rfl
      rw [List.nil_append, readLines_between, if_pos hskip]
      exact (joined_nil _).symm
    | some entry =>
      have hblank : Text.trimEnd [] = [] := rfl
      rw [List.nil_append, readLines_open, if_pos hblank]
      rfl
  | cons line lines ih =>
    have hnumber : number + (line :: lines).length + 1 = number + 1 + lines.length + 1 := by
      rw [List.length_cons]
      omega
    rw [List.cons_append, hnumber]
    cases current with
    | none =>
      rw [readLines_between, readLines_between]
      split
      · exact ih (number + 1) none
      · cases startEntry (.ofNatClamp number) (Text.trimEnd line) with
        | error e => rfl
        | ok entry => exact ih (number + 1) (some entry)
    | some entry =>
      rw [readLines_open, readLines_open]
      split
      · rw [ih, joined_assoc]
      · exact ih (number + 1) _

/-- An empty line at the end of a file changes nothing. -/
theorem readLines_messageLines (number : Nat) (current : Option Entry) (text : List Char) :
    readLines number current (messageLines text) = readLines number current (Text.lines text) := by
  rcases messageLines_eq_lines_or text with h | h
  · rw [h]
  · rw [h, readLines_append_blank]
    cases readLines number current (Text.lines text) with
    | error e => rfl
    | ok entries => exact congrArg Except.ok (List.append_nil entries)

/-! ## Further down in a file -/

/-- A number, some lines further down. -/
def lineBelow (distance : Nat) (line : UInt32) : UInt32 := .ofNatClamp (line.toNat + distance)

/-- The entry, some lines further down. -/
def Entry.lowered (distance : Nat) (e : Entry) : Entry :=
  { e with line := lineBelow distance e.line }

/-- The error, some lines further down. -/
def SourceError.lowered (distance : Nat) (e : SourceError) : SourceError :=
  { e with line := lineBelow distance e.line }

theorem toNat_ofNatClamp (n : Nat) : (UInt32.ofNatClamp n).toNat = min n (UInt32.size - 1) := by
  have hsize : UInt32.size = 4294967296 := rfl
  by_cases h : n < UInt32.size
  · rw [UInt32.toNat_ofNatClamp_of_lt h]
    omega
  · rw [UInt32.toNat_ofNatClamp_of_le (by omega)]
    omega

/-- To clamp the number of a line before it is lowered makes no difference. -/
theorem lineBelow_ofNatClamp (distance n : Nat) :
    lineBelow distance (.ofNatClamp n) = .ofNatClamp (n + distance) := by
  rw [lineBelow, ← UInt32.toNat_inj, toNat_ofNatClamp, toNat_ofNatClamp, toNat_ofNatClamp]
  omega

theorem toNat_lineBelow {distance : Nat} {line : UInt32} (h : line.toNat + distance < UInt32.size) :
    (lineBelow distance line).toNat = line.toNat + distance :=
  UInt32.toNat_ofNatClamp_of_lt h

/-- What is read some lines further down. -/
def lowered (distance : Nat) :
    Except SourceError (List Entry) → Except SourceError (List Entry)
  | .error e => .error (e.lowered distance)
  | .ok entries => .ok (entries.map (Entry.lowered distance))

theorem lowered_joined (distance : Nat) (first second : Except SourceError (List Entry)) :
    lowered distance (joined first second) =
      joined (lowered distance first) (lowered distance second) := by
  cases first with
  | error e => rfl
  | ok entries =>
    cases second with
    | error e => rfl
    | ok more => simp [lowered]

/-- The number of a line counts for nothing but the place of what starts there. -/
theorem startEntry_add (number distance : Nat) (line : List Char) :
    startEntry (.ofNatClamp (number + distance)) line =
      match startEntry (.ofNatClamp number) line with
      | .error e => .error (e.lowered distance)
      | .ok entry => .ok (entry.lowered distance) := by
  rw [← lineBelow_ofNatClamp]
  unfold startEntry
  split
  · rfl
  · dsimp only
    split_ifs <;> rfl

theorem readLines_add (number distance : Nat) (current : Option Entry) (lines : List (List Char)) :
    readLines (number + distance) (current.map (Entry.lowered distance)) lines =
      lowered distance (readLines number current lines) := by
  induction lines generalizing number current with
  | nil => cases current <;> rfl
  | cons line lines ih =>
    have hnumber : number + distance + 1 = number + 1 + distance := Nat.add_right_comm ..
    cases current with
    | none =>
      rw [Option.map_none, readLines_between, readLines_between, hnumber, startEntry_add]
      split
      · exact ih (number + 1) none
      · cases startEntry (.ofNatClamp number) (Text.trimEnd line) with
        | error e => rfl
        | ok entry => exact ih (number + 1) (some entry)
    | some entry =>
      rw [Option.map_some, readLines_open, readLines_open, hnumber]
      split
      · have hrest : readLines (number + 1 + distance) none lines =
            lowered distance (readLines (number + 1) none lines) := ih (number + 1) none
        rw [lowered_joined, hrest]
        rfl
      · exact ih (number + 1) (some (entry.continued (Text.trimEnd line)))

/-! ## Files -/

/-- Every line that a result names is below the bound. -/
def LinesBelow (bound : Nat) : Except SourceError (List Entry) → Prop
  | .error e => e.line.toNat < bound
  | .ok entries => ∀ e ∈ entries, e.line.toNat < bound

/-- What starts on a line is placed there. -/
theorem line_startEntry (number : UInt32) (line : List Char) :
    match startEntry number line with
    | .error e => e.line = number
    | .ok entry => entry.line = number := by
  unfold startEntry
  cases Text.cutAt? '=' line with
  | none => rfl
  | some cut =>
    dsimp only
    split_ifs <;> rfl

theorem LinesBelow.joined {bound : Nat} {first second : Except SourceError (List Entry)}
    (hfirst : LinesBelow bound first) (hsecond : LinesBelow bound second) :
    LinesBelow bound (joined first second) := by
  cases first with
  | error e => exact hfirst
  | ok entries =>
    cases second with
    | error e => exact hsecond
    | ok more =>
      intro e he
      exact (List.mem_append.1 he).elim (hfirst e) (hsecond e)

/-- No line is named that has not been read. -/
theorem linesBelow_readLines (number : Nat) (current : Option Entry) (lines : List (List Char))
    (hcurrent : ∀ e, current = some e → e.line.toNat < number) :
    LinesBelow (number + lines.length) (readLines number current lines) := by
  induction lines generalizing number current with
  | nil =>
    cases current with
    | none => simp [readLines, LinesBelow]
    | some entry => simpa [readLines, LinesBelow] using hcurrent entry rfl
  | cons line lines ih =>
    have hnumber : number + (line :: lines).length = number + 1 + lines.length := by
      rw [List.length_cons]
      omega
    rw [hnumber]
    cases current with
    | none =>
      rw [readLines_between]
      split
      · exact ih (number + 1) none (by simp)
      · have hline := line_startEntry (.ofNatClamp number) (Text.trimEnd line)
        have hclamp := toNat_ofNatClamp number
        cases hstart : startEntry (.ofNatClamp number) (Text.trimEnd line) with
        | error e =>
          rw [hstart] at hline
          show e.line.toNat < _
          rw [hline]
          omega
        | ok entry =>
          rw [hstart] at hline
          refine ih (number + 1) (some entry) fun e he => ?_
          cases he
          rw [hline]
          omega
    | some entry =>
      have hentry := hcurrent entry rfl
      rw [readLines_open]
      split
      · have hopen : LinesBelow (number + 1 + lines.length) (.ok [entry]) := by
          simp only [LinesBelow, List.mem_singleton, forall_eq]
          omega
        exact hopen.joined (ih (number + 1) none (by simp))
      · refine ih (number + 1) _ fun e he => ?_
        cases he
        exact Nat.lt_succ_of_lt hentry

theorem lines_append_blank (a b : String) :
    Text.lines (a ++ "\n\n" ++ b).toList =
      messageLines a.toList ++ [] :: Text.lines b.toList := by
  have hblank : Text.lines ('\n' :: b.toList) = [] :: Text.lines b.toList :=
    lines_append [] b.toList
  rw [← hblank, ← lines_append]
  simp

/-- A file of two parts with a blank line between them. -/
theorem parse_append (a b : String) :
    parse (a ++ "\n\n" ++ b) =
      joined (parse a) (lowered (a.toList.count '\n' + 2) (parse b)) := by
  have hnumber : 1 + (messageLines a.toList).length + 1 = 1 + (a.toList.count '\n' + 2) := by
    rw [length_messageLines]
    omega
  have hrest := readLines_add 1 (a.toList.count '\n' + 2) none (Text.lines b.toList)
  rw [Option.map_none] at hrest
  rw [parse, lines_append_blank, readLines_append_blank, hnumber, hrest, readLines_messageLines]
  rfl

/-- In a file with fewer than `2 ^ 32` lines, no line of its second part is clamped. -/
theorem linesBelow_parse {a b : String}
    (few : (Text.lines (a ++ "\n\n" ++ b).toList).length < UInt32.size) :
    LinesBelow (UInt32.size - (a.toList.count '\n' + 2)) (parse b) := by
  have hbelow := linesBelow_readLines 1 none (Text.lines b.toList) (by simp)
  rw [lines_append_blank, List.length_append, List.length_cons, length_messageLines] at few
  have hbound : 1 + (Text.lines b.toList).length ≤ UInt32.size - (a.toList.count '\n' + 2) := by
    omega
  rw [← parse] at hbelow
  cases h : parse b with
  | error e =>
    rw [h] at hbelow
    exact Nat.lt_of_lt_of_le hbelow hbound
  | ok more =>
    rw [h] at hbelow
    exact fun e he => Nat.lt_of_lt_of_le (hbelow e he) hbound

/-- Two parts of a file with a blank line between them do not affect each other.  What is read from
the second part is further down by the lines of the first and the blank one, and if the file has
fewer than `2 ^ 32` lines it is so by exactly their number. -/
theorem parse_append_blank (a b : String) :
    (parse (a ++ "\n\n" ++ b) =
      match parse a, parse b with
      | .error e, _ => .error e
      | .ok _, .error e =>
        .error { e with line := lineBelow (a.toList.count '\n' + 2) e.line }
      | .ok entries, .ok more =>
        .ok (entries ++
          more.map fun e => { e with line := lineBelow (a.toList.count '\n' + 2) e.line })) ∧
    ((Text.lines (a ++ "\n\n" ++ b).toList).length < UInt32.size →
      match parse b with
      | .error e => (lineBelow (a.toList.count '\n' + 2) e.line).toNat =
          e.line.toNat + (a.toList.count '\n' + 2)
      | .ok more => ∀ e ∈ more, (lineBelow (a.toList.count '\n' + 2) e.line).toNat =
          e.line.toNat + (a.toList.count '\n' + 2)) := by
  constructor
  · rw [parse_append]
    cases parse a with
    | error e => rfl
    | ok entries => cases parse b <;> rfl
  · intro few
    have hbelow := linesBelow_parse few
    cases h : parse b with
    | error e =>
      rw [h] at hbelow
      have hlt : e.line.toNat < UInt32.size - (a.toList.count '\n' + 2) := hbelow
      exact toNat_lineBelow (by omega)
    | ok more =>
      rw [h] at hbelow
      intro e he
      have hlt : e.line.toNat < UInt32.size - (a.toList.count '\n' + 2) := hbelow e he
      exact toNat_lineBelow (by omega)

end Catalogue

end MessageFormat
