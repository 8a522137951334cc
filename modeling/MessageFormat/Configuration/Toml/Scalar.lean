import MessageFormat.Decimal.Numeral
import MessageFormat.Json.Reader

/-!
# The scalars of TOML

Texts and integers, as `Toml.Document` finds them.  A text stands in double quotes, where a
backslash escapes, or in apostrophes, where nothing does; three marks instead of one make it
run over several lines.  All line ends are line feeds here.
-/

namespace MessageFormat.Toml

/-! ## Characters -/

/-- Blanks within a line. -/
def isBlank (c : Char) : Bool := c = ' ' || c = '\t'

/-- Characters that may stand in a comment or a text: all but control characters, of which a
tab is allowed. -/
def isPrintable (c : Char) : Bool := c = '\t' || (decide (0x20 ≤ c.toNat) && c.toNat != 0x7F)

/-- The character that a number stands for, unless it is half of a surrogate pair. -/
def charOf? (n : Nat) : Option Char :=
  if n < 0xD800 ∨ (0xE000 ≤ n ∧ n < 0x110000) then some (Char.ofNat n) else none

/-! ## Escapes -/

/-- What a backslash and one character stand for. -/
def unescape? (c : Char) : Option Char :=
  if c = '"' || c = '\\' then some c
  else if c = 'b' then some '\x08'
  else if c = 't' then some '\t'
  else if c = 'n' then some '\n'
  else if c = 'f' then some '\x0c'
  else if c = 'r' then some '\r'
  else none

/-- What the characters after a backslash stand for, and how many of them belong to it. -/
def escape? : List Char → Option (Char × Nat)
  | 'u' :: a :: b :: c :: d :: _ => do
    return (← charOf? (← Json.hex4? a b c d), 5)
  | 'U' :: a :: b :: c :: d :: e :: f :: g :: h :: _ => do
    return (← charOf? (65536 * (← Json.hex4? a b c d) + (← Json.hex4? e f g h)), 9)
  | c :: _ => (unescape? c).map fun c => (c, 1)
  | [] => none

/-- How much a backslash at the end of a line hides: the rest of the line and all blanks and
line feeds after it. -/
def hidden? (text : List Char) : Option Nat :=
  if (text.dropWhile isBlank).head? = some '\n' then
    some (text.takeWhile fun c => isBlank c || c = '\n').length
  else none

/-! ## Texts -/

/-- How a text is quoted. -/
structure Quoting where
  mark : Char
  escapes : Bool
deriving DecidableEq, Repr

namespace Quoting

/-- Quoting with escapes. -/
def basic : Quoting := ⟨'"', true⟩

/-- Quoting without escapes. -/
def literal : Quoting := ⟨'\'', false⟩

/-- Puts a character before the text that was read. -/
def keep (c : Char) (read : Option (List Char × List Char)) : Option (List Char × List Char) :=
  read.map fun (text, rest) => (c :: text, rest)

/-- Reads text on one line up to its closing mark.  The first `read` characters belong to an
escape that was read already. -/
def line (q : Quoting) : (read : Nat) → List Char → Option (List Char × List Char)
  | _, [] => none
  | n + 1, _ :: rest => q.line n rest
  | 0, c :: rest =>
    if c = q.mark then some ([], rest)
    else if c = '\\' ∧ q.escapes then do
      let (e, n) ← escape? rest
      keep e (q.line n rest)
    else if isPrintable c then keep c (q.line 0 rest)
    else none

/-- The end of a text of several lines: three marks, before which up to two more belong to the
text. -/
def ending? (q : Quoting) (text : List Char) : Option (List Char × List Char) :=
  let run := min 5 (text.takeWhile (· == q.mark)).length
  if 3 ≤ run then some (List.replicate (run - 3) q.mark, text.drop run) else none

/-- Reads text on several lines up to its closing marks.  The first `read` characters belong to
an escape that was read already. -/
def lines (q : Quoting) : (read : Nat) → List Char → Option (List Char × List Char)
  | _, [] => none
  | n + 1, _ :: rest => q.lines n rest
  | 0, c :: rest =>
    match q.ending? (c :: rest) with
    | some ended => some ended
    | none =>
      if c = '\\' ∧ q.escapes then
        match hidden? rest with
        | some n => q.lines n rest
        | none => do
          let (e, n) ← escape? rest
          keep e (q.lines n rest)
      else if c = '\n' ∨ isPrintable c then keep c (q.lines 0 rest)
      else none

/-- Reads a text after its opening marks.  A line feed right after three of them does not
count. -/
def text (q : Quoting) : List Char → Option (List Char × List Char)
  | a :: b :: rest =>
    if a = q.mark ∧ b = q.mark then
      q.lines 0 (if rest.head? = some '\n' then rest.tail else rest)
    else q.line 0 (a :: b :: rest)
  | rest => q.line 0 rest

end Quoting

/-- The kind of quoting that a text begins with. -/
def quotingOf? (text : List Char) : Option Quoting :=
  [Quoting.basic, Quoting.literal].find? fun q => text.head? = some q.mark

/-! ## Integers -/

/-- The digits of a numeral in which single underscores may stand between digits. -/
def digitsOf? (isDigit : Char → Bool) (text : List Char) : Option (List Char) :=
  let groups := text.splitOnP (· == '_')
  if groups.all fun group => !group.isEmpty && group.all isDigit then some groups.flatten
  else none

/-- A numeral in a base that is a power of two. -/
def inBase? (base : Nat) (text : List Char) : Option Int := do
  let isDigit (c : Char) := (Json.hexValue? c).any fun n => decide (n < base)
  let digits ← digitsOf? isDigit text
  return digits.foldl (fun n c => base * n + (Json.hexValue? c).getD 0) (0 : Nat)

/-- A decimal numeral, without leading zeros. -/
def decimal? (text : List Char) : Option Int := do
  let (negative, text) := takeSign text
  let digits ← digitsOf? isAsciiDigit text
  if digits.head? = some '0' ∧ digits.length ≠ 1 then none
  else return withSign negative (natOfDigits digits)

/-- The integer of sixty-four bits that a numeral stands for. -/
def integer? (text : List Char) : Option Int := do
  let n ←
    match text with
    | '0' :: 'x' :: digits => inBase? 16 digits
    | '0' :: 'o' :: digits => inBase? 8 digits
    | '0' :: 'b' :: digits => inBase? 2 digits
    | _ => decimal? text
  if -wordSize 63 ≤ n ∧ n < wordSize 63 then return n else none

end MessageFormat.Toml
