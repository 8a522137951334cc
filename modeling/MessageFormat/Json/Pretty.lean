import MessageFormat.Json.Basic
import MessageFormat.Decimal.Layout

/-!
# JSON text

`Json.pretty` writes a value over several lines, two blanks deeper for each level, and an
empty array or object on one.  Text is escaped as little as JSON allows.
-/

namespace MessageFormat.Json

/-- Numbers have the fewest digits that read back.  A whole number keeps `.0`, an exponent is
written from `10 ^ 16` up, always with its sign, and below `10 ^ (-5)`; a tie goes to the even
digit. -/
def layout : Layout where
  tie := .even
  isPositional point := decide (-5 < point) && decide (point ≤ 16)
  wholeEnding := ['.', '0']
  exponentSign := ['+']

/-- A digit of base sixteen. -/
def hexDigit (n : Nat) : Char := if n < 10 then Char.ofNat (48 + n) else Char.ofNat (87 + n)

/-- A character inside a quoted text: quotes, backslashes and control characters are
escaped. -/
def escape (c : Char) : List Char :=
  if c = '"' then ['\\', '"']
  else if c = '\\' then ['\\', '\\']
  else if c = '\n' then ['\\', 'n']
  else if c = '\r' then ['\\', 'r']
  else if c = '\t' then ['\\', 't']
  else if c = '\x08' then ['\\', 'b']
  else if c = '\x0c' then ['\\', 'f']
  else if c.toNat < 0x20 then
    ['\\', 'u', '0', '0', hexDigit (c.toNat / 16), hexDigit (c.toNat % 16)]
  else [c]

/-- A quoted text. -/
def quote (text : String) : List Char := '"' :: text.toList.flatMap escape ++ ['"']

/-- A new line at the given depth. -/
def newline (depth : Nat) : List Char := '\n' :: List.replicate (2 * depth) ' '

/-- Lines between two brackets, the first at the depth inside them. -/
def bracket (opening closing : Char) (depth : Nat) : List (List Char) → List Char
  | [] => [opening, closing]
  | entries =>
    opening :: newline (depth + 1) ++
      List.intercalate (',' :: newline (depth + 1)) entries ++ newline depth ++ [closing]

mutual

/-- The text of a value that stands at the given depth. -/
def prettyChars (depth : Nat) : Json → List Char
  | .null => "null".toList
  | .bool b => (if b then "true" else "false").toList
  | .int i => (toString i).toList
  | .float x => (layout.write x).toList
  | .str text => quote text
  | .arr items => bracket '[' ']' depth (prettyItems (depth + 1) items)
  | .obj fields => bracket '{' '}' depth (prettyFields (depth + 1) fields)

/-- The texts of the items of an array. -/
def prettyItems (depth : Nat) : List Json → List (List Char)
  | [] => []
  | j :: items => prettyChars depth j :: prettyItems depth items

/-- The texts of the fields of an object. -/
def prettyFields (depth : Nat) : List (String × Json) → List (List Char)
  | [] => []
  | (name, j) :: fields =>
    (quote name ++ ':' :: ' ' :: prettyChars depth j) :: prettyFields depth fields

end

/-- The text of a value over several lines. -/
def pretty (j : Json) : String := String.ofList (prettyChars 0 j)

end MessageFormat.Json
