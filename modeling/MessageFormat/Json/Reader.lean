import MessageFormat.Json.Basic

/-!
# Reading JSON text

`Json.ofText?` is the value a text denotes.  An integer that fits sixty-four bits, signed or
not, stays an integer; every other number, minus zero included, is a floating point number.
Of two fields with one name the later one stands.

A floating point number is read from its leading digits, as many as fit sixty-four bits, and
scaled by one power of ten.  Up to fifteen digits and twenty-two places that is the nearest
number; beyond, it may be off in the last bit.
-/

namespace MessageFormat.Json

/-- The blanks of JSON. -/
def isBlank (c : Char) : Bool := c = ' ' || c = '\n' || c = '\r' || c = '\t'

/-- Skips blanks. -/
def skip (text : List Char) : List Char := text.dropWhile isBlank

/-! ## Numbers -/

/-- The greatest unsigned integer of sixty-four bits. -/
def maxWord : Nat := wordSize 64 - 1

/-- The leading digits of a number as an integer, and the power of ten they stand at.  Once a
digit did not fit, the digits after it are `dropped`. -/
structure Leading where
  significand : Nat := 0
  exponent : Int := 0
  dropped : Bool := false

/-- Takes one more digit before the point. -/
def Leading.whole (n : Leading) (c : Char) : Leading :=
  let next := 10 * n.significand + (c.toNat - 48)
  if n.dropped || decide (maxWord < next) then
    ⟨n.significand, n.exponent + 1, true⟩
  else ⟨next, n.exponent, false⟩

/-- Takes one more digit after the point. -/
def Leading.place (n : Leading) (c : Char) : Leading :=
  let next := 10 * n.significand + (c.toNat - 48)
  if n.dropped || decide (maxWord < next) then ⟨n.significand, n.exponent, true⟩
  else ⟨next, n.exponent - 1, false⟩

/-- A power of ten as a floating point number. -/
def powerOfTen (n : Nat) : Binary64 := .ofNumeral ⟨false, 1, n⟩

/-- A number times a power of ten, refused when it overflows.  Powers below `10 ^ (-308)` take
several divisions, of which the third always leaves zero. -/
def scaled? : (divisions : Nat) → Binary64 → Int → Option Binary64
  | 0, x, _ => some x
  | n + 1, x, e =>
    if x.significand = 0 then some x
    else if 308 < e then none
    else if 0 ≤ e then
      let y := x.mul (powerOfTen e.toNat)
      if y.isFinite then some y else none
    else if -308 ≤ e then some (x.div (powerOfTen (-e).toNat))
    else scaled? n (x.div (powerOfTen 308)) (e + 308)

/-- A floating point number from its parts. -/
def ofLeading? (negative : Bool) (n : Leading) (shift : Int) : Option Json :=
  (scaled? 8 (.ofInt n.significand) (n.exponent + shift)).map fun x =>
    .float (x.setSign negative)

/-- Reads the power of ten at the end of a number, if there is one. -/
def readShift : List Char → Option (Option Int × List Char)
  | [] => some (none, [])
  | c :: rest =>
    if c = 'e' || c = 'E' then
      let (negative, rest) := takeSign rest
      let digits := rest.takeWhile isAsciiDigit
      if digits.isEmpty then none
      else some (some (withSign negative (natOfDigits digits)), rest.dropWhile isAsciiDigit)
    else some (none, c :: rest)

/-- Reads a number, its minus already taken. -/
def readNumber (negative : Bool) (text : List Char) : Option (Json × List Char) := do
  let whole := text.takeWhile isAsciiDigit
  let rest := text.dropWhile isAsciiDigit
  if whole.isEmpty || (whole.head? = some '0' && whole.length ≠ 1) then none
  else
    let leading := whole.foldl Leading.whole {}
    if rest.head? = some '.' then
      let places := rest.tail.takeWhile isAsciiDigit
      if places.isEmpty then none
      else
        let (shift, rest) ← readShift (rest.tail.dropWhile isAsciiDigit)
        let leading := places.foldl Leading.place { leading with dropped := false }
        return (← ofLeading? negative leading (shift.getD 0), rest)
    else
      let (shift, rest) ← readShift rest
      let n := natOfDigits whole
      match shift with
      | some e => return (← ofLeading? negative leading e, rest)
      | none =>
        if !negative && decide (n ≤ maxWord) then return (.int n, rest)
        else if negative && n ≠ 0 && decide (n ≤ wordSize 63) then return (.int (-n), rest)
        else return (← ofLeading? negative leading 0, rest)

/-! ## Texts -/

/-- The value of a digit of base sixteen. -/
def hexValue? (c : Char) : Option Nat :=
  if isAsciiDigit c then some (c.toNat - 48)
  else if 'a' ≤ c ∧ c ≤ 'f' then some (c.toNat - 87)
  else if 'A' ≤ c ∧ c ≤ 'F' then some (c.toNat - 55)
  else none

/-- The number written by four digits of base sixteen. -/
def hex4? (a b c d : Char) : Option Nat := do
  return 4096 * (← hexValue? a) + 256 * (← hexValue? b) + 16 * (← hexValue? c) + (← hexValue? d)

/-- What a backslash and one character stand for. -/
def unescape? (c : Char) : Option Char :=
  if c = '"' || c = '\\' || c = '/' then some c
  else if c = 'n' then some '\n'
  else if c = 'r' then some '\r'
  else if c = 't' then some '\t'
  else if c = 'b' then some '\x08'
  else if c = 'f' then some '\x0c'
  else none

/-- Reads text up to its closing quote.  A pair of surrogate escapes is one character and a
lone one is refused. -/
def readString : List Char → Option (List Char × List Char)
  | [] => none
  | '"' :: rest => some ([], rest)
  | '\\' :: 'u' :: a :: b :: c :: d :: '\\' :: 'u' :: e :: f :: g :: h :: rest => do
    let high ← hex4? a b c d
    let low ← hex4? e f g h
    if 0xD800 ≤ high ∧ high < 0xDC00 then
      if 0xDC00 ≤ low ∧ low < 0xE000 then
        let (text, rest) ← readString rest
        return (Char.ofNat (0x10000 + 0x400 * (high - 0xD800) + (low - 0xDC00)) :: text, rest)
      else none
    else if 0xDC00 ≤ high ∧ high < 0xE000 then none
    else
      let (text, rest) ← readString ('\\' :: 'u' :: e :: f :: g :: h :: rest)
      return (Char.ofNat high :: text, rest)
  | '\\' :: 'u' :: a :: b :: c :: d :: rest => do
    let n ← hex4? a b c d
    if 0xD800 ≤ n ∧ n < 0xE000 then none
    else
      let (text, rest) ← readString rest
      return (Char.ofNat n :: text, rest)
  | '\\' :: c :: rest => do
    let c ← unescape? c
    let (text, rest) ← readString rest
    return (c :: text, rest)
  | c :: rest => do
    if c.toNat < 0x20 then none
    else
      let (text, rest) ← readString rest
      return (c :: text, rest)

/-! ## Values -/

/-- Sets a field; one with the same name gives way. -/
def setField (name : String) (value : Json) (fields : List (String × Json)) :
    List (String × Json) :=
  fields.filter (fun field => field.1 != name) ++ [(name, value)]

/-- What follows a given word. -/
def word? (word : String) (value : Json) (text : List Char) : Option (Json × List Char) :=
  let letters := word.toList
  if letters.isPrefixOf text then some (value, text.drop letters.length) else none

mutual

/-- Reads one value.  The first argument bounds how deep and how far it goes. -/
def readValue : Nat → List Char → Option (Json × List Char)
  | 0, _ => none
  | n + 1, text =>
    match skip text with
    | [] => none
    | c :: rest =>
      if c = '"' then (readString rest).map fun (text, rest) => (.str (String.ofList text), rest)
      else if c = '[' then
        if (skip rest).head? = some ']' then some (.arr [], (skip rest).tail)
        else readItems n [] rest
      else if c = '{' then
        if (skip rest).head? = some '}' then some (.obj [], (skip rest).tail)
        else readFields n [] rest
      else if c = '-' then readNumber true rest
      else if c = 't' then word? "true" (.bool true) (c :: rest)
      else if c = 'f' then word? "false" (.bool false) (c :: rest)
      else if c = 'n' then word? "null" .null (c :: rest)
      else readNumber false (c :: rest)

/-- Reads the items of an array that are left, after those read so far. -/
def readItems : Nat → List Json → List Char → Option (Json × List Char)
  | 0, _, _ => none
  | n + 1, items, text => do
    let (item, rest) ← readValue n text
    match skip rest with
    | ',' :: rest => readItems n (item :: items) rest
    | ']' :: rest => return (.arr (item :: items).reverse, rest)
    | _ => none

/-- Reads the fields of an object that are left, after those read so far. -/
def readFields : Nat → List (String × Json) → List Char → Option (Json × List Char)
  | 0, _, _ => none
  | n + 1, fields, text =>
    match skip text with
    | '"' :: rest => do
      let (name, rest) ← readString rest
      match skip rest with
      | ':' :: rest =>
        let (value, rest) ← readValue n rest
        let fields := setField (String.ofList name) value fields
        match skip rest with
        | ',' :: rest => readFields n fields rest
        | '}' :: rest => return (.obj fields, rest)
        | _ => none
      | _ => none
    | _ => none

end

/-- The value that a text denotes. -/
def ofText? (text : String) : Option Json := do
  let chars := text.toList
  let (value, rest) ← readValue (2 * chars.length + 2) chars
  if (skip rest).isEmpty then return value else none

end MessageFormat.Json
