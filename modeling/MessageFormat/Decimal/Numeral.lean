import MessageFormat.Text.Classes

/-!
# Decimal numerals

The written form of integers and of decimal fractions, read into exact values: an optional
sign, ASCII digits, and for a fraction an optional point and an optional power of ten.
-/

namespace MessageFormat

/-- The number of values of a word of the given width. -/
def wordSize (bits : Nat) : Nat := Nat.pow 2 bits

/-- The number a string of ASCII digits stands for, of any length and with any leading
zeros. -/
def natOfDigits (digits : List Char) : Nat :=
  digits.foldl (fun n c => 10 * n + (c.toNat - 48)) 0

/-- A number, if it is below a bound. -/
def below? (bound n : Nat) : Option Nat := if n < bound then some n else none

/-- One more digit after a number.  Both the product and the sum must be below the bound. -/
def appendDigitBelow? (bound : Nat) (n : Option Nat) (digit : Char) : Option Nat := do
  let tens ← below? bound (10 * (← n))
  below? bound (tens + (digit.toNat - 48))

/-- The number that digits stand for, worked out digit by digit among the numbers below a bound.
Where that fails once, it has failed. -/
def natOfDigitsBelow? (bound : Nat) (digits : List Char) : Option Nat :=
  digits.foldl (appendDigitBelow? bound) (some 0)

/-- No step fails before the number itself has reached the bound, and none succeeds after it. -/
theorem appendDigitBelow?_below? (bound n : Nat) (digit : Char) :
    appendDigitBelow? bound (below? bound n) digit =
      below? bound (10 * n + (digit.toNat - 48)) := by
  by_cases hn : n < bound
  · by_cases htens : 10 * n < bound
    · simp [appendDigitBelow?, below?, hn, htens]
    · have hsum : ¬10 * n + (digit.toNat - 48) < bound := by omega
      simp [appendDigitBelow?, below?, hn, htens, hsum]
  · have hsum : ¬10 * n + (digit.toNat - 48) < bound := by omega
    simp [appendDigitBelow?, below?, hn, hsum]

/-- The number of the digits is found whenever it is below the bound, however many there are. -/
theorem natOfDigitsBelow?_eq {bound : Nat} (hbound : 0 < bound) (digits : List Char) :
    natOfDigitsBelow? bound digits = below? bound (natOfDigits digits) := by
  have run : ∀ n, digits.foldl (appendDigitBelow? bound) (below? bound n) =
      below? bound (digits.foldl (fun n c => 10 * n + (c.toNat - 48)) n) := by
    induction digits with
    | nil => intro n; rfl
    | cons digit digits ih =>
      intro n
      rw [List.foldl_cons, List.foldl_cons, appendDigitBelow?_below?, ih]
  have hzero : below? bound 0 = some 0 := if_pos hbound
  rw [natOfDigitsBelow?, ← hzero, run, natOfDigits]

/-- An optional sign, as whether it is a minus, and what follows it. -/
def takeSign : List Char → Bool × List Char
  | [] => (false, [])
  | c :: rest =>
    if c = '-' then (true, rest)
    else if c = '+' then (false, rest)
    else (false, c :: rest)

/-- A magnitude with its sign. -/
def withSign (negative : Bool) (n : Nat) : Int := if negative then -n else n

/-- The integer that a text is the numeral of: an optional sign and at least one digit. -/
def integerOf? (text : List Char) : Option Int :=
  let (negative, digits) := takeSign text
  if !digits.isEmpty && digits.all isAsciiDigit then some (withSign negative (natOfDigits digits))
  else none

/-- A decimal fraction as written: `digits` shifted by `exponent` places, with its sign.  The
sign is apart because zero has one too. -/
structure Numeral where
  negative : Bool
  digits : Nat
  exponent : Int
deriving DecidableEq, Repr

/-- The power of ten after a fraction: nothing, or a mark and an integer. -/
def exponentOf? : List Char → Option Int
  | [] => some 0
  | c :: rest => if c = 'e' || c = 'E' then integerOf? rest else none

/-- The decimal fraction that a text is the numeral of: an optional sign, digits with an
optional point before, between or after them, and an optional power of ten. -/
def Numeral.ofText? (text : List Char) : Option Numeral := do
  let (negative, text) := takeSign text
  let whole := text.takeWhile isAsciiDigit
  let rest := text.dropWhile isAsciiDigit
  let (places, rest) :=
    if rest.head? = some '.' then
      (rest.tail.takeWhile isAsciiDigit, rest.tail.dropWhile isAsciiDigit)
    else ([], rest)
  if whole.isEmpty && places.isEmpty then none
  else
    let shift ← exponentOf? rest
    return ⟨negative, natOfDigits (whole ++ places), shift - places.length⟩

end MessageFormat
