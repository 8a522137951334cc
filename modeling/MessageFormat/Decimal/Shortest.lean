import MessageFormat.Decimal.Binary64

/-!
# The shortest decimal that reads back

`Binary64.shortest` is the decimal with the fewest digits among those that lie closer to a
number than to any other, and of these the nearest.  For one, two, … seventeen digits it
tests the two neighbours of the number on that grid; seventeen always suffice.

All comparisons are between natural numbers: number, interval and grid are first brought to
one denominator.
-/

namespace MessageFormat

/-- Which neighbour a number exactly between two decimals goes to. -/
inductive Tie where
  | up
  | even
deriving DecidableEq, Repr

/-- A positive decimal: `digits * 10 ^ exponent`. -/
structure Decimal where
  digits : Nat
  exponent : Int
deriving DecidableEq, Repr

/-- The number of digits of a positive number, and zero for zero. -/
def countDigits (n : Nat) : Nat := if n = 0 then 0 else (Nat.toDigits 10 n).length

/-- The exponent of the greatest power of ten that is at most a positive quotient. -/
def floorLog10 (num den : Nat) : Int :=
  if den ≤ num then countDigits (num / den) - 1 else -countDigits ((den - 1) / num)

namespace Decimal

/-- Moves zeros at the end of the digits into the exponent, at most `n` of them. -/
def dropZeros : (n : Nat) → Decimal → Decimal
  | 0, d => d
  | n + 1, d => if d.digits % 10 = 0 then dropZeros n ⟨d.digits / 10, d.exponent + 1⟩ else d

/-- The nearer of the grid points `d` and `d + 1` that are acceptable: `place` is the number
scaled to the grid's denominator, `step` the width of the grid. -/
def choose? (tie : Tie) (accept : Nat → Bool) (d step place : Nat) : Option Nat :=
  match accept d, accept (d + 1) with
  | false, false => none
  | true, false => some d
  | false, true => some (d + 1)
  | true, true =>
    let below := 2 * (place - d * step)
    if below < step then some d
    else if step < below then some (d + 1)
    else match tie with
      | .up => some (d + 1)
      | .even => some (if d % 2 = 0 then d else d + 1)

end Decimal

namespace Binary64

/-- The decimal of exactly `n` places nearest to a finite positive number, if it reads back.
The number is `4 * significand` quarters; the numbers that round to it reach two quarters up
and two down, or one down below a power of two, ends included for an even significand. -/
def nearest? (tie : Tie) (x : Binary64) (n : Nat) : Option Decimal :=
  let m := x.significand
  let q := x.scale - 2
  let lowest := if m = wordSize 52 ∧ x.scale ≠ -1074 then 4 * m - 1 else 4 * m - 2
  let unit := floorLog10 (4 * m * Nat.pow 2 q.toNat) (Nat.pow 2 (-q).toNat) - n + 1
  let scaled (quarters : Nat) := quarters * Nat.pow 2 q.toNat * Nat.pow 10 (-unit).toNat
  let step := Nat.pow 10 unit.toNat * Nat.pow 2 (-q).toNat
  let accept (d : Nat) : Bool :=
    if m % 2 = 0 then scaled lowest ≤ d * step && d * step ≤ scaled (4 * m + 2)
    else scaled lowest < d * step && d * step < scaled (4 * m + 2)
  let place := scaled (4 * m)
  (Decimal.choose? tie accept (place / step) step place).map fun d =>
    Decimal.dropZeros n ⟨d, unit⟩

/-- The shortest decimal that reads back as a finite number other than zero, without its
sign. -/
def shortest (tie : Tie) (x : Binary64) : Decimal :=
  ((List.range 17).findSome? fun n => x.nearest? tie (n + 1)).getD ⟨0, 0⟩

end Binary64

end MessageFormat
