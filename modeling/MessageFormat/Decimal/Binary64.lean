import MessageFormat.Decimal.Numeral

/-!
# Binary floating point numbers

A `Binary64` is an IEEE 754 double by its bit pattern, so that two of them are equal exactly
when no reader can tell them apart: zero and minus zero are two numbers, and a NaN equals
itself.  A finite one is `significand * 2 ^ scale`, up to its sign.

`Binary64.ofRatio` rounds a quotient of two natural numbers to the nearest double, ties to
the even significand.  It is exact integer arithmetic and rests on one fact about the
encoding: counted from zero, the doubles of one sign are numbered in order of magnitude, with
`2 ^ 52` of them per binary order, so that rounding up to the next order carries into the
exponent by itself.
-/

namespace MessageFormat

/-- A double precision number, by its bits. -/
structure Binary64 where
  bits : UInt64
deriving DecidableEq, Repr

namespace Binary64

/-- The sign bit. -/
def isNegative (x : Binary64) : Bool := decide (wordSize 63 ≤ x.bits.toNat)

/-- The eleven exponent bits. -/
def exponentField (x : Binary64) : Nat := x.bits.toNat / wordSize 52 % wordSize 11

/-- The fifty-two fraction bits. -/
def fractionField (x : Binary64) : Nat := x.bits.toNat % wordSize 52

/-- Neither infinite nor a NaN. -/
def isFinite (x : Binary64) : Bool := x.exponentField != 2047

/-- Not a number. -/
def isNaN (x : Binary64) : Bool := x.exponentField == 2047 && x.fractionField != 0

/-- The integer a finite number is a multiple by a power of two of. -/
def significand (x : Binary64) : Nat :=
  if x.exponentField = 0 then x.fractionField else wordSize 52 + x.fractionField

/-- The power of two that goes with the significand. -/
def scale (x : Binary64) : Int :=
  if x.exponentField = 0 then -1074 else x.exponentField - 1075

/-- The rank of infinity. -/
def infiniteRank : Nat := 2047 * wordSize 52

/-- A sign and the rank of a magnitude, which stops at infinity. -/
def ofRank (negative : Bool) (rank : Nat) : Binary64 :=
  ⟨(min rank infiniteRank + if negative then wordSize 63 else 0).toUInt64⟩

/-- A quotient rounded to the nearest integer, a tie to the even one. -/
def roundHalfEven (num den : Nat) : Nat :=
  let q := num / den
  let r := 2 * (num % den)
  if r < den ∨ (r = den ∧ q % 2 = 0) then q else q + 1

/-- The exponent of the greatest power of two that is at most a positive quotient. -/
def floorLog2 (num den : Nat) : Int :=
  let e : Int := num.log2 - den.log2
  if den * Nat.pow 2 e.toNat ≤ num * Nat.pow 2 (-e).toNat then e else e - 1

/-- The double nearest to a quotient. -/
def ofRatio (negative : Bool) (num den : Nat) : Binary64 :=
  if num = 0 then ofRank negative 0
  else
    let scale := max (floorLog2 num den - 52) (-1074)
    let significand :=
      roundHalfEven (num * Nat.pow 2 (-scale).toNat) (den * Nat.pow 2 scale.toNat)
    ofRank negative ((scale + 1074).toNat * wordSize 52 + significand)

/-- The double nearest to a decimal fraction.  Beyond `10 ^ 400` all are infinite and below
`10 ^ (-400)` all are zero, so no larger power of ten is computed. -/
def ofNumeral (n : Numeral) : Binary64 :=
  if n.digits = 0 ∨ n.exponent + n.digits.log2 / 3 + 1 < -400 then ofRank n.negative 0
  else if 400 < n.exponent then ofRank n.negative infiniteRank
  else ofRatio n.negative (n.digits * Nat.pow 10 n.exponent.toNat)
    (Nat.pow 10 (-n.exponent).toNat)

/-- The double nearest to an integer. -/
def ofInt (i : Int) : Binary64 := ofRatio (decide (i < 0)) i.natAbs 1

/-- The product, rounded. -/
def mul (x y : Binary64) : Binary64 := ⟨(Float.ofBits x.bits * Float.ofBits y.bits).toBits⟩

/-- The quotient, rounded. -/
def div (x y : Binary64) : Binary64 := ⟨(Float.ofBits x.bits / Float.ofBits y.bits).toBits⟩

/-- The number with its sign set. -/
def setSign (negative : Bool) (x : Binary64) : Binary64 :=
  ⟨(x.bits.toNat % wordSize 63 + if negative then wordSize 63 else 0).toUInt64⟩

end Binary64

end MessageFormat
