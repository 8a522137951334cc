import MessageFormat.Decimal.Shortest

/-!
# Writing a number

The digits of a number are fixed by `Binary64.shortest`.  What remains is a `Layout`: where
positional writing ends, whether a whole number keeps a fraction, how an exponent is signed,
and which way a tie goes.  Each place that writes numbers has one `Layout` of its own.
-/

namespace MessageFormat

/-- The choices that writing a number leaves open. -/
structure Layout where
  /-- Where a number exactly between two shortest decimals goes. -/
  tie : Tie
  /-- Whether a number whose first digit stands `point` places before the decimal point (after
  it, if negative or zero) is written without an exponent. -/
  isPositional : (point : Int) → Bool
  /-- What a whole number ends in when written without an exponent. -/
  wholeEnding : List Char
  /-- What stands before the digits of an exponent that is not negative. -/
  exponentSign : List Char

namespace Layout

/-- The digits of a natural number. -/
def digits (n : Nat) : List Char := Nat.toDigits 10 n

/-- Digits with the decimal point after the first `point` of them, filled up with zeros. -/
def positional (layout : Layout) (ds : List Char) (point : Int) : List Char :=
  if point ≤ 0 then
    '0' :: '.' :: List.replicate (-point).toNat '0' ++ ds
  else if ds.length ≤ point.toNat then
    ds ++ List.replicate (point.toNat - ds.length) '0' ++ layout.wholeEnding
  else ds.take point.toNat ++ '.' :: ds.drop point.toNat

/-- Digits with the decimal point after the first, and the power of ten that makes up for
it. -/
def scientific (layout : Layout) (ds : List Char) (point : Int) : List Char :=
  let power := point - 1
  ds.take 1 ++ (if ds.length ≤ 1 then [] else '.' :: ds.drop 1) ++ 'e' ::
    (if power < 0 then ['-'] else layout.exponentSign) ++ digits power.natAbs

/-- The text of a finite number. -/
def write (layout : Layout) (x : Binary64) : String :=
  let sign := if x.isNegative then ['-'] else []
  let body :=
    if x.significand = 0 then '0' :: layout.wholeEnding
    else
      let d := x.shortest layout.tie
      let ds := digits d.digits
      let point := ds.length + d.exponent
      if layout.isPositional point then layout.positional ds point
      else layout.scientific ds point
  String.ofList (sign ++ body)

end Layout

end MessageFormat
