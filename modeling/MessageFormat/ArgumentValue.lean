import MessageFormat.Decimal.Layout

/-!
# Argument values

The values that a message is filled in with, and the text by which each of them chooses the
branch of a select argument.
-/

namespace MessageFormat

/-- A value for an argument. -/
inductive ArgumentValue where
  | text (value : String)
  | number (value : Binary64)
  | bool (value : Bool)
  /-- Milliseconds since the beginning of 1970. -/
  | dateTime (milliseconds : Int)
deriving DecidableEq, Repr

namespace ArgumentValue

/-- Numbers have the fewest digits that read back, never an exponent and no fraction if they are
whole; a tie goes up. -/
def layout : Layout where
  tie := .up
  isPositional _ := true
  wholeEnding := []
  exponentSign := []

/-- The text of a number. -/
def numberText (x : Binary64) : String :=
  if x.isNaN then "NaN"
  else if x.isFinite then layout.write x
  else if x.isNegative then "-inf"
  else "inf"

/-- The selector that a value chooses. -/
def selector : ArgumentValue → String
  | .text value => value
  | .number value => numberText value
  | .bool value => if value then "true" else "false"
  | .dateTime milliseconds => toString milliseconds

end ArgumentValue

end MessageFormat
