import MessageFormat.NumberFormat.Meaning

/-!
# Number skeletons: application

A skeleton can also be applied to a format that is written in place, token by token and component
by component.  A token that is refused may have written before: an exponent sets the shape and then
one sign after the other, and a pattern after the point sets its bounds before its option is read.
What it has written is lost with the whole format, so in the end this is the same as `interpret`.
-/

namespace MessageFormat.NumberSkeleton

open Text

/-- Work on a format.  Where it is refused, the format is left as written so far. -/
abbrev Work := EStateM Fault NumberFormat Unit

namespace Token

/-- Refuses a token that has options. -/
def refuseOptions (t : Token) : Work :=
  if t.options.isEmpty then pure () else throw (.unexpectedOption t.stem)

/-- Writes to a format for a token that has no options. -/
def write (t : Token) (update : Update) : Work := do
  t.refuseOptions
  modify update

/-- The signs given with an exponent, written one after the other. -/
def applySigns (stem : String) : List String → Work
  | [] => pure ()
  | option :: options =>
    match Sign.ofStem? option with
    | some sign => do
      modify sign.update
      applySigns stem options
    | none => throw (.invalidOption stem option)

/-- A shape with an exponent, and then the signs given with it. -/
def applyExponential (t : Token) (shape : NumberShape) : Work := do
  modify fun f => { f with shape := some shape }
  applySigns t.stem t.options

/-- The option after a fraction pattern. -/
def applyFractionOption (stem option : String) : Work :=
  if option = "w" then modify fun f => { f with trailingZeroDisplay := some .stripIfInteger }
  else
    match SignificantPrecision.ofPattern? option.toList with
    | some precision => modify precision.update
    | none => throw (.invalidOption stem option)

/-- A fraction pattern, its point already taken, and then its option. -/
def applyFraction (t : Token) (pattern : List Char) : Work :=
  match FractionPrecision.ofPattern? pattern with
  | none => throw (.unknownStem t.stem)
  | some precision =>
    if 1 < t.options.length then throw (.tooManyOptions t.stem)
    else do
      modify precision.update
      match t.options.head? with
      | none => pure ()
      | some option => applyFractionOption t.stem option

/-- An exponent pattern after its first `E`. -/
def applyExponent (t : Token) (pattern : List Char) : Work := do
  t.refuseOptions
  match exponentUpdate? pattern with
  | some update => modify update
  | none => throw (.malformedExponent t.stem)

/-- A token whose stem is a pattern. -/
def applyPattern (t : Token) : Work :=
  let stem := t.stem.toList
  if isRunOf '0' stem then
    t.write fun f => { f with minimumIntegerDigits := some (digitCount stem.length) }
  else
    match after? ['.'] stem with
    | some pattern => t.applyFraction pattern
    | none =>
      match SignificantPrecision.ofPattern? stem with
      | some precision => t.write precision.update
      | none =>
        match Sign.ofStem? t.stem with
        | some sign => t.write sign.update
        | none =>
          match after? ['E'] stem with
          | none => throw (.unknownStem t.stem)
          | some pattern => t.applyExponent pattern

/-- Applies a token to a format. -/
def apply (t : Token) : Work :=
  match t.stem with
  | "percent" | "%" => t.write fun f => { f with style := some .percent }
  | "%x100" =>
    t.write fun f => { f with style := some .percent, scale := some (.ofInt 100) }
  | "currency" => do
    let code ← MonadExcept.ofExcept t.onlyOption
    modify fun f => { f with style := some .currency, currency := some code }
  | "group-off" | ",_" => t.write fun f => { f with useGrouping := some false }
  | "precision-integer" | "." => t.write fun f => { f with maximumFractionDigits := some 0 }
  | "measure-unit" | "unit" => do
    let option ← MonadExcept.ofExcept t.onlyOption
    modify fun f => { f with style := some .unit, unit := some (unitName option) }
  | "compact-short" | "K" => t.write (compact .short)
  | "compact-long" | "KK" => t.write (compact .long)
  | "scientific" => t.applyExponential .scientific
  | "engineering" => t.applyExponential .engineering
  | "notation-simple" => t.write fun f => { f with shape := some .standard }
  | "unit-width-narrow" => t.write (unitWidth .narrowSymbol .narrow)
  | "unit-width-short" => t.write (unitWidth .code .short)
  | "unit-width-full-name" => t.write (unitWidth .name .long)
  | "unit-width-iso-code" => t.write fun f => { f with currencyDisplay := some .symbol }
  | "scale" => do
    let option ← MonadExcept.ofExcept t.onlyOption
    let factor ← MonadExcept.ofExcept (scaleFactor t.stem option)
    modify fun f => { f with scale := some factor }
  | "rounding-mode-floor" => t.write (rounding .floor)
  | "rounding-mode-ceiling" => t.write (rounding .ceil)
  | "rounding-mode-down" => t.write (rounding .trunc)
  | "rounding-mode-up" => t.write (rounding .expand)
  | "rounding-mode-half-even" => t.write (rounding .halfEven)
  | "rounding-mode-half-down" => t.write (rounding .halfTrunc)
  | "rounding-mode-half-up" => t.write (rounding .halfExpand)
  | "integer-width" => do
    let option ← MonadExcept.ofExcept t.onlyOption
    let width ← MonadExcept.ofExcept (integerWidth t.stem option)
    modify fun f => { f with minimumIntegerDigits := some width }
  | _ => t.applyPattern

end Token

/-- Applies tokens one after the other, up to the first that is refused. -/
def applyAll : List Token → Work
  | [] => pure ()
  | t :: tokens => do
    t.apply
    applyAll tokens

/-- The format that the tokens leave behind if none of them is refused. -/
def applied (tokens : List Token) : Except Fault NumberFormat :=
  match (applyAll tokens).run {} with
  | .ok () f => .ok f
  | .error fault _ => .error fault

end MessageFormat.NumberSkeleton
