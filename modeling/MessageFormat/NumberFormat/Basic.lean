import MessageFormat.Json.Basic

/-!
# Number formats

`NumberFormat` collects what a number skeleton can ask for.  Every component is optional: one
without a value leaves the choice to the formatter.  The enumerations carry the names that
JSON knows them by.
-/

namespace MessageFormat

/-- What kind of quantity is written. -/
inductive NumberStyle where
  | percent
  | currency
  | unit
deriving DecidableEq, Repr

instance : Named NumberStyle where
  members := [.percent, .currency, .unit]
  name
    | .percent => "percent"
    | .currency => "currency"
    | .unit => "unit"

/-- How the magnitude is written. -/
inductive NumberShape where
  | standard
  | scientific
  | engineering
  | compact
deriving DecidableEq, Repr

instance : Named NumberShape where
  members := [.standard, .scientific, .engineering, .compact]
  name
    | .standard => "standard"
    | .scientific => "scientific"
    | .engineering => "engineering"
    | .compact => "compact"

/-- How long a compact magnitude is spelled. -/
inductive CompactDisplay where
  | short
  | long
deriving DecidableEq, Repr

instance : Named CompactDisplay where
  members := [.short, .long]
  name
    | .short => "short"
    | .long => "long"

/-- How a currency is shown. -/
inductive CurrencyDisplay where
  | symbol
  | narrowSymbol
  | code
  | name
deriving DecidableEq, Repr

instance : Named CurrencyDisplay where
  members := [.symbol, .narrowSymbol, .code, .name]
  name
    | .symbol => "symbol"
    | .narrowSymbol => "narrowSymbol"
    | .code => "code"
    | .name => "name"

/-- How a unit is shown. -/
inductive UnitDisplay where
  | short
  | narrow
  | long
deriving DecidableEq, Repr

instance : Named UnitDisplay where
  members := [.short, .narrow, .long]
  name
    | .short => "short"
    | .narrow => "narrow"
    | .long => "long"

/-- When a sign is shown. -/
inductive SignDisplay where
  | auto
  | always
  | exceptZero
  | never
deriving DecidableEq, Repr

instance : Named SignDisplay where
  members := [.auto, .always, .exceptZero, .never]
  name
    | .auto => "auto"
    | .always => "always"
    | .exceptZero => "exceptZero"
    | .never => "never"

/-- How a negative amount of money is marked. -/
inductive CurrencySign where
  | standard
  | accounting
deriving DecidableEq, Repr

instance : Named CurrencySign where
  members := [.standard, .accounting]
  name
    | .standard => "standard"
    | .accounting => "accounting"

/-- Which way digits are rounded off. -/
inductive RoundingMode where
  | ceil
  | floor
  | expand
  | trunc
  | halfCeil
  | halfFloor
  | halfExpand
  | halfTrunc
  | halfEven
deriving DecidableEq, Repr

instance : Named RoundingMode where
  members :=
    [.ceil, .floor, .expand, .trunc, .halfCeil, .halfFloor, .halfExpand, .halfTrunc, .halfEven]
  name
    | .ceil => "ceil"
    | .floor => "floor"
    | .expand => "expand"
    | .trunc => "trunc"
    | .halfCeil => "halfCeil"
    | .halfFloor => "halfFloor"
    | .halfExpand => "halfExpand"
    | .halfTrunc => "halfTrunc"
    | .halfEven => "halfEven"

/-- Which of two precisions wins when both are given. -/
inductive RoundingPriority where
  | auto
  | morePrecision
  | lessPrecision
deriving DecidableEq, Repr

instance : Named RoundingPriority where
  members := [.auto, .morePrecision, .lessPrecision]
  name
    | .auto => "auto"
    | .morePrecision => "morePrecision"
    | .lessPrecision => "lessPrecision"

/-- Whether a whole number keeps its zeros after the point. -/
inductive TrailingZeroDisplay where
  | auto
  | stripIfInteger
deriving DecidableEq, Repr

instance : Named TrailingZeroDisplay where
  members := [.auto, .stripIfInteger]
  name
    | .auto => "auto"
    | .stripIfInteger => "stripIfInteger"

/-- What a number skeleton asks for. -/
structure NumberFormat where
  style : Option NumberStyle := none
  currency : Option String := none
  unit : Option String := none
  useGrouping : Option Bool := none
  shape : Option NumberShape := none
  compactDisplay : Option CompactDisplay := none
  currencyDisplay : Option CurrencyDisplay := none
  unitDisplay : Option UnitDisplay := none
  signDisplay : Option SignDisplay := none
  currencySign : Option CurrencySign := none
  scale : Option Binary64 := none
  roundingMode : Option RoundingMode := none
  roundingPriority : Option RoundingPriority := none
  trailingZeroDisplay : Option TrailingZeroDisplay := none
  minimumIntegerDigits : Option Nat := none
  minimumFractionDigits : Option Nat := none
  maximumFractionDigits : Option Nat := none
  minimumSignificantDigits : Option Nat := none
  maximumSignificantDigits : Option Nat := none
deriving DecidableEq, Repr

namespace NumberFormat

/-- The format as a JSON object. -/
def toJson (f : NumberFormat) : Json :=
  .ofFields
    [("style", f.style.map Named.toJson),
     ("currency", f.currency.map .str),
     ("unit", f.unit.map .str),
     ("useGrouping", f.useGrouping.map .bool),
     ("notation", f.shape.map Named.toJson),
     ("compactDisplay", f.compactDisplay.map Named.toJson),
     ("currencyDisplay", f.currencyDisplay.map Named.toJson),
     ("unitDisplay", f.unitDisplay.map Named.toJson),
     ("signDisplay", f.signDisplay.map Named.toJson),
     ("currencySign", f.currencySign.map Named.toJson),
     ("scale", f.scale.map .ofNumber),
     ("roundingMode", f.roundingMode.map Named.toJson),
     ("roundingPriority", f.roundingPriority.map Named.toJson),
     ("trailingZeroDisplay", f.trailingZeroDisplay.map Named.toJson),
     ("minimumIntegerDigits", f.minimumIntegerDigits.map .ofNat),
     ("minimumFractionDigits", f.minimumFractionDigits.map .ofNat),
     ("maximumFractionDigits", f.maximumFractionDigits.map .ofNat),
     ("minimumSignificantDigits", f.minimumSignificantDigits.map .ofNat),
     ("maximumSignificantDigits", f.maximumSignificantDigits.map .ofNat)]

/-- Reads a format.  Counts of digits are words of thirty-two bits. -/
def ofJson? (j : Json) : Option NumberFormat :=
  if j.isRecord 19 19 then do
    let named {α : Type} [Named α] (place : Nat) (name : String) : Option (Option α) :=
      Json.optional? Named.ofJson? (j.component? place name)
    let text (place : Nat) (name : String) := Json.optional? Json.str? (j.component? place name)
    let count (place : Nat) (name : String) :=
      Json.optional? (Json.natBelow? (wordSize 32)) (j.component? place name)
    return {
      style := ← named 0 "style"
      currency := ← text 1 "currency"
      unit := ← text 2 "unit"
      useGrouping := ← Json.optional? Json.bool? (j.component? 3 "useGrouping")
      shape := ← named 4 "notation"
      compactDisplay := ← named 5 "compactDisplay"
      currencyDisplay := ← named 6 "currencyDisplay"
      unitDisplay := ← named 7 "unitDisplay"
      signDisplay := ← named 8 "signDisplay"
      currencySign := ← named 9 "currencySign"
      scale := ← Json.optional? Json.number? (j.component? 10 "scale")
      roundingMode := ← named 11 "roundingMode"
      roundingPriority := ← named 12 "roundingPriority"
      trailingZeroDisplay := ← named 13 "trailingZeroDisplay"
      minimumIntegerDigits := ← count 14 "minimumIntegerDigits"
      minimumFractionDigits := ← count 15 "minimumFractionDigits"
      maximumFractionDigits := ← count 16 "maximumFractionDigits"
      minimumSignificantDigits := ← count 17 "minimumSignificantDigits"
      maximumSignificantDigits := ← count 18 "maximumSignificantDigits" }
  else none

end NumberFormat

end MessageFormat
