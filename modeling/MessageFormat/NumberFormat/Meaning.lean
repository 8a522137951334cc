import MessageFormat.NumberFormat.Basic
import MessageFormat.NumberFormat.Skeleton

/-!
# Number skeletons: meaning

A token means an update of a `NumberFormat`, or is refused; which of the two depends on the
token alone.  A skeleton means the updates of its tokens in order, so of two tokens that set
one component the later one stands.

Most stems are words of a fixed vocabulary.  The others are patterns of repeated characters:
`000`, `.00##`, `@@#`, `EE+!0`.  They are counted in 32 bits.  One run that is too long for that
counts as the largest number (`digitCount`), but the sum of two wraps around (`digitSum`).
-/

namespace MessageFormat.NumberSkeleton

open Text

/-- What an accepted token does to a format. -/
abbrev Update := NumberFormat → NumberFormat

namespace Token

/-- Accepts a token that has no options. -/
def plain (t : Token) (update : Update) : Except Fault Update :=
  if t.options.isEmpty then .ok update else .error (.unexpectedOption t.stem)

/-- The only option of a token. -/
def onlyOption (t : Token) : Except Fault String :=
  match t.options with
  | [] => .error (.missingOption t.stem)
  | [option] => .ok option
  | _ => .error (.tooManyOptions t.stem)

end Token

/-! ## Signs -/

/-- What a sign stem sets. -/
structure Sign where
  display : Option SignDisplay := none
  currency : Option CurrencySign := none
deriving DecidableEq, Repr

/-- Sets what the sign has to say and keeps the rest. -/
def Sign.update (s : Sign) : Update := fun f =>
  { f with
    signDisplay := s.display <|> f.signDisplay
    currencySign := s.currency <|> f.currencySign }

/-- The sign that a stem names. -/
def Sign.ofStem? (stem : String) : Option Sign :=
  match stem with
  | "sign-auto" => some ⟨some .auto, none⟩
  | "sign-accounting" | "()" => some ⟨none, some .accounting⟩
  | "sign-always" | "+!" => some ⟨some .always, none⟩
  | "sign-accounting-always" | "()!" => some ⟨some .always, some .accounting⟩
  | "sign-except-zero" | "+?" => some ⟨some .exceptZero, none⟩
  | "sign-accounting-except-zero" | "()?" => some ⟨some .exceptZero, some .accounting⟩
  | "sign-never" | "+_" => some ⟨some .never, none⟩
  | _ => none

/-- The signs of a list of options, in order. -/
def signsOf (stem : String) (options : List String) : Except Fault (List Sign) :=
  options.mapM fun option =>
    match Sign.ofStem? option with
    | some sign => .ok sign
    | none => .error (.invalidOption stem option)

/-! ## Precision -/

/-- The number of digits that a run of so many characters stands for. -/
def digitCount (characters : Nat) : Nat := min characters (wordSize 32 - 1)

/-- The number of digits that two runs stand for together. -/
def digitSum (first second : Nat) : Nat := (digitCount first + digitCount second) % wordSize 32

theorem digitCount_of_lt {n : Nat} (h : n < wordSize 32) : digitCount n = n := by
  rw [digitCount]
  omega

theorem digitCount_pos {n : Nat} (h : 1 ≤ n) : 1 ≤ digitCount n := by
  have hsize : wordSize 32 = 4294967296 := rfl
  rw [digitCount]
  omega

@[simp] theorem digitSum_zero (n : Nat) : digitSum n 0 = digitCount n := by
  have hsize : wordSize 32 = 4294967296 := rfl
  rw [digitSum, digitCount, digitCount, hsize]
  omega

@[simp] theorem zero_digitSum (n : Nat) : digitSum 0 n = digitCount n := by
  rw [digitSum, Nat.add_comm, ← digitSum, digitSum_zero]

theorem digitSum_of_lt {n k : Nat} (h : n + k < wordSize 32) : digitSum n k = n + k := by
  rw [digitSum, digitCount_of_lt (by omega), digitCount_of_lt (by omega), Nat.mod_eq_of_lt h]

/-- A sum is less than its first part exactly if it has wrapped around. -/
theorem digitSum_lt_iff {n k : Nat} (hn : 1 ≤ n) :
    digitSum n k < digitCount n ↔ 1 ≤ k ∧ wordSize 32 ≤ n + k := by
  have hsize : wordSize 32 = 4294967296 := rfl
  rw [digitSum, digitCount, digitCount, hsize]
  omega

/-- Bounds on the digits after the point. -/
structure FractionPrecision where
  least : Option Nat
  most : Option Nat
deriving DecidableEq, Repr

/-- Sets both bounds; one without a value is cleared. -/
def FractionPrecision.update (p : FractionPrecision) : Update := fun f =>
  { f with minimumFractionDigits := p.least, maximumFractionDigits := p.most }

/-- The bounds a pattern after the point stands for: zeros are required digits, hash signs
permitted ones, and a star lifts the upper bound. -/
def FractionPrecision.ofPattern? (pattern : List Char) : Option FractionPrecision :=
  match beforeFinal? '*' pattern with
  | some zeros => if isRunOf '0' zeros then some ⟨some (digitCount zeros.length), none⟩ else none
  | none =>
    if isRunOf '#' pattern then some ⟨none, some (digitCount pattern.length)⟩
    else
      let zeros := (pattern.takeWhile (· == '0')).length
      let rest := pattern.dropWhile (· == '0')
      if zeros = 0 then none
      else if rest.isEmpty then some ⟨some (digitCount zeros), some (digitCount zeros)⟩
      else if isRunOf '#' rest then
        some ⟨some (digitCount zeros), some (digitSum zeros rest.length)⟩
      else none

/-- Bounds on the significant digits, and whether they yield to bounds on the fraction. -/
structure SignificantPrecision where
  least : Nat
  most : Option Nat
  priority : Option RoundingPriority
deriving DecidableEq, Repr

/-- Sets the lower bound, and the rest as far as it has a value. -/
def SignificantPrecision.update (p : SignificantPrecision) : Update := fun f =>
  { f with
    minimumSignificantDigits := some p.least
    maximumSignificantDigits := p.most <|> f.maximumSignificantDigits
    roundingPriority := p.priority <|> f.roundingPriority }

/-- A final letter for the priority, and what stands before it. -/
def takePriority (pattern : List Char) : List Char × Option RoundingPriority :=
  match beforeFinal? 'r' pattern with
  | some rest => (rest, some .morePrecision)
  | none =>
    match beforeFinal? 's' pattern with
    | some rest => (rest, some .lessPrecision)
    | none => (pattern, none)

/-- The bounds a pattern stands for: at signs are required digits, hash signs permitted ones,
and a plus lifts the upper bound. -/
def SignificantPrecision.ofPattern? (pattern : List Char) : Option SignificantPrecision :=
  let (pattern, priority) := takePriority pattern
  let signs := (pattern.takeWhile (· == '@')).length
  let rest := pattern.dropWhile (· == '@')
  if signs = 0 then none
  else if rest.isEmpty then some ⟨digitCount signs, some (digitCount signs), priority⟩
  else if rest = ['+'] then some ⟨digitCount signs, none, priority⟩
  else if isRunOf '#' rest then
    some ⟨digitCount signs, some (digitSum signs rest.length), priority⟩
  else none

/-! ## Pattern stems -/

/-- A sign inside an exponent pattern, and what follows it. -/
def takeExponentSign (pattern : List Char) : Option SignDisplay × List Char :=
  match after? ['+', '!'] pattern with
  | some rest => (some .always, rest)
  | none =>
    match after? ['+', '?'] pattern with
    | some rest => (some .exceptZero, rest)
    | none => (none, pattern)

/-- The update of an exponent pattern after its first `E`: one more for engineering, an
optional sign, and zeros for the digits before the point. -/
def exponentUpdate? (pattern : List Char) : Option Update :=
  let (shape, rest) : NumberShape × List Char :=
    match after? ['E'] pattern with
    | some rest => (.engineering, rest)
    | none => (.scientific, pattern)
  let (display, zeros) := takeExponentSign rest
  if isRunOf '0' zeros then
    some fun f =>
      { f with
        shape := some shape
        signDisplay := display <|> f.signDisplay
        minimumIntegerDigits := some (digitCount zeros.length) }
  else none

/-- The update of the option after a fraction pattern. -/
def fractionOption (stem option : String) : Except Fault Update :=
  if option = "w" then .ok fun f => { f with trailingZeroDisplay := some .stripIfInteger }
  else
    match SignificantPrecision.ofPattern? option.toList with
    | some precision => .ok precision.update
    | none => .error (.invalidOption stem option)

/-- The meaning of a fraction pattern, its point already taken. -/
def fractionMeaning (t : Token) (pattern : List Char) : Except Fault Update :=
  match FractionPrecision.ofPattern? pattern with
  | none => .error (.unknownStem t.stem)
  | some precision =>
    match t.options with
    | [] => .ok precision.update
    | [option] => do
      let update ← fractionOption t.stem option
      return update ∘ precision.update
    | _ => .error (.tooManyOptions t.stem)

/-- The meaning of a token whose stem is a pattern. -/
def patternMeaning (t : Token) : Except Fault Update :=
  let stem := t.stem.toList
  if isRunOf '0' stem then
    t.plain fun f => { f with minimumIntegerDigits := some (digitCount stem.length) }
  else
    match after? ['.'] stem with
    | some pattern => fractionMeaning t pattern
    | none =>
      match SignificantPrecision.ofPattern? stem with
      | some precision => t.plain precision.update
      | none =>
        match Sign.ofStem? t.stem with
        | some sign => t.plain sign.update
        | none =>
          match after? ['E'] stem with
          | none => .error (.unknownStem t.stem)
          | some pattern =>
            match exponentUpdate? pattern with
            | some update => t.plain update
            | none =>
              if t.options.isEmpty then .error (.malformedExponent t.stem)
              else .error (.unexpectedOption t.stem)

/-! ## The vocabulary -/

/-- The least number of digits before the point that an integer width asks for.  Only a width
without an upper bound can be expressed. -/
def integerWidth (stem option : String) : Except Fault Nat :=
  let text := option.toList
  match after? ['*'] text <|> after? ['+'] text with
  | some zeros =>
    if isRunOf '0' zeros then .ok (digitCount zeros.length)
    else .error (.invalidOption stem option)
  | none =>
    if isRunOf '0' (text.dropWhile (· == '#')) then .error (.unsupportedIntegerWidth option)
    else .error (.invalidOption stem option)

/-- The factor that a scale option names: a finite number. -/
def scaleFactor (stem option : String) : Except Fault Binary64 :=
  match (Numeral.ofText? option.toList).map Binary64.ofNumeral with
  | some x => if x.isFinite then .ok x else .error (.invalidOption stem option)
  | none => .error (.invalidOption stem option)

/-- A unit without its kind: `length-meter` is `meter`. -/
def unitName (option : String) : String :=
  match cutAt? '-' option.toList with
  | some (_, unit) => String.ofList unit
  | none => option

/-- Sets the rounding mode. -/
def rounding (mode : RoundingMode) : Update := fun f => { f with roundingMode := some mode }

/-- Sets how currencies and units are shown. -/
def unitWidth (currency : CurrencyDisplay) (unit : UnitDisplay) : Update := fun f =>
  { f with currencyDisplay := some currency, unitDisplay := some unit }

/-- Sets a compact shape. -/
def compact (display : CompactDisplay) : Update := fun f =>
  { f with shape := some .compact, compactDisplay := some display }

/-- Sets a shape with an exponent and then the signs given with it. -/
def exponential (shape : NumberShape) (signs : List Sign) : Update := fun f =>
  signs.foldl (fun f sign => sign.update f) { f with shape := some shape }

/-- The meaning of a token. -/
def Token.meaning (t : Token) : Except Fault Update :=
  match t.stem with
  | "percent" | "%" => t.plain fun f => { f with style := some .percent }
  | "%x100" =>
    t.plain fun f => { f with style := some .percent, scale := some (.ofInt 100) }
  | "currency" => do
    let code ← t.onlyOption
    return fun f => { f with style := some .currency, currency := some code }
  | "group-off" | ",_" => t.plain fun f => { f with useGrouping := some false }
  | "precision-integer" | "." => t.plain fun f => { f with maximumFractionDigits := some 0 }
  | "measure-unit" | "unit" => do
    let option ← t.onlyOption
    return fun f => { f with style := some .unit, unit := some (unitName option) }
  | "compact-short" | "K" => t.plain (compact .short)
  | "compact-long" | "KK" => t.plain (compact .long)
  | "scientific" => return exponential .scientific (← signsOf t.stem t.options)
  | "engineering" => return exponential .engineering (← signsOf t.stem t.options)
  | "notation-simple" => t.plain fun f => { f with shape := some .standard }
  | "unit-width-narrow" => t.plain (unitWidth .narrowSymbol .narrow)
  | "unit-width-short" => t.plain (unitWidth .code .short)
  | "unit-width-full-name" => t.plain (unitWidth .name .long)
  | "unit-width-iso-code" => t.plain fun f => { f with currencyDisplay := some .symbol }
  | "scale" => do
    let factor ← scaleFactor t.stem (← t.onlyOption)
    return fun f => { f with scale := some factor }
  | "rounding-mode-floor" => t.plain (rounding .floor)
  | "rounding-mode-ceiling" => t.plain (rounding .ceil)
  | "rounding-mode-down" => t.plain (rounding .trunc)
  | "rounding-mode-up" => t.plain (rounding .expand)
  | "rounding-mode-half-even" => t.plain (rounding .halfEven)
  | "rounding-mode-half-down" => t.plain (rounding .halfTrunc)
  | "rounding-mode-half-up" => t.plain (rounding .halfExpand)
  | "integer-width" => do
    let width ← integerWidth t.stem (← t.onlyOption)
    return fun f => { f with minimumIntegerDigits := some width }
  | _ => patternMeaning t

/-- The format that a list of tokens stands for, or the refusal of the first token that has
no meaning. -/
def interpret (tokens : List Token) : Except Fault NumberFormat := do
  let updates ← tokens.mapM Token.meaning
  return updates.foldl (fun f update => update f) {}

/-- The format that a skeleton stands for. -/
def parse (skeleton : String) : Except Fault NumberFormat := do
  interpret (← tokenize skeleton)

end MessageFormat.NumberSkeleton
