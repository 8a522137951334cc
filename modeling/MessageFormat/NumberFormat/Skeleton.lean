import MessageFormat.Json.Basic
import MessageFormat.Text.Pieces

/-!
# Number skeletons: tokens

A number skeleton is a list of words separated by blanks.  A word is a stem and any number of
options, with a slash before each option.  A stem may be empty, an option may not.
-/

namespace MessageFormat.NumberSkeleton

/-- A stem with its options. -/
structure Token where
  stem : String
  options : List String
deriving DecidableEq, Repr

/-- Why a number skeleton is refused. -/
inductive Fault where
  | empty
  | emptyOption (word : String)
  | unknownStem (stem : String)
  | missingOption (stem : String)
  | unexpectedOption (stem : String)
  | tooManyOptions (stem : String)
  | invalidOption (stem option : String)
  | malformedExponent (stem : String)
  | unsupportedIntegerWidth (option : String)
deriving DecidableEq, Repr

/-- The wording of a refusal. -/
def Fault.message : Fault → String
  | .empty => "number skeleton is empty"
  | .emptyOption word => s!"number skeleton token `{word}` has an empty option"
  | .unknownStem stem => s!"unknown number skeleton stem `{stem}`"
  | .missingOption stem => s!"stem `{stem}` requires an option"
  | .unexpectedOption stem => s!"stem `{stem}` does not accept options"
  | .tooManyOptions stem => s!"stem `{stem}` accepts at most one option"
  | .invalidOption stem option => s!"invalid option `{option}` for stem `{stem}`"
  | .malformedExponent stem => s!"malformed concise notation `{stem}`"
  | .unsupportedIntegerWidth option => s!"unsupported integer width `{option}`"

/-- A token as JSON. -/
def Token.toJson (t : Token) : Json :=
  .obj [("stem", .str t.stem), ("options", .arr (t.options.map .str))]

/-- The words of a skeleton: its longest stretches without a blank. -/
def wordsOf (text : List Char) : List (List Char) :=
  (text.splitOnP isWhiteSpace).filter fun word => !word.isEmpty

/-- The token that a word stands for. -/
def tokenOf (word : List Char) : Except Fault Token :=
  match word.splitOnP (· == '/') with
  | [] => .ok ⟨"", []⟩
  | stem :: options =>
    if options.any List.isEmpty then .error (.emptyOption (String.ofList word))
    else .ok ⟨String.ofList stem, options.map String.ofList⟩

/-- The tokens of a skeleton, of which there is at least one. -/
def tokenize (skeleton : String) : Except Fault (List Token) := do
  let tokens ← (wordsOf skeleton.toList).mapM tokenOf
  if tokens.isEmpty then throw .empty
  return tokens

end MessageFormat.NumberSkeleton
