import MessageFormat.Decimal.Numeral
import MessageFormat.Text.Pieces

/-!
# Log filters

Which events are written is chosen by a filter: a list of directives separated by commas.  A
directive is a level, or a target with a level.  A target is the name of a part of the
program, a span in square brackets, or both; a span may have a field in braces.  The level
may be left out, and a word that is no level is a name.
-/

namespace MessageFormat.LogFilter

/-- Why a filter is refused. -/
inductive Fault where
  | directive
  | level
deriving DecidableEq, Repr

/-- The wording of a refusal. -/
def Fault.message : Fault → String
  | .directive => "invalid filter directive"
  | .level =>
    "error parsing level filter: expected one of \"off\", \"error\", \"warn\", \"info\", " ++
      "\"debug\", \"trace\", or a number 0-5"

/-- Whether a text names a level, in any case, or numbers one. -/
def isLevel (text : List Char) : Bool :=
  String.ofList (text.map Char.toLower) ∈ ["off", "error", "warn", "info", "debug", "trace"] ||
    (text.head? != some '-' && (integerOf? text).any fun n => decide (n ≤ 5))

/-- Whether the name of a part may start with a character. -/
def startsName (c : Char) : Bool :=
  isAsciiLetter c || isAsciiDigit c || c = '-' || c = ':' || c = '_' || decide (128 ≤ c.toNat)

/-- Checks the level after an equals sign, which may be empty. -/
def checkLevel (text : List Char) : Except Fault Unit :=
  if text.isEmpty || isLevel text then .ok () else .error .level

/-- Checks what follows a span. -/
def checkAfterSpan : List Char → Except Fault Unit
  | [] => .ok ()
  | '=' :: level => checkLevel level
  | _ => .error .directive

/-- Checks a span, its bracket already taken, and what follows it. -/
def checkSpan (text : List Char) : Except Fault Unit :=
  match text.dropWhile fun c => c != ']' && c != '{' with
  | ']' :: rest => checkAfterSpan rest
  | '{' :: field =>
    match field.dropWhile (· != '}') with
    | '}' :: ']' :: rest =>
      if field.head? = some '}' then .error .directive else checkAfterSpan rest
    | _ => .error .directive
  | _ => .error .directive

/-- Checks one directive. -/
def checkDirective (text : List Char) : Except Fault Unit :=
  let text := Text.trim text
  if text.head? = some '[' then checkSpan text.tail
  else if !text.head?.any startsName then .error .directive
  else
    match text.dropWhile fun c => c != '=' && c != '[' with
    | '=' :: level => checkLevel level
    | '[' :: span => checkSpan span
    | _ => .ok ()

/-- Checks a filter. -/
def check (filter : String) : Except Fault Unit :=
  let directives := (filter.toList.splitOnP (· == ',')).filter fun d => !d.isEmpty
  directives.forM checkDirective

end MessageFormat.LogFilter
