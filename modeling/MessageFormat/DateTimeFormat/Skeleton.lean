import MessageFormat.DateTimeFormat.Basic
import MessageFormat.Text.Classes

/-!
# Date/time skeletons

A date/time skeleton is a sequence of runs: one letter, repeated.  The letter names a field
and the length of the run its width.  Between runs there may be blanks and text in
apostrophes, inside which two apostrophes are one; both are skipped, and both end a run.

Reading has two steps.  `runsOf` finds the runs and whether every quotation is closed.
`parse` then takes the runs in order: each must name a supported field in a permitted width,
and no field may be named twice.  An open quotation reaches to the end of the skeleton, so it
is reported after all faults of the runs.
-/

namespace MessageFormat.DateTimeSkeleton

/-- The fields of a date and a time. -/
inductive Field where
  | era
  | year
  | month
  | day
  | weekday
  | dayPeriod
  | hour
  | minute
  | second
  | timeZone
deriving DecidableEq, Repr

/-- The name of a field in a refusal. -/
def Field.name : Field → String
  | .era => "era"
  | .year => "year"
  | .month => "month"
  | .day => "day"
  | .weekday => "weekday"
  | .dayPeriod => "day period"
  | .hour => "hour"
  | .minute => "minute"
  | .second => "second"
  | .timeZone => "time zone"

/-- Why a date/time skeleton is refused. -/
inductive Fault where
  | empty
  | unknownField (letter : Char)
  | unsupportedField (letter : Char) (kind hint : String)
  | invalidWidth (letter : Char) (width least most : Nat)
  | duplicateField (field : Field)
  | unclosedQuote
deriving DecidableEq, Repr

/-- The wording of a refusal. -/
def Fault.message : Fault → String
  | .empty => "date/time skeleton is empty"
  | .unknownField letter => s!"unknown date/time field `{letter}`"
  | .unsupportedField letter kind hint =>
    s!"`{letter}` ({kind}) patterns are not supported{hint}"
  | .invalidWidth letter width least most =>
    s!"field `{letter}` repeated {width} times, expected {least} to {most}"
  | .duplicateField field => field.name ++ " field appears more than once"
  | .unclosedQuote => "unclosed quote in date/time skeleton"

/-! ## Runs -/

/-- A letter and how often it stands in a row. -/
structure Run where
  letter : Char
  width : Nat
deriving DecidableEq, Repr

/-- Puts one more letter before the runs of a text.  It belongs to the first of them if the
text begins with the same letter. -/
def extend (c : Char) (next : Option Char) : List Run → List Run
  | [] => [⟨c, 1⟩]
  | r :: runs => if next = some c then ⟨c, r.width + 1⟩ :: runs else ⟨c, 1⟩ :: r :: runs

/-- The runs of a skeleton that starts inside a quotation if `quoted`, and whether its last
quotation is closed. -/
def scan : (quoted : Bool) → List Char → List Run × Bool
  | quoted, [] => ([], !quoted)
  | true, '\'' :: '\'' :: rest => scan true rest
  | true, '\'' :: rest => scan false rest
  | true, _ :: rest => scan true rest
  | false, c :: rest =>
    if isWhiteSpace c then scan false rest
    else if c = '\'' then scan true rest
    else
      let (runs, closed) := scan false rest
      (extend c rest.head? runs, closed)

/-- The runs of a skeleton, and whether its quotations are closed. -/
def runsOf (skeleton : String) : List Run × Bool := scan false skeleton.toList

/-! ## Fields -/

/-- What an accepted run does to a format. -/
abbrev Update := DateTimeFormat → DateTimeFormat

/-- The width of a number of at most two digits. -/
def numeric (width : Nat) : NumericWidth := if width = 2 then .twoDigit else .numeric

/-- The width of a name. -/
def textual (width : Nat) : TextWidth :=
  if width = 4 then .long else if width = 5 then .narrow else .short

/-- The width of a month. -/
def monthly (width : Nat) : MonthWidth :=
  match width with
  | 1 => .numeric
  | 2 => .twoDigit
  | 3 => .short
  | 4 => .long
  | _ => .narrow

/-- The refusal of a letter that no field answers to. -/
def unsupported (letter : Char) : Fault :=
  match letter with
  | 'Y' | 'u' | 'U' | 'r' => .unsupportedField letter "year" ", use `y` instead"
  | 'q' | 'Q' => .unsupportedField letter "quarter" ""
  | 'w' | 'W' => .unsupportedField letter "week" ""
  | 'D' | 'F' | 'g' => .unsupportedField letter "day" ", use `d` instead"
  | 'b' | 'B' => .unsupportedField letter "period" ", use `a` instead"
  | 'S' | 'A' => .unsupportedField letter "second" ", use `s` instead"
  | 'Z' | 'O' | 'v' | 'V' | 'X' | 'x' =>
    .unsupportedField letter "time zone" ", use `z` instead"
  | _ => .unknownField letter

namespace Run

/-- Accepts a run whose width lies between two bounds. -/
def within (r : Run) (least most : Nat) (field : Field) (update : Update) :
    Except Fault (Field × Update) :=
  if least ≤ r.width ∧ r.width ≤ most then .ok (field, update)
  else .error (.invalidWidth r.letter r.width least most)

/-- A run of an hour letter that fixes the cycle. -/
def cycle (r : Run) (hours : HourCycle) : Except Fault (Field × Update) :=
  r.within 1 2 .hour fun f =>
    { f with hourCycle := some hours, hour := some (numeric r.width) }

/-- The field that a run names and what it sets. -/
def meaning (r : Run) : Except Fault (Field × Update) :=
  match r.letter with
  | 'G' => r.within 1 5 .era fun f => { f with era := some (textual r.width) }
  | 'y' => r.within 1 4 .year fun f => { f with year := some (numeric r.width) }
  | 'M' | 'L' => r.within 1 5 .month fun f => { f with month := some (monthly r.width) }
  | 'd' => r.within 1 2 .day fun f => { f with day := some (numeric r.width) }
  | 'E' => r.within 1 6 .weekday fun f => { f with weekday := some (textual r.width) }
  | 'e' | 'c' =>
    if r.width < 4 then
      .error (.unsupportedField r.letter "numeric weekday" ", use `E` instead")
    else r.within 4 6 .weekday fun f => { f with weekday := some (textual r.width) }
  | 'a' => r.within 1 5 .dayPeriod fun f => { f with hour12 := some true }
  | 'h' => r.cycle .h12
  | 'H' => r.cycle .h23
  | 'K' => r.cycle .h11
  | 'k' => r.cycle .h24
  | 'j' | 'J' | 'C' => r.within 1 2 .hour fun f => { f with hour := some (numeric r.width) }
  | 'm' => r.within 1 2 .minute fun f => { f with minute := some (numeric r.width) }
  | 's' => r.within 1 2 .second fun f => { f with second := some (numeric r.width) }
  | 'z' =>
    r.within 1 4 .timeZone fun f =>
      { f with timeZoneName := some (if r.width < 4 then .short else .long) }
  | letter => .error (unsupported letter)

end Run

/-- Takes runs in order, given the fields named before and the format so far. -/
def applyRuns : (seen : List Field) → DateTimeFormat → List Run → Except Fault DateTimeFormat
  | _, format, [] => .ok format
  | seen, format, r :: runs => do
    let (field, update) ← r.meaning
    if field ∈ seen then throw (.duplicateField field)
    applyRuns (field :: seen) (update format) runs

/-- The format that a skeleton stands for. -/
def parse (skeleton : String) : Except Fault DateTimeFormat := do
  let (runs, closed) := runsOf skeleton
  let format ← applyRuns [] {} runs
  if !closed then throw .unclosedQuote
  if runs.isEmpty then throw .empty
  return format

end MessageFormat.DateTimeSkeleton
