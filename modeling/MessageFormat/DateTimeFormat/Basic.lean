import MessageFormat.Json.Basic

/-!
# Date and time formats

`DateTimeFormat` collects what a date/time skeleton can ask for: which fields appear and how
wide each of them is.  A component without a value is a field that does not appear.
-/

namespace MessageFormat

/-- The width of a field that is always a number. -/
inductive NumericWidth where
  | numeric
  | twoDigit
deriving DecidableEq, Repr

instance : Named NumericWidth where
  members := [.numeric, .twoDigit]
  name
    | .numeric => "numeric"
    | .twoDigit => "2-digit"

/-- The width of a month, which is a number or a name. -/
inductive MonthWidth where
  | numeric
  | twoDigit
  | short
  | long
  | narrow
deriving DecidableEq, Repr

instance : Named MonthWidth where
  members := [.numeric, .twoDigit, .short, .long, .narrow]
  name
    | .numeric => "numeric"
    | .twoDigit => "2-digit"
    | .short => "short"
    | .long => "long"
    | .narrow => "narrow"

/-- The width of a field that is always a name. -/
inductive TextWidth where
  | short
  | long
  | narrow
deriving DecidableEq, Repr

instance : Named TextWidth where
  members := [.short, .long, .narrow]
  name
    | .short => "short"
    | .long => "long"
    | .narrow => "narrow"

/-- The width of a time zone name. -/
inductive TimeZoneNameWidth where
  | short
  | long
deriving DecidableEq, Repr

instance : Named TimeZoneNameWidth where
  members := [.short, .long]
  name
    | .short => "short"
    | .long => "long"

/-- How the hours of a day are counted. -/
inductive HourCycle where
  | h11
  | h12
  | h23
  | h24
deriving DecidableEq, Repr

instance : Named HourCycle where
  members := [.h11, .h12, .h23, .h24]
  name
    | .h11 => "h11"
    | .h12 => "h12"
    | .h23 => "h23"
    | .h24 => "h24"

/-- What a date/time skeleton asks for. -/
structure DateTimeFormat where
  era : Option TextWidth := none
  year : Option NumericWidth := none
  month : Option MonthWidth := none
  day : Option NumericWidth := none
  weekday : Option TextWidth := none
  hour12 : Option Bool := none
  hourCycle : Option HourCycle := none
  hour : Option NumericWidth := none
  minute : Option NumericWidth := none
  second : Option NumericWidth := none
  timeZoneName : Option TimeZoneNameWidth := none
deriving DecidableEq, Repr

namespace DateTimeFormat

/-- The format as a JSON object. -/
def toJson (f : DateTimeFormat) : Json :=
  .ofFields
    [("era", f.era.map Named.toJson),
     ("year", f.year.map Named.toJson),
     ("month", f.month.map Named.toJson),
     ("day", f.day.map Named.toJson),
     ("weekday", f.weekday.map Named.toJson),
     ("hour12", f.hour12.map .bool),
     ("hourCycle", f.hourCycle.map Named.toJson),
     ("hour", f.hour.map Named.toJson),
     ("minute", f.minute.map Named.toJson),
     ("second", f.second.map Named.toJson),
     ("timeZoneName", f.timeZoneName.map Named.toJson)]

/-- Reads a format. -/
def ofJson? (j : Json) : Option DateTimeFormat :=
  if j.isRecord 11 11 then do
    let named {α : Type} [Named α] (place : Nat) (name : String) : Option (Option α) :=
      Json.optional? Named.ofJson? (j.component? place name)
    return {
      era := ← named 0 "era"
      year := ← named 1 "year"
      month := ← named 2 "month"
      day := ← named 3 "day"
      weekday := ← named 4 "weekday"
      hour12 := ← Json.optional? Json.bool? (j.component? 5 "hour12")
      hourCycle := ← named 6 "hourCycle"
      hour := ← named 7 "hour"
      minute := ← named 8 "minute"
      second := ← named 9 "second"
      timeZoneName := ← named 10 "timeZoneName" }
  else none

end DateTimeFormat

end MessageFormat
