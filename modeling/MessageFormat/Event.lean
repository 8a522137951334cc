import MessageFormat.Fault

/-!
# Events

What the library reports about its work, in the order it happens.  An event has a level, a
text and named values, which `Event.level`, `Event.message` and `Event.fields` give for each.
-/

namespace MessageFormat

/-- How much an event matters. -/
inductive Level where
  | trace
  | debug
  | info
deriving DecidableEq, Repr

instance : Named Level where
  members := [.trace, .debug, .info]
  name
    | .trace => "TRACE"
    | .debug => "DEBUG"
    | .info => "INFO"

/-- Something that happened. -/
inductive Event where
  /-- A message is about to be read; its length is in bytes. -/
  | parsing (length : Nat) (ignoreTag : Bool)
  /-- A message was read. -/
  | parsed (elements : Nat)
  /-- A message was refused. -/
  | refused (kind : ErrorKind) (line column : UInt32)
  /-- A number skeleton is about to be read. -/
  | numberSkeleton (skeleton : String)
  /-- A date/time skeleton is about to be read. -/
  | dateTimeSkeleton (skeleton : String)
  /-- There is no configuration file. -/
  | noConfiguration (path : String)
  /-- The entries of a catalogue are about to be checked. -/
  | validating (file : String) (entries : Nat)
  /-- All catalogues were checked. -/
  | validated (files messages diagnostics : Nat)
  /-- A display name is about to be looked up. -/
  | lookingUp (locale kind code : String)
  /-- The parse command read its message. -/
  | messageParsed (elements : Nat)
deriving DecidableEq, Repr

namespace Event

/-- How much an event matters. -/
def level : Event → Level
  | .numberSkeleton _ | .dateTimeSkeleton _ => .trace
  | .validated _ _ _ | .messageParsed _ => .info
  | _ => .debug

/-- The text of an event. -/
def message : Event → String
  | .parsing _ _ => "parsing message"
  | .parsed _ => "parsed message"
  | .refused _ _ _ => "message failed to parse"
  | .numberSkeleton _ => "parsing number skeleton"
  | .dateTimeSkeleton _ => "parsing date/time skeleton"
  | .noConfiguration _ => "config file not found, using defaults"
  | .validating _ _ => "validating source"
  | .validated _ _ _ => "validation finished"
  | .lookingUp _ _ _ => "looking up display name"
  | .messageParsed _ => "message parsed"

/-- The named values of an event. -/
def fields : Event → List (String × Json)
  | .parsing length ignoreTag => [("length", .ofNat length), ("ignore_tag", .bool ignoreTag)]
  | .parsed elements => [("elements", .ofNat elements)]
  | .refused kind line column =>
    [("kind", .str kind.name), ("line", .ofNat line.toNat), ("column", .ofNat column.toNat)]
  | .numberSkeleton skeleton => [("skeleton", .str skeleton)]
  | .dateTimeSkeleton skeleton => [("skeleton", .str skeleton)]
  | .noConfiguration path => [("path", .str path)]
  | .validating file entries => [("file", .str file), ("entries", .ofNat entries)]
  | .validated files messages diagnostics =>
    [("files", .ofNat files), ("messages", .ofNat messages), ("diagnostics", .ofNat diagnostics)]
  | .lookingUp locale kind code =>
    [("locale", .str locale), ("kind", .str kind), ("code", .str code)]
  | .messageParsed elements => [("elements", .ofNat elements)]

/-- An event as JSON: its level, and its text among its named values. -/
def toJson (e : Event) : Json :=
  .obj [("level", Named.toJson e.level), ("fields", .obj (("message", .str e.message) :: e.fields))]

end Event

end MessageFormat
