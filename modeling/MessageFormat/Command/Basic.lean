import MessageFormat.Catalogue.Source
import MessageFormat.Configuration.Basic
import MessageFormat.DisplayNames

/-!
# Commands

What the program can be asked to do, and why it may refuse to.
-/

namespace MessageFormat

namespace Command

/-- Read one message and write its tree. -/
structure ParseRequest where
  message : String
  ignoreTag : Bool := false
  omitSpans : Bool := false
deriving DecidableEq, Repr

/-- Check all messages of some catalogues. -/
structure ValidateRequest where
  source : String
deriving DecidableEq, Repr

/-- Name a class of faults by its number. -/
structure KindRequest where
  value : String
deriving DecidableEq, Repr

/-- Name a region, script, currency or language. -/
structure DisplayNameRequest where
  code : String
  kind : CodeKind
  /-- A locale that goes before the configured one. -/
  locale : Option String := none
  noFallback : Bool := false
deriving DecidableEq, Repr

end Command

/-- A request to the program. -/
inductive Command where
  | parse (request : Command.ParseRequest)
  | validate (request : Command.ValidateRequest)
  | kind (request : Command.KindRequest)
  | displayName (request : Command.DisplayNameRequest)
deriving DecidableEq, Repr

namespace Command

/-- Why a command is refused. -/
inductive Fault where
  | configuration (fault : Configuration.Fault)
  | message (error : ParseError)
  | source (fault : Catalogue.LoadFault)
  | notAnInteger (text : String)
  | unknownKind (kind : ErrorKind.Unknown)
  | languageTag (fault : LanguageTag.Fault)
  | invalidCode (code : DisplayNames.InvalidCode)
  | diagnostics (count : Nat)
deriving DecidableEq, Repr

/-- A refused message on one line, with its place. -/
def describeAt (e : ParseError) : String :=
  let start := e.span.start
  e.kind.name ++ s!" at {start.line}:{start.column}: " ++ e.fault.fullMessage

/-- The wording of a refusal. -/
def Fault.text : Fault → String
  | .configuration fault => "config error: " ++ fault.message
  | .message error => describeAt error
  | .source fault => fault.message
  | .notAnInteger text => s!"`{text}` is not an integer"
  | .unknownKind unknown => unknown.message
  | .languageTag fault => fault.message
  | .invalidCode code => code.message
  | .diagnostics count => s!"validation failed with {count} diagnostics"

end Command

end MessageFormat
