import MessageFormat.Catalogue.Entry
import MessageFormat.Fault

/-!
# Diagnostics

A message of a catalogue that is refused, and where in the file the fault is.
-/

namespace MessageFormat

/-- A fault in a catalogue file. -/
structure Diagnostic where
  code : String
  message : String
  file : String
  line : UInt32
  column : UInt32
deriving DecidableEq, Repr

namespace Diagnostic

/-- The diagnostic for the message of an entry.  Its place is that of the start of the error,
taken from the message to the file. -/
def ofParseError (file : String) (entry : Catalogue.Entry) (e : ParseError) : Diagnostic :=
  let (line, column) := entry.filePosition e.span.start.line e.span.start.column
  ⟨e.kind.name, e.fault.fullMessage, file, line, column⟩

/-- The diagnostic on one line. -/
def describe (d : Diagnostic) : String :=
  s!"{d.file}:{d.line}:{d.column} {d.code} {d.message}"

/-- A diagnostic as JSON. -/
def toJson (d : Diagnostic) : Json :=
  .obj
    [("code", .str d.code), ("message", .str d.message), ("file", .str d.file),
     ("line", .ofNat d.line.toNat), ("column", .ofNat d.column.toNat),
     ("display", .str d.describe)]

end Diagnostic

end MessageFormat
