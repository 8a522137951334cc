import MessageFormat.Cursor
import MessageFormat.Element.Basic
import MessageFormat.Event
import MessageFormat.Options

/-!
# Reading actions

A message is read by actions on a `Reader`: a cursor, and the events so far.  An action either
moves the cursor on and gives a value, or ends with a `ParseError`.  The events survive an
error, because what was done before it is still reported.

The actions of this file are the cursor operations of `Cursor` lifted to `Read`, and the ways
to fail.
-/

namespace MessageFormat

/-- The state of reading. -/
structure Reader where
  cursor : Cursor
  events : List Event := []
deriving DecidableEq, Repr

/-- An action that reads and may fail. -/
abbrev Read := EStateM ParseError Reader

namespace Read

/-- The cursor. -/
def cursor : Read Cursor := return (← get).cursor

/-- The position of the cursor. -/
def position : Read Position := return (← get).cursor.position

/-- Moves the cursor by an operation that also gives a value. -/
def moving {α : Type} (move : Cursor → α × Cursor) : Read α := fun s =>
  let (value, cursor) := move s.cursor
  .ok value { s with cursor }

/-- Reads one character. -/
def next : Read Unit := moving fun c => ((), c.next)

/-- Skips blanks. -/
def skipBlanks : Read Unit := moving fun c => ((), c.skipBlanks)

/-- Reads the given text if it comes next, and tells whether it did. -/
def accept (text : List Char) : Read Bool :=
  moving fun c =>
    match c.accept? text with
    | some c => (true, c)
    | none => (false, c)

/-- Reads a word and the span it stands at. -/
def word (read : Cursor → List Char × Cursor) : Read (List Char × Span) :=
  moving fun c =>
    let (text, d) := read c
    ((text, d.spanFrom c.position), d)

/-- Reads an identifier, possibly empty, and its span. -/
def identifier : Read (List Char × Span) := word Cursor.identifier

/-- Adds an event. -/
def report (e : Event) : Read Unit := modify fun s => { s with events := s.events ++ [e] }

/-- Fails with a fault at a span. -/
def failAt {α : Type} (span : Span) (fault : Fault) : Read α := throw ⟨fault, span⟩

/-- Fails with a fault at the span from a position to the cursor. -/
def failFrom {α : Type} (start : Position) (fault : Fault) : Read α := do
  failAt ((← cursor).spanFrom start) fault

/-- Fails with a fault at the empty span at the cursor. -/
def failHere {α : Type} (fault : Fault) : Read α := do failAt (← cursor).here fault

/-- The span from a position to the cursor, if spans are to be kept. -/
def capture (options : Options) (start : Position) : Read (Option Span) := do
  let span := (← cursor).spanFrom start
  return if options.captureSpans then some span else none

/-- Reads the brace that closes an argument or a branch opened at `opening`. -/
def closeBrace (opening : Position) : Read Unit := do
  if ← accept ['}'] then pure () else failFrom opening .unclosedArgument

end Read

/-! ## Nesting -/

/-- What the message being read is nested in. -/
structure Frame where
  /-- The nearest branch around belongs to a plural argument. -/
  inPlural : Bool := false
  /-- There is a branch around, and a closing brace ends it. -/
  inBranch : Bool := false
  /-- There is a tag around, at any distance, and a closing tag ends the message. -/
  inTag : Bool := false
deriving DecidableEq, Repr

/-- How a message inside the one being read is read: in which frame. -/
abbrev Inner := Frame → Read (List Element)

/-- The way to read one level deeper, from a construct that starts at `start`.  Without one the
nesting limit is reached. -/
def enter (options : Options) (inner : Option Inner) (start : Position) : Read Inner :=
  match inner with
  | some read => pure read
  | none => Read.failFrom start (.nestingLimit options.maxNestingDepth)

end MessageFormat
