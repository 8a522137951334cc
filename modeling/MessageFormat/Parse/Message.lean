import MessageFormat.Literal
import MessageFormat.Parse.Choice
import MessageFormat.Parse.Style
import MessageFormat.Parse.Tag

/-!
# Messages

A message is read element by element until its end: the end of the text, the brace that
closes the branch around it, or a closing tag if a tag is open.

Messages are nested.  `Read.message` recurs on the number of levels that are still allowed:
the elements of one level are read with the reader of the next one in hand, and at the last
level with none, so that going deeper is a fault.  Within a level every element takes at least
one character, which bounds their number by the length of the rest.

`parse` is the result of reading a whole text.  `parseTraced` also gives the events on the
way.
-/

namespace MessageFormat

namespace Read

/-! ## Arguments -/

/-- Reads the type word of an argument and what follows it. -/
def typedArgument (options : Options) (inner : Option Inner) (frame : Frame) (name : String)
    (opening : Position) : Read Element := do
  let (type, span) ← identifier
  match String.ofList type with
  | "" => failAt span (.missingType name)
  | "number" =>
    let (style, span) ← styled options opening (numberPattern options)
    return .number name style span
  | "date" =>
    let (style, span) ← styled options opening (dateTimePattern options)
    return .date name style span
  | "time" =>
    let (style, span) ← styled options opening (dateTimePattern options)
    return .time name style span
  | "plural" => choice options inner frame (.plural .cardinal) name opening
  | "selectordinal" => choice options inner frame (.plural .ordinal) name opening
  | "select" => choice options inner frame .select name opening
  | other => failAt span (.invalidType other)

/-- Reads what follows the name of an argument. -/
def afterName (options : Options) (inner : Option Inner) (frame : Frame) (name : String)
    (opening : Position) : Read Element := do
  skipBlanks
  match (← cursor).current? with
  | none => failFrom opening .unclosedArgument
  | some c =>
    next
    if c = '}' then return .argument name (← capture options opening)
    else if c = ',' then
      skipBlanks
      if (← cursor).isAtEnd then failFrom opening .unclosedArgument
      else typedArgument options inner frame name opening
    else failFrom opening (.malformedArgument name)

/-- Reads an argument. -/
def argument (options : Options) (inner : Option Inner) (frame : Frame) : Read Element := do
  let opening ← position
  next
  skipBlanks
  match (← cursor).current? with
  | none => failFrom opening .unclosedArgument
  | some c =>
    if c = '}' then
      next
      failFrom opening .emptyArgument
    else
      let (name, _) ← identifier
      if name.isEmpty then
        next
        failFrom opening .invalidNameCharacter
      else afterName options inner frame (String.ofList name) opening

/-! ## Elements -/

/-- Reads a run of literal text. -/
def literal (options : Options) (context : TextContext) : Read Element := do
  let start ← position
  let text ← moving (Literal.scan context)
  return .literal (String.ofList text) (← capture options start)

/-- Reads the sign that stands for the number of a plural argument. -/
def pound (options : Options) : Read Element := do
  let start ← position
  next
  return .pound (← capture options start)

/-- Fails on a closing brace that closes nothing. -/
def unmatchedBrace {α : Type} : Read α := do
  let start ← position
  next
  failFrom start .unmatchedBrace

/-- Fails on a closing tag that closes nothing. -/
def unexpectedClosingTag {α : Type} : Read α := do
  let start ← position
  let _ ← accept ['<', '/']
  let name ← tagName
  let _ ← accept ['>']
  failFrom start (.unexpectedClosingTag name)

/-- Reads the next element, or finds that the message ends here. -/
def element? (options : Options) (inner : Option Inner) (frame : Frame) :
    Read (Option Element) := do
  let context : TextContext := ⟨frame.inPlural, options.ignoreTag⟩
  match Token.peek context (← cursor).rest with
  | .endOfText => return none
  | .argumentStart => return some (← argument options inner frame)
  | .closeBrace => if frame.inBranch then return none else unmatchedBrace
  | .pound => return some (← pound options)
  | .closingTagStart => if frame.inTag then return none else unexpectedClosingTag
  | .tagStart => return some (← tag options inner frame)
  | .text => return some (← literal options context)

/-- Reads elements to the end of the message.  `n` is at least their number. -/
def elements (options : Options) (inner : Option Inner) (frame : Frame) :
    (n : Nat) → Read (List Element)
  | 0 => return []
  | n + 1 => do
    match ← element? options inner frame with
    | none => return []
    | some e => return e :: (← elements options inner frame n)

/-- Reads the elements of one level, with the way to read the next one. -/
def level (options : Options) (inner : Option Inner) : Inner := fun frame => do
  elements options inner frame (← cursor).rest.length

/-- Reads a message below which `depth` more levels may be nested. -/
def message (options : Options) : (depth : Nat) → Inner
  | 0 => level options none
  | depth + 1 => level options (some (message options depth))

end Read

/-! ## Whole texts -/

/-- Reads a whole text and tells what happened on the way. -/
def parseTraced (options : Options) (text : String) : Except ParseError Message × List Event :=
  let begun := Event.parsing text.utf8ByteSize options.ignoreTag
  match (Read.message options options.maxNestingDepth {}).run ⟨.ofString text, []⟩ with
  | .ok elements s =>
    (.ok ⟨elements, s.cursor.spanFrom .start⟩,
     begun :: s.events ++ [.parsed elements.length])
  | .error e s =>
    (.error e,
     begun :: s.events ++ [.refused e.kind e.span.start.line e.span.start.column])

/-- Reads a whole text as a message, or gives the first fault in it. -/
def parse (options : Options) (text : String) : Except ParseError Message :=
  (parseTraced options text).1

end MessageFormat
