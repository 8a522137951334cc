import MessageFormat.Text.Pieces

/-!
# Catalogues of messages

A catalogue is a text of entries.  An entry starts on a line with a key, an equals sign and
the beginning of a message, and goes on over all lines up to the next blank one.  Between
entries, lines that start with `#` or `//` are comments.

Every line is taken without its trailing blanks; a message starts at the first character after
the blanks that follow the equals sign, and its further lines keep their indentation.

Lines and columns have 32 bits.  Those of an entry or a fault are counted first and clamped then, so
that the last line and the last column stand for all that come after them; a position inside a
message is added to that of its entry, and the sum wraps around.
-/

namespace MessageFormat.Catalogue

/-- A message with its key, and the line and column where it starts. -/
structure Entry where
  key : String
  value : String
  line : UInt32
  column : UInt32
deriving DecidableEq, Repr

/-- Why a line is no start of an entry. -/
inductive Fault where
  | missingEquals
  | missingKey
  | invalidKey (key : String)
deriving DecidableEq, Repr

/-- The wording of a fault. -/
def Fault.message : Fault → String
  | .missingEquals => "expected '=' in entry"
  | .missingKey => "missing key"
  | .invalidKey key => s!"invalid key `{key}`"

/-- A fault and where it is. -/
structure SourceError where
  fault : Fault
  line : UInt32
  column : UInt32
deriving DecidableEq, Repr

/-- The error on one line. -/
def SourceError.describe (e : SourceError) : String :=
  s!"{e.line}:{e.column} " ++ e.fault.message

/-- What keys are made of. -/
def isKeyChar (c : Char) : Bool :=
  isAsciiLetter c || isAsciiDigit c || c = '.' || c = '_' || c = '-'

/-- Whether a line between entries is blank or a comment. -/
def isSkipped (line : List Char) : Bool :=
  let text := Text.trimStart line
  text.isEmpty || ['#'].isPrefixOf text || ['/', '/'].isPrefixOf text

/-- The column behind some characters of a line. -/
def columnBehind (characters : Nat) : UInt32 := .ofNatClamp (characters + 1)

/-- Reads the first line of an entry, which has no trailing blanks. -/
def startEntry (number : UInt32) (line : List Char) : Except SourceError Entry :=
  match Text.cutAt? '=' line with
  | none => .error ⟨.missingEquals, number, 1⟩
  | some (before, after) =>
    let key := Text.trim before
    if key.isEmpty then .error ⟨.missingKey, number, 1⟩
    else if key.all isKeyChar then
      let value := Text.trimStart after
      .ok ⟨String.ofList key, String.ofList value, number,
        columnBehind (line.length - value.length)⟩
    else
      let indent := line.length - (Text.trimStart line).length
      .error ⟨.invalidKey (String.ofList key), number, columnBehind indent⟩

/-- Adds a line to the message of an entry. -/
def Entry.continued (e : Entry) (line : List Char) : Entry :=
  { e with value := e.value ++ "\n" ++ String.ofList line }

/-- Reads lines, numbered from `number`, after an entry that may still be open. -/
def readLines : (number : Nat) → (current : Option Entry) → List (List Char) →
    Except SourceError (List Entry)
  | _, current, [] => .ok current.toList
  | number, some entry, line :: lines => do
    let line := Text.trimEnd line
    if line.isEmpty then return entry :: (← readLines (number + 1) none lines)
    else readLines (number + 1) (some (entry.continued line)) lines
  | number, none, line :: lines => do
    let line := Text.trimEnd line
    if isSkipped line then readLines (number + 1) none lines
    else readLines (number + 1) (some (← startEntry (.ofNatClamp number) line)) lines

/-- The entries of a catalogue, or its first fault. -/
def parse (text : String) : Except SourceError (List Entry) :=
  readLines 1 none (Text.lines text.toList)

/-- The line and column in the file of a position inside the message of an entry. -/
def Entry.filePosition (e : Entry) (line column : UInt32) : UInt32 × UInt32 :=
  if line ≤ 1 then (e.line, e.column + column - 1) else (e.line + line - 1, column)

end MessageFormat.Catalogue
