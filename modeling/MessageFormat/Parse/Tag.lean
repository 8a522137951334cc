import MessageFormat.Parse.Reader

/-!
# Tags

A tag is an opening tag, a message and a closing tag of the same name, or a self-closing tag,
which is literal text.  Blanks may follow the name at either end.
-/

namespace MessageFormat.Read

/-- Reads a tag name. -/
def tagName : Read String := do
  let (name, _) ← word Cursor.tagName
  return String.ofList name

/-- Reads the closing tag of the tag `name` that started at `start`. -/
def closingTag (name : String) (start : Position) : Read Unit := do
  let closingStart ← position
  if ← accept ['<', '/'] then
    let nameStart ← position
    if (← cursor).current?.any isAsciiLetter then
      let closing ← tagName
      if closing = name then
        skipBlanks
        if ← accept ['>'] then pure ()
        else failFrom closingStart (.unclosedClosingTag name)
      else failFrom nameStart (.mismatchedClosingTag closing name)
    else failFrom closingStart .missingClosingName
  else failFrom start (.unclosedTag name)

/-- Whether a character may follow the name in an opening tag. -/
def endsTagName (c : Char) : Bool := isPatternWhiteSpace c || c = '/' || c = '>'

/-- Reads the rest of an opening tag and what belongs to it, after its name. -/
def afterTagName (options : Options) (inner : Option Inner) (frame : Frame) (start : Position)
    (name : String) : Read Element := do
  skipBlanks
  if ← accept ['/', '>'] then
    return .literal ("<" ++ name ++ "/>") (← capture options start)
  else if ← accept ['>'] then
    let read ← enter options inner start
    let children ← read { frame with inTag := true }
    closingTag name start
    return .tag name children (← capture options start)
  else failFrom start (.unclosedOpeningTag name)

/-- Reads a tag. -/
def tag (options : Options) (inner : Option Inner) (frame : Frame) : Read Element := do
  let start ← position
  next
  let name ← tagName
  match (← cursor).current? with
  | none => afterTagName options inner frame start name
  | some c =>
    if endsTagName c then afterTagName options inner frame start name
    else
      next
      failFrom start (.invalidTagName c name)

end MessageFormat.Read
