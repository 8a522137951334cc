import MessageFormat.Position
import MessageFormat.Text.Classes

/-!
# The cursor

A `Cursor` is what is left of a text together with the position reached.  Every operation
here moves it forward by reading characters of the rest one by one, so the position is
always the true one: if `c` has become `d` then the characters of `c.rest` that `d.rest`
lacks lead from `c.position` to `d.position`.
-/

namespace MessageFormat

/-- The unread rest of a text and the position where it starts. -/
structure Cursor where
  rest : List Char
  position : Position
deriving DecidableEq, Repr

namespace Cursor

/-- The cursor before the first character of a text. -/
def ofString (text : String) : Cursor := ⟨text.toList, .start⟩

/-- Whether nothing is left. -/
def isAtEnd (c : Cursor) : Bool := c.rest.isEmpty

/-- The next character. -/
def current? (c : Cursor) : Option Char := c.rest.head?

/-- The character after the next one. -/
def peek? (c : Cursor) : Option Char := c.rest.tail.head?

/-- The span from an earlier position to here. -/
def spanFrom (c : Cursor) (start : Position) : Span := ⟨start, c.position⟩

/-- The empty span here. -/
def here (c : Cursor) : Span := .empty c.position

/-- Reads one character; at the end it stays. -/
def next : Cursor → Cursor
  | ⟨[], p⟩ => ⟨[], p⟩
  | ⟨ch :: rest, p⟩ => ⟨rest, p.advance ch⟩

/-- Reads the given text, if it comes next. -/
def accept? (c : Cursor) : List Char → Option Cursor
  | [] => some c
  | ch :: text => if c.current? = some ch then c.next.accept? text else none

/-- Reads the characters of a text while they satisfy a test. -/
def takeWhileFrom (test : Char → Bool) : List Char → Position → List Char × Cursor
  | [], p => ([], ⟨[], p⟩)
  | ch :: rest, p =>
    if test ch then
      let (taken, c) := takeWhileFrom test rest (p.advance ch)
      (ch :: taken, c)
    else ([], ⟨ch :: rest, p⟩)

/-- Reads characters while they satisfy a test, and returns them. -/
def takeWhile (c : Cursor) (test : Char → Bool) : List Char × Cursor :=
  takeWhileFrom test c.rest c.position

/-- Skips the blanks of a message. -/
def skipBlanks (c : Cursor) : Cursor := (c.takeWhile isPatternWhiteSpace).2

/-- Moves to the next `mark` without reading it.  The answer tells whether there is one;
without one the cursor ends at the end of the text. -/
def seek (c : Cursor) (mark : Char) : Bool × Cursor :=
  let (_, found) := c.takeWhile (· != mark)
  (!found.isAtEnd, found)

/-- Reads an argument name, a selector or a type word, possibly empty. -/
def identifier (c : Cursor) : List Char × Cursor := c.takeWhile isIdentifierChar

/-- Reads a tag name, possibly empty. -/
def tagName (c : Cursor) : List Char × Cursor := c.takeWhile isTagNameChar

end Cursor

end MessageFormat
