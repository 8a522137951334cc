/-!
# Positions and spans

A `Position` is a point of a text: its offset in UTF-8 bytes, its line and its column.  A
`Span` is the stretch between two positions, and `Span.slice?` is the text it covers.

Lines and columns have 32 bits and wrap around, while an offset is as large as the text is long.
A text of fewer than `2 ^ 32 - 1` characters has no line and no column that wraps.

Positions are never computed from an offset.  They are carried along while a text is read,
one `Position.advance` per character, so that the position after a text is
`Position.start.advanceAll` of its characters.
-/

namespace MessageFormat

/-- A point of a text.  The offset counts bytes of its UTF-8 form from zero; lines and
columns count from one, a column counts characters, and only a line feed starts a new
line. -/
structure Position where
  offset : Nat
  line : UInt32
  column : UInt32
deriving DecidableEq, Repr

namespace Position

/-- The position before the first character. -/
def start : Position := ⟨0, 1, 1⟩

/-- The position after one more character. -/
def advance (p : Position) (c : Char) : Position :=
  if c = '\n' then ⟨p.offset + c.utf8Size, p.line + 1, 1⟩
  else ⟨p.offset + c.utf8Size, p.line, p.column + 1⟩

/-- The position after all characters of a text. -/
def advanceAll (p : Position) (text : List Char) : Position :=
  text.foldl advance p

@[simp] theorem advanceAll_nil (p : Position) : p.advanceAll [] = p := rfl

@[simp] theorem advanceAll_cons (p : Position) (c : Char) (text : List Char) :
    p.advanceAll (c :: text) = (p.advance c).advanceAll text := rfl

theorem advanceAll_append (p : Position) (s t : List Char) :
    p.advanceAll (s ++ t) = (p.advanceAll s).advanceAll t :=
  List.foldl_append

end Position

/-- A stretch of text, from `start` up to but not including `stop`. -/
structure Span where
  start : Position
  stop : Position
deriving DecidableEq, Repr

namespace Span

/-- Two positions that are no span. -/
inductive OrderError where
  | endsBeforeStart
deriving DecidableEq, Repr

/-- The wording of a refused span. -/
def OrderError.message : OrderError → String
  | .endsBeforeStart => "location ends before it starts"

/-- The span between two positions, refused when the second one lies before the first. -/
def between (start stop : Position) : Except OrderError Span :=
  if start.offset ≤ stop.offset then .ok ⟨start, stop⟩ else .error .endsBeforeStart

/-- The empty span at a position. -/
def empty (p : Position) : Span := ⟨p, p⟩

/-- The number of bytes covered. -/
def size (s : Span) : Nat := s.stop.offset - s.start.offset

/-- Whether the span covers nothing. -/
def isEmpty (s : Span) : Bool := s.start.offset == s.stop.offset

end Span

/-- A text cut after exactly `n` bytes, or nothing when the text is shorter or the cut would
fall inside a character. -/
def cutAtByte : Nat → List Char → Option (List Char × List Char)
  | 0, text => some ([], text)
  | _ + 1, [] => none
  | n + 1, c :: text =>
    if c.utf8Size ≤ n + 1 then
      (cutAtByte (n + 1 - c.utf8Size) text).map fun (before, after) => (c :: before, after)
    else none

/-- The text between two byte offsets of a source, or nothing when the range leaves the
source or cuts a character. -/
def Span.slice? (s : Span) (source : String) : Option String :=
  if s.start.offset ≤ s.stop.offset then do
    let (_, rest) ← cutAtByte s.start.offset source.toList
    let (covered, _) ← cutAtByte s.size rest
    return String.ofList covered
  else none

end MessageFormat
