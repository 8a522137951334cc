import MessageFormat.Cursor

/-!
# Tokens and literal text

What stands at a place of a message is decided by at most two characters: `Token.peek`.
Everything it calls text is read by `Literal.scan` as one run, up to the next place where
`Token.peek` sees structure.  The run is found character by character, by what a character
means outside of quotations, and without a look at tokens.

Inside a run the apostrophe quotes.  Two of them are one apostrophe, quoted or not.  One
before a syntax character opens a quotation that lasts to the next lone apostrophe or to
the end of the text; any other apostrophe stands for itself.
-/

namespace MessageFormat

/-- What the text around a place makes special. -/
structure TextContext where
  /-- Inside a branch of a plural argument, where `#` stands for the number. -/
  inPlural : Bool := false
  /-- Angle brackets are plain text. -/
  ignoreTag : Bool := false
deriving DecidableEq, Repr

/-- What comes next in a message. -/
inductive Token where
  | endOfText
  | text
  | argumentStart
  | closeBrace
  | pound
  | tagStart
  | closingTagStart
deriving DecidableEq, Repr

/-- What a left angle bracket starts, given the characters after it. -/
def Token.afterAngle : List Char → Token
  | [] => .text
  | c :: _ =>
    if c = '/' then .closingTagStart
    else if isAsciiLetter c then .tagStart
    else .text

/-- What comes next, read off the characters ahead. -/
def Token.peek (context : TextContext) : List Char → Token
  | [] => .endOfText
  | c :: rest =>
    if c = '{' then .argumentStart
    else if c = '}' then .closeBrace
    else if c = '#' ∧ context.inPlural then .pound
    else if c = '<' ∧ !context.ignoreTag then .afterAngle rest
    else .text

namespace Literal

/-- Whether an apostrophe before this character opens a quotation. -/
def isQuotable (context : TextContext) (c : Char) : Bool :=
  c = '{' || c = '}' || c = '<' || c = '>' || (c = '#' && context.inPlural)

/-- Whether a character stands for itself wherever it is outside of quotations. -/
def isOrdinary (context : TextContext) (c : Char) : Bool :=
  !(c = '<' || c = '{' || c = '}' || (c = '#' && context.inPlural))

/-- Whether a character is a left angle bracket that stands for itself, because there are no tags
or because what follows it makes no tag. -/
def isLoneAngle (context : TextContext) (c : Char) (rest : List Char) : Bool :=
  c = '<' && (context.ignoreTag || !rest.head?.any fun d => d = '/' || isAsciiLetter d)

/-- Whether a run of text goes on with a character, given what follows it. -/
def goesOn (context : TextContext) (c : Char) (rest : List Char) : Bool :=
  isOrdinary context c || isLoneAngle context c rest

/-- Puts a character before the text that was read. -/
def keep (c : Char) (read : List Char × Cursor) : List Char × Cursor := (c :: read.1, read.2)

/-- Reads literal text, starting inside a quotation if `quoted`. -/
def scanFrom (context : TextContext) : (quoted : Bool) → List Char → Position → List Char × Cursor
  | _, [], p => ([], ⟨[], p⟩)
  | true, '\'' :: '\'' :: rest, p =>
    keep '\'' (scanFrom context true rest ((p.advance '\'').advance '\''))
  | true, '\'' :: rest, p => scanFrom context false rest (p.advance '\'')
  | true, c :: rest, p => keep c (scanFrom context true rest (p.advance c))
  | false, '\'' :: '\'' :: rest, p =>
    keep '\'' (scanFrom context false rest ((p.advance '\'').advance '\''))
  | false, '\'' :: c :: rest, p =>
    if isQuotable context c then
      keep c (scanFrom context true rest ((p.advance '\'').advance c))
    else keep '\'' (scanFrom context false (c :: rest) (p.advance '\''))
  | false, c :: rest, p =>
    if goesOn context c rest then
      keep c (scanFrom context false rest (p.advance c))
    else ([], ⟨c :: rest, p⟩)

/-- Reads one run of literal text and returns it with its quotes resolved. -/
def scan (context : TextContext) (c : Cursor) : List Char × Cursor :=
  scanFrom context false c.rest c.position

end Literal

end MessageFormat
