import MessageFormat.Parse.Reader

/-!
# Argument styles

The style of a number, date or time argument is all text up to the brace that closes the
argument.  Braces nest inside it and text in apostrophes is skipped; here two apostrophes are
just an empty quotation.  A style that begins with two colons is a skeleton.
-/

namespace MessageFormat

namespace Style

/-- Reads style text.  `quote` is the position after the apostrophe of an open quotation, and
`depth` counts open braces.  The result is the text and the cursor at the closing brace or at
the end, or the span of a quotation that is never closed. -/
def scanFrom : (quote : Option Position) → (depth : Nat) → List Char → Position →
    Except Span (List Char × Cursor)
  | none, _, [], p => .ok ([], ⟨[], p⟩)
  | some start, _, [], p => .error ⟨start, p⟩
  | some start, depth, c :: rest, p => do
    let (text, cursor) ←
      scanFrom (if c = '\'' then none else some start) depth rest (p.advance c)
    return (c :: text, cursor)
  | none, depth, c :: rest, p =>
    if c = '}' ∧ depth = 0 then .ok ([], ⟨c :: rest, p⟩)
    else do
      let quote := if c = '\'' then some (p.advance c) else none
      let depth := if c = '{' then depth + 1 else if c = '}' then depth - 1 else depth
      let (text, cursor) ← scanFrom quote depth rest (p.advance c)
      return (c :: text, cursor)

/-- Reads style text up to the closing brace. -/
def scan (c : Cursor) : Except Span (List Char × Cursor) := scanFrom none 0 c.rest c.position

end Style

namespace Read

/-- Reads style text up to the closing brace. -/
def styleText : Read (List Char) := do
  match Style.scan (← cursor) with
  | .ok (text, c) => moving fun _ => (text, c)
  | .error span => failAt span .unclosedQuote

/-- Reads a comma and a style, or nothing.  The style is given without blanks at either end,
and with its span, to which the blanks after it belong. -/
def style? : Read (Option (List Char × Span)) := do
  skipBlanks
  if ← accept [','] then
    skipBlanks
    let start ← position
    let text := Text.trimEnd (← styleText)
    if text.isEmpty then failHere .missingStyle
    else return some (text, (← cursor).spanFrom start)
  else return none

/-- The span of a skeleton, if spans are to be kept. -/
def patternSpan (options : Options) (span : Span) : Option Span :=
  if options.captureSpans then some span else none

/-- Reads a number skeleton. -/
def numberPattern (options : Options) (skeleton : List Char) (span : Span) :
    Read NumberPattern := do
  if skeleton.isEmpty then failAt span .missingNumberSkeleton
  else
    let skeleton := String.ofList skeleton
    report (.numberSkeleton skeleton)
    match NumberSkeleton.tokenize skeleton with
    | .error cause => failAt span (.invalidNumberSkeleton skeleton cause)
    | .ok tokens =>
      if options.interpretSkeletons then
        match NumberSkeleton.interpret tokens with
        | .error cause => failAt span (.invalidNumberSkeleton skeleton cause)
        | .ok format => return ⟨tokens, format, patternSpan options span⟩
      else return ⟨tokens, {}, patternSpan options span⟩

/-- Reads a date/time skeleton. -/
def dateTimePattern (options : Options) (skeleton : List Char) (span : Span) :
    Read DateTimePattern := do
  if skeleton.isEmpty then failAt span .missingDateTimeSkeleton
  else
    let skeleton := String.ofList skeleton
    report (.dateTimeSkeleton skeleton)
    if options.interpretSkeletons then
      match DateTimeSkeleton.parse skeleton with
      | .error cause => failAt span (.invalidDateTimeSkeleton skeleton cause)
      | .ok format => return ⟨skeleton, format, patternSpan options span⟩
    else return ⟨skeleton, {}, patternSpan options span⟩

/-- Tells a skeleton from a simple style and reads it. -/
def argumentStyle {σ : Type} (pattern : List Char → Span → Read σ) :
    Option (List Char × Span) → Read (Option (ArgumentStyle σ))
  | none => return none
  | some (text, span) =>
    match Text.after? [':', ':'] text with
    | some skeleton => return some (.skeleton (← pattern (Text.trimStart skeleton) span))
    | none => return some (.simple (String.ofList text))

/-- Reads the rest of an argument with an optional style, after its type word. -/
def styled {σ : Type} (options : Options) (opening : Position)
    (pattern : List Char → Span → Read σ) : Read (Option (ArgumentStyle σ) × Option Span) := do
  let style ← style?
  closeBrace opening
  let span ← capture options opening
  return (← argumentStyle pattern style, span)

end Read

end MessageFormat
