import MessageFormat.Parse.Reader

/-!
# Plural and select arguments

A plural or select argument is a list of branches, each a selector and a message in braces.  A
selector is an identifier; in a plural argument it may also be `=` and an integer.  A plural
argument may begin with an offset.

Branches are read until no selector comes next.  That each of them takes at least its two
braces bounds their number by the length of the rest.
-/

namespace MessageFormat

/-- The argument that branches are read for. -/
inductive Choice where
  | select
  | plural (kind : PluralKind)
deriving DecidableEq, Repr

namespace Choice

/-- The family that faults name. -/
def family : Choice → ChoiceFamily
  | .select => .select
  | .plural _ => .plural

/-- Whether the branches belong to a plural argument. -/
def isPlural : Choice → Bool
  | .select => false
  | .plural _ => true

/-- The element made of a choice and its branches. -/
def element (choice : Choice) (name : String) (offset : Nat) (branches : List Branch)
    (span : Option Span) : Element :=
  match choice with
  | .select => .select name branches span
  | .plural kind => .plural name kind offset branches span

end Choice

namespace Read

/-! ## Integers -/

/-- An integer as it was read: its value, its text and its span. -/
structure ReadInteger where
  value : Int
  text : List Char
  span : Span

/-- Reads an optional sign. -/
def sign : Read (List Char) := do
  if ← accept ['+'] then return ['+']
  else if ← accept ['-'] then return ['-']
  else return []

/-- Reads an integer of at most sixty-three bits: an optional sign and digits.  The two faults
are for no digits at all and for a value out of range. -/
def integer (missing tooLarge : Fault) : Read ReadInteger := do
  let start ← position
  let sign ← sign
  let (digits, _) ← word fun c => c.takeWhile isAsciiDigit
  let span := (← cursor).spanFrom start
  if digits.isEmpty then failAt span missing
  else
    match natOfDigitsBelow? (wordSize 63) digits with
    | some magnitude =>
      return ⟨withSign (decide (sign = ['-'])) magnitude, sign ++ digits, span⟩
    | none => failAt span tooLarge

/-! ## Branches -/

/-- Reads the offset of a plural argument if its keyword was read as the first identifier.  The
result is the offset, and the identifier that comes after it. -/
def offset (choice : Choice) (first : List Char × Span) : Read (Nat × (List Char × Span)) := do
  if choice.isPlural ∧ first.1 = "offset".toList then
    if ← accept [':'] then
      skipBlanks
      let n ← integer .missingOffsetDigits .offsetTooLarge
      if 0 ≤ n.value ∧ n.value < wordSize 32 then
        skipBlanks
        return (n.value.toNat, ← identifier)
      else failAt n.span (.offsetOutOfRange n.value)
    else failHere .missingOffset
  else return (0, first)

/-- The selector that an identifier stands for.  If the identifier is empty, an exact selector
may follow in a plural argument; otherwise there is no further selector. -/
def selector? (choice : Choice) (identifier : List Char × Span) :
    Read (Option (String × Span)) := do
  if !identifier.1.isEmpty then return some (String.ofList identifier.1, identifier.2)
  else
    let start ← position
    if choice.isPlural then
      if ← accept ['='] then
        let n ← integer .missingSelectorDigits .selectorTooLarge
        return some (String.ofList ('=' :: n.text), (← cursor).spanFrom start)
      else return none
    else return none

/-- Reads the branch of a selector, which none of the `earlier` branches may have. -/
def branch (options : Options) (inner : Option Inner) (frame : Frame) (choice : Choice)
    (earlier : List Branch) (selector : String) (span : Span) : Read Branch := do
  if earlier.any (fun b => b.selector == selector) then
    failAt span (.duplicateSelector choice.family selector)
  else
    skipBlanks
    let start ← position
    if ← accept ['{'] then
      let read ← enter options inner start
      let body ← read { frame with inPlural := choice.isPlural, inBranch := true }
      closeBrace start
      return .mk selector body (← capture options start)
    else failHere (.missingFragment choice.family selector)

/-- Reads branches, starting with the one of an identifier already read, until there is no
further selector.  `n` is more than the number of branches that can follow. -/
def branchesFrom (options : Options) (inner : Option Inner) (frame : Frame) (choice : Choice) :
    (n : Nat) → (earlier : List Branch) → List Char × Span → Read (List Branch)
  | 0, earlier, _ => return earlier
  | n + 1, earlier, first => do
    match ← selector? choice first with
    | none => return earlier
    | some (selector, span) =>
      let b ← branch options inner frame choice earlier selector span
      skipBlanks
      branchesFrom options inner frame choice n (earlier ++ [b]) (← identifier)

/-- Reads all branches, of which there must be at least one, and one with the selector `other`
if that is required. -/
def branches (options : Options) (inner : Option Inner) (frame : Frame) (choice : Choice)
    (first : List Char × Span) : Read (List Branch) := do
  let n := (← cursor).rest.length + 1
  let branches ← branchesFrom options inner frame choice n [] first
  if branches.isEmpty then failHere (.missingSelector choice.family)
  else if options.requiresOther && !branches.any (fun b => b.selector == "other") then
    failFrom first.2.start .missingOther
  else return branches

/-- Reads the rest of a plural or select argument, after its type word. -/
def choice (options : Options) (inner : Option Inner) (frame : Frame) (choice : Choice)
    (name : String) (opening : Position) : Read Element := do
  let typeEnd ← position
  skipBlanks
  if ← accept [','] then
    skipBlanks
    let (offset, first) ← offset choice (← identifier)
    let branches ← branches options inner frame choice first
    closeBrace opening
    return choice.element name offset branches (← capture options opening)
  else failAt (.empty typeEnd) (.missingOptions name)

end Read

end MessageFormat
