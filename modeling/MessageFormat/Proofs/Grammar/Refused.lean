import Mathlib.Logic.Relation
import MessageFormat.Proofs.Grammar.Written

/-!
# How a text fails to be a message

A text that is not the written form of a message is refused at its first fault.  The fault is
found at a `Place`: in front of an element of the message or of a message nested in it.  Getting
there takes a number of steps, each of which passes a whole element, enters a tag, or enters a
branch of a plural or select argument (`Place.Step`).  What is wrong there is said by `FaultAt`,
without recursion, by what has been written up to the fault and what is missing after it.

`Refused options place e` puts the two together.  Like `Written` it speaks of texts and cursors
only.  Every rule gives its error as `faultAt fault a b` with the two cursors it is reported
between, except where a part of the grammar has faults of its own.
-/

namespace MessageFormat

/-! ## Integers and offsets -/

/-- An optional sign and as many digits as there are. -/
def NumeralWritten (c : Cursor) (sign digits : List Char) (d : Cursor) : Prop :=
  IsSign sign ∧ (sign = [] → c.current? ≠ some '+' ∧ c.current? ≠ some '-') ∧
    ∃ m, c.Reads sign m ∧ m.Run isAsciiDigit digits d

/-- What can be wrong with an integer. -/
inductive IntegerFault (missing tooLarge : Fault) (c : Cursor) : ParseError → Prop
  | missing {sign : List Char} {d : Cursor} (numeral : NumeralWritten c sign [] d) :
      IntegerFault missing tooLarge c (faultAt missing c d)
  | tooLarge {sign digits : List Char} {d : Cursor} (numeral : NumeralWritten c sign digits d)
      (large : wordSize 63 ≤ natOfDigits digits) :
      IntegerFault missing tooLarge c (faultAt tooLarge c d)

/-- What can be wrong with the offset of a plural argument, in front of its keyword. -/
inductive OffsetFault (c : Cursor) : ParseError → Prop
  | missing {d : Cursor} (keyword : c.Run isIdentifierChar "offset".toList d)
      (colon : d.current? ≠ some ':') :
      OffsetFault c (faultAt .missingOffset d d)
  | integer {blanks : List Char} {m : Cursor} {e : ParseError}
      (reads : c.Reads ("offset:".toList ++ blanks) m) (blank : IsBlank blanks)
      (fault : IntegerFault .missingOffsetDigits .offsetTooLarge m e) :
      OffsetFault c e
  | range {blanks sign digits : List Char} {m d : Cursor}
      (reads : c.Reads ("offset:".toList ++ blanks) m) (blank : IsBlank blanks)
      (numeral : NumeralWritten m sign digits d) (nonempty : digits ≠ [])
      (large : ¬(natOfDigits digits < wordSize 32 ∧ (sign = ['-'] → natOfDigits digits = 0))) :
      OffsetFault c (faultAt
        (.offsetOutOfRange (withSign (decide (sign = ['-'])) (natOfDigits digits))) m d)

/-! ## Plural and select arguments -/

/-- A plural or select argument from its brace `c` up to `m`, after the branches `list`.  The
first of them begins at `first`. -/
def ChoiceBegun (options : Options) (depth : Nat) (frame : Frame) (c : Cursor) (choice : Choice)
    (list : List Branch) (first m : Cursor) : Prop :=
  ∃ name n c₁ c₂, TypeWritten c name choice.word c₁ ∧ CommaWritten c₁ c₂ ∧
    OffsetWritten choice c₂ n first ∧
    Written options depth frame (.branches choice list) first m

/-- A branch that comes after those of `list`, up to the brace `s` that opens it. -/
def BranchBegun (options : Options) (depth : Nat) (frame : Frame) (c : Cursor) (choice : Choice)
    (list : List Branch) (selector : List Char) (s : Cursor) : Prop :=
  ∃ first m blanks, ChoiceBegun options depth frame c choice list first m ∧
    IsSelector choice selector ∧ IsBlank blanks ∧ m.Reads (selector ++ blanks) s

/-- What can be wrong with a plural or select argument, inside its branches apart. -/
inductive ChoiceFault (options : Options) (depth : Nat) (frame : Frame) (c : Cursor) :
    ParseError → Prop
  | missingOptions {choice : Choice} {name : List Char} {d m : Cursor} {blanks : List Char}
      (head : TypeWritten c name choice.word d) (gap : d.Run isPatternWhiteSpace blanks m)
      (comma : m.current? ≠ some ',') :
      ChoiceFault options depth frame c (faultAt (.missingOptions (String.ofList name)) d d)
  | offset {choice : Choice} {name : List Char} {c₁ c₂ : Cursor} {e : ParseError}
      (plural : choice.isPlural = true) (head : TypeWritten c name choice.word c₁)
      (comma : CommaWritten c₁ c₂) (fault : OffsetFault c₂ e) :
      ChoiceFault options depth frame c e
  | selector {choice : Choice} {list : List Branch} {first m m' : Cursor} {e : ParseError}
      (plural : choice.isPlural = true)
      (begun : ChoiceBegun options depth frame c choice list first m) (equals : m.Reads ['='] m')
      (fault : IntegerFault .missingSelectorDigits .selectorTooLarge m' e) :
      ChoiceFault options depth frame c e
  | duplicate {choice : Choice} {list : List Branch} {selector : List Char} {first m d : Cursor}
      (begun : ChoiceBegun options depth frame c choice list first m)
      (selects : IsSelector choice selector) (reads : m.Reads selector d)
      (again : ∃ b ∈ list, b.selector = String.ofList selector) :
      ChoiceFault options depth frame c
        (faultAt (.duplicateSelector choice.family (String.ofList selector)) m d)
  | missingFragment {choice : Choice} {list : List Branch} {selector : List Char} {s : Cursor}
      (begun : BranchBegun options depth frame c choice list selector s)
      (brace : s.current? ≠ some '{') :
      ChoiceFault options depth frame c
        (faultAt (.missingFragment choice.family (String.ofList selector)) s s)
  | nesting {choice : Choice} {list : List Branch} {selector : List Char} {s d : Cursor}
      (limit : depth = 0) (begun : BranchBegun options depth frame c choice list selector s)
      (brace : s.Reads ['{'] d) :
      ChoiceFault options depth frame c (faultAt (.nestingLimit options.maxNestingDepth) s d)
  | unclosedBranch {below : Nat} {choice : Choice} {list : List Branch} {selector : List Char}
      {es : List Element} {s b d : Cursor} (level : depth = below + 1)
      (begun : BranchBegun options depth frame c choice list selector s) (brace : s.Reads ['{'] b)
      (body : Written options below (frame.branch choice) (.message es) b d)
      (close : d.current? ≠ some '}') :
      ChoiceFault options depth frame c (faultAt .unclosedArgument s d)
  | missingSelector {choice : Choice} {first d : Cursor}
      (begun : ChoiceBegun options depth frame c choice [] first d) :
      ChoiceFault options depth frame c (faultAt (.missingSelector choice.family) d d)
  | missingOther {choice : Choice} {list : List Branch} {first d : Cursor}
      (begun : ChoiceBegun options depth frame c choice list first d) (nonempty : list ≠ [])
      (required : options.requiresOther = true) (none : ∀ b ∈ list, b.selector ≠ "other") :
      ChoiceFault options depth frame c (faultAt .missingOther first d)
  | unclosed {choice : Choice} {list : List Branch} {first d : Cursor}
      (begun : ChoiceBegun options depth frame c choice list first d)
      (close : d.current? ≠ some '}') :
      ChoiceFault options depth frame c (faultAt .unclosedArgument c d)

/-! ## Arguments -/

/-- What can be wrong with an argument, in front of its brace. -/
inductive ArgumentFault (options : Options) (depth : Nat) (frame : Frame) (c : Cursor) :
    ParseError → Prop
  | unclosed {blanks : List Char} {d : Cursor} (blank : IsBlank blanks)
      (reads : c.Reads ('{' :: blanks) d) (atEnd : d.rest = []) :
      ArgumentFault options depth frame c (faultAt .unclosedArgument c d)
  | empty {blanks : List Char} {d : Cursor} (blank : IsBlank blanks)
      (reads : c.Reads ('{' :: blanks ++ ['}']) d) :
      ArgumentFault options depth frame c (faultAt .emptyArgument c d)
  | invalidNameCharacter {blanks : List Char} {ch : Char} {d : Cursor} (blank : IsBlank blanks)
      (invalid : isIdentifierChar ch = false) (reads : c.Reads ('{' :: blanks ++ [ch]) d) :
      ArgumentFault options depth frame c (faultAt .invalidNameCharacter c d)
  | unclosedName {name : List Char} {d : Cursor} (head : NameWritten c name d)
      (atEnd : d.rest = []) :
      ArgumentFault options depth frame c (faultAt .unclosedArgument c d)
  | malformed {name : List Char} {ch : Char} {m d : Cursor} (head : NameWritten c name m)
      (brace : ch ≠ '}') (comma : ch ≠ ',') (reads : m.Reads [ch] d) :
      ArgumentFault options depth frame c (faultAt (.malformedArgument (String.ofList name)) c d)
  | unclosedComma {name : List Char} {d : Cursor} (head : TypeWritten c name [] d)
      (atEnd : d.rest = []) :
      ArgumentFault options depth frame c (faultAt .unclosedArgument c d)
  | missingType {name : List Char} {d : Cursor} (head : TypeWritten c name [] d)
      (ends : d.Ends isIdentifierChar) :
      ArgumentFault options depth frame c (faultAt (.missingType (String.ofList name)) d d)
  | invalidType {name word : List Char} {m d : Cursor} (head : TypeWritten c name [] m)
      (run : m.Run isIdentifierChar word d) (nonempty : word ≠ [])
      (unknown : String.ofList word ∉
        ["number", "date", "time", "plural", "selectordinal", "select"]) :
      ArgumentFault options depth frame c (faultAt (.invalidType (String.ofList word)) m d)
  | number {name : List Char} {m : Cursor} {e : ParseError}
      (head : TypeWritten c name "number".toList m)
      (fault : StyleFault (Style.numberPatternOf options) c m e) :
      ArgumentFault options depth frame c e
  | dateTime {name word : List Char} {m : Cursor} {e : ParseError}
      (kind : word = "date".toList ∨ word = "time".toList) (head : TypeWritten c name word m)
      (fault : StyleFault (Style.dateTimePatternOf options) c m e) :
      ArgumentFault options depth frame c e
  | choice {e : ParseError} (fault : ChoiceFault options depth frame c e) :
      ArgumentFault options depth frame c e

/-! ## Tags -/

/-- A tag from `c` up to `m`, after what it contains. -/
def TagBegun (options : Options) (depth : Nat) (frame : Frame) (c : Cursor) (name : List Char)
    (m : Cursor) : Prop :=
  ∃ below c₁ es, depth = below + 1 ∧ OpeningTagWritten c name c₁ ∧
    Written options below frame.tag (.message es) c₁ m

/-- What can be wrong with a tag, inside it apart. -/
inductive TagFault (options : Options) (depth : Nat) (frame : Frame) (c : Cursor) :
    ParseError → Prop
  | invalidName {name : List Char} {ch : Char} {d : Cursor} (tagName : IsTagName name)
      (invalid : Read.endsTagName ch = false) (reads : c.Reads ('<' :: name ++ [ch]) d) :
      TagFault options depth frame c (faultAt (.invalidTagName ch (String.ofList name)) c d)
  | unclosedOpening {name blanks : List Char} {d : Cursor} (tagName : IsTagName name)
      (blank : IsBlank blanks) (reads : c.Reads ('<' :: name ++ blanks) d)
      (bracket : d.current? ≠ some '>') :
      TagFault options depth frame c (faultAt (.unclosedOpeningTag (String.ofList name)) c d)
  | nesting {name : List Char} {d : Cursor} (limit : depth = 0)
      (opening : OpeningTagWritten c name d) :
      TagFault options depth frame c (faultAt (.nestingLimit options.maxNestingDepth) c d)
  | unclosed {name : List Char} {d : Cursor} (begun : TagBegun options depth frame c name d)
      (missing : d.accept? ['<', '/'] = none) :
      TagFault options depth frame c (faultAt (.unclosedTag (String.ofList name)) c d)
  | missingName {name : List Char} {m d : Cursor} (begun : TagBegun options depth frame c name m)
      (reads : m.Reads ['<', '/'] d) (letter : d.current?.any isAsciiLetter = false) :
      TagFault options depth frame c (faultAt .missingClosingName m d)
  | mismatched {name closing : List Char} {m s d : Cursor}
      (begun : TagBegun options depth frame c name m) (reads : m.Reads ['<', '/'] s)
      (tagName : IsTagName closing) (run : s.Run isTagNameChar closing d)
      (differ : closing ≠ name) :
      TagFault options depth frame c
        (faultAt (.mismatchedClosingTag (String.ofList closing) (String.ofList name)) s d)
  | unclosedClosing {name blanks : List Char} {m d : Cursor}
      (begun : TagBegun options depth frame c name m) (blank : IsBlank blanks)
      (reads : m.Reads ('<' :: '/' :: name ++ blanks) d) (bracket : d.current? ≠ some '>') :
      TagFault options depth frame c (faultAt (.unclosedClosingTag (String.ofList name)) m d)

/-! ## Places -/

/-- A place in front of an element, or at the end of a message, while a message is read. -/
structure Place where
  depth : Nat
  frame : Frame
  cursor : Cursor

/-- What is wrong at a place. -/
inductive FaultAt (options : Options) : Place → ParseError → Prop
  | unmatchedBrace {depth : Nat} {frame : Frame} {c d : Cursor} (outside : frame.inBranch = false)
      (reads : c.Reads ['}'] d) :
      FaultAt options ⟨depth, frame, c⟩ (faultAt .unmatchedBrace c d)
  | unexpectedClosingTag {depth : Nat} {frame : Frame} {name : List Char} {c m d : Cursor}
      (outside : frame.inTag = false) (reads : c.Reads ('<' :: '/' :: name) m)
      (ends : m.Ends isTagNameChar) (bracket : m.Reads ['>'] d ∨ d = m) :
      FaultAt options ⟨depth, frame, c⟩
        (faultAt (.unexpectedClosingTag (String.ofList name)) c d)
  | argument {depth : Nat} {frame : Frame} {c : Cursor} {e : ParseError}
      (fault : ArgumentFault options depth frame c e) : FaultAt options ⟨depth, frame, c⟩ e
  | tag {depth : Nat} {frame : Frame} {c : Cursor} {e : ParseError}
      (fault : TagFault options depth frame c e) : FaultAt options ⟨depth, frame, c⟩ e

namespace Place

/-- One step from a place to the next. -/
inductive Step (options : Options) : Place → Place → Prop
  | pass {depth : Nat} {frame : Frame} {e : Element} {c d : Cursor}
      (written : Written options depth frame (.element e) c d) :
      Step options ⟨depth, frame, c⟩ ⟨depth, frame, d⟩
  | enterTag {depth : Nat} {frame : Frame} {name : List Char} {c d : Cursor}
      (opening : OpeningTagWritten c name d) :
      Step options ⟨depth + 1, frame, c⟩ ⟨depth, frame.tag, d⟩
  | enterBranch {depth : Nat} {frame : Frame} {choice : Choice} {list : List Branch}
      {selector : List Char} {c s d : Cursor}
      (begun : BranchBegun options (depth + 1) frame c choice list selector s)
      (brace : s.Reads ['{'] d) :
      Step options ⟨depth + 1, frame, c⟩ ⟨depth, frame.branch choice, d⟩

/-- Any number of steps. -/
def Leads (options : Options) : Place → Place → Prop :=
  Relation.ReflTransGen (Step options)

end Place

/-- Reading from a place ends in an error: at a place that is reached from it there is a fault. -/
def Refused (options : Options) (place : Place) (e : ParseError) : Prop :=
  ∃ site, place.Leads options site ∧ FaultAt options site e

end MessageFormat
