import MessageFormat.NumberFormat.Skeleton
import MessageFormat.DateTimeFormat.Skeleton
import MessageFormat.Position

/-!
# What can be wrong with a message

A `Fault` is a cause with everything its wording needs.  Faults are classified by `ErrorKind`,
whose members have stable numbers and names.  A `ParseError` is a fault and the span it is
reported at.
-/

namespace MessageFormat

/-- The classes of faults.  Their numbers are shared with other tools: 24 is reserved and
belongs to none. -/
inductive ErrorKind where
  | other
  | expectArgumentClosingBrace
  | emptyArgument
  | malformedArgument
  | expectArgumentType
  | invalidArgumentType
  | expectArgumentStyle
  | invalidNumberSkeleton
  | invalidDateTimeSkeleton
  | expectNumberSkeleton
  | expectDateTimeSkeleton
  | unclosedQuoteInArgumentStyle
  | expectSelectArgumentOptions
  | expectPluralArgumentOffsetValue
  | invalidPluralArgumentOffsetValue
  | expectSelectArgumentSelector
  | expectPluralArgumentSelector
  | expectSelectArgumentSelectorFragment
  | expectPluralArgumentSelectorFragment
  | invalidPluralArgumentSelector
  | duplicatePluralArgumentSelector
  | duplicateSelectArgumentSelector
  | missingOtherClause
  | invalidTag
  | invalidTagName
  | unmatchedClosingTag
  | unclosedTag
  | nestingLimitExceeded
deriving DecidableEq, Repr

instance : Named ErrorKind where
  members :=
    [.other, .expectArgumentClosingBrace, .emptyArgument, .malformedArgument,
     .expectArgumentType, .invalidArgumentType, .expectArgumentStyle, .invalidNumberSkeleton,
     .invalidDateTimeSkeleton, .expectNumberSkeleton, .expectDateTimeSkeleton,
     .unclosedQuoteInArgumentStyle, .expectSelectArgumentOptions,
     .expectPluralArgumentOffsetValue, .invalidPluralArgumentOffsetValue,
     .expectSelectArgumentSelector, .expectPluralArgumentSelector,
     .expectSelectArgumentSelectorFragment, .expectPluralArgumentSelectorFragment,
     .invalidPluralArgumentSelector, .duplicatePluralArgumentSelector,
     .duplicateSelectArgumentSelector, .missingOtherClause, .invalidTag, .invalidTagName,
     .unmatchedClosingTag, .unclosedTag, .nestingLimitExceeded]
  name
    | .other => "OTHER"
    | .expectArgumentClosingBrace => "EXPECT_ARGUMENT_CLOSING_BRACE"
    | .emptyArgument => "EMPTY_ARGUMENT"
    | .malformedArgument => "MALFORMED_ARGUMENT"
    | .expectArgumentType => "EXPECT_ARGUMENT_TYPE"
    | .invalidArgumentType => "INVALID_ARGUMENT_TYPE"
    | .expectArgumentStyle => "EXPECT_ARGUMENT_STYLE"
    | .invalidNumberSkeleton => "INVALID_NUMBER_SKELETON"
    | .invalidDateTimeSkeleton => "INVALID_DATE_TIME_SKELETON"
    | .expectNumberSkeleton => "EXPECT_NUMBER_SKELETON"
    | .expectDateTimeSkeleton => "EXPECT_DATE_TIME_SKELETON"
    | .unclosedQuoteInArgumentStyle => "UNCLOSED_QUOTE_IN_ARGUMENT_STYLE"
    | .expectSelectArgumentOptions => "EXPECT_SELECT_ARGUMENT_OPTIONS"
    | .expectPluralArgumentOffsetValue => "EXPECT_PLURAL_ARGUMENT_OFFSET_VALUE"
    | .invalidPluralArgumentOffsetValue => "INVALID_PLURAL_ARGUMENT_OFFSET_VALUE"
    | .expectSelectArgumentSelector => "EXPECT_SELECT_ARGUMENT_SELECTOR"
    | .expectPluralArgumentSelector => "EXPECT_PLURAL_ARGUMENT_SELECTOR"
    | .expectSelectArgumentSelectorFragment => "EXPECT_SELECT_ARGUMENT_SELECTOR_FRAGMENT"
    | .expectPluralArgumentSelectorFragment => "EXPECT_PLURAL_ARGUMENT_SELECTOR_FRAGMENT"
    | .invalidPluralArgumentSelector => "INVALID_PLURAL_ARGUMENT_SELECTOR"
    | .duplicatePluralArgumentSelector => "DUPLICATE_PLURAL_ARGUMENT_SELECTOR"
    | .duplicateSelectArgumentSelector => "DUPLICATE_SELECT_ARGUMENT_SELECTOR"
    | .missingOtherClause => "MISSING_OTHER_CLAUSE"
    | .invalidTag => "INVALID_TAG"
    | .invalidTagName => "INVALID_TAG_NAME"
    | .unmatchedClosingTag => "UNMATCHED_CLOSING_TAG"
    | .unclosedTag => "UNCLOSED_TAG"
    | .nestingLimitExceeded => "NESTING_LIMIT_EXCEEDED"

namespace ErrorKind

/-- The name of a class. -/
def name (k : ErrorKind) : String := Named.name k

/-- The number of a class. -/
def code : ErrorKind → Nat
  | .other => 0
  | .expectArgumentClosingBrace => 1
  | .emptyArgument => 2
  | .malformedArgument => 3
  | .expectArgumentType => 4
  | .invalidArgumentType => 5
  | .expectArgumentStyle => 6
  | .invalidNumberSkeleton => 7
  | .invalidDateTimeSkeleton => 8
  | .expectNumberSkeleton => 9
  | .expectDateTimeSkeleton => 10
  | .unclosedQuoteInArgumentStyle => 11
  | .expectSelectArgumentOptions => 12
  | .expectPluralArgumentOffsetValue => 13
  | .invalidPluralArgumentOffsetValue => 14
  | .expectSelectArgumentSelector => 15
  | .expectPluralArgumentSelector => 16
  | .expectSelectArgumentSelectorFragment => 17
  | .expectPluralArgumentSelectorFragment => 18
  | .invalidPluralArgumentSelector => 19
  | .duplicatePluralArgumentSelector => 20
  | .duplicateSelectArgumentSelector => 21
  | .missingOtherClause => 22
  | .invalidTag => 23
  | .invalidTagName => 25
  | .unmatchedClosingTag => 26
  | .unclosedTag => 27
  | .nestingLimitExceeded => 28

/-- A number that belongs to no class. -/
structure Unknown where
  code : Int
deriving DecidableEq, Repr

/-- The wording of an unknown number. -/
def Unknown.message (u : Unknown) : String := "unknown error kind " ++ toString u.code

/-- The class with a given number. -/
def ofCode (code : Int) : Except Unknown ErrorKind :=
  match Named.members.find? fun k : ErrorKind => (k.code : Int) == code with
  | some kind => .ok kind
  | none => .error ⟨code⟩

end ErrorKind

/-- The two families of arguments with branches, as far as faults tell them apart. -/
inductive ChoiceFamily where
  | select
  | plural
deriving DecidableEq, Repr

/-- Why a message is refused. -/
inductive Fault where
  | unmatchedBrace
  | unclosedArgument
  | emptyArgument
  | invalidNameCharacter
  | malformedArgument (name : String)
  | missingType (name : String)
  | invalidType (word : String)
  | missingStyle
  | missingNumberSkeleton
  | missingDateTimeSkeleton
  | invalidNumberSkeleton (skeleton : String) (cause : NumberSkeleton.Fault)
  | invalidDateTimeSkeleton (skeleton : String) (cause : DateTimeSkeleton.Fault)
  | unclosedQuote
  | missingOptions (name : String)
  | missingOffset
  | missingOffsetDigits
  | offsetTooLarge
  | offsetOutOfRange (value : Int)
  | missingSelector (family : ChoiceFamily)
  | missingSelectorDigits
  | selectorTooLarge
  | missingFragment (family : ChoiceFamily) (selector : String)
  | duplicateSelector (family : ChoiceFamily) (selector : String)
  | missingOther
  | invalidTagName (c : Char) (name : String)
  | unclosedOpeningTag (name : String)
  | missingClosingName
  | unclosedClosingTag (name : String)
  | unexpectedClosingTag (name : String)
  | mismatchedClosingTag (closing name : String)
  | unclosedTag (name : String)
  | nestingLimit (levels : Nat)
deriving DecidableEq, Repr

/-- The refusal of a skeleton inside a message. -/
inductive SkeletonFault where
  | number (cause : NumberSkeleton.Fault)
  | dateTime (cause : DateTimeSkeleton.Fault)
deriving DecidableEq, Repr

/-- The wording of a refused skeleton. -/
def SkeletonFault.message : SkeletonFault → String
  | .number cause => cause.message
  | .dateTime cause => cause.message

namespace Fault

/-- The class of a fault. -/
def kind : Fault → ErrorKind
  | .unmatchedBrace => .other
  | .unclosedArgument => .expectArgumentClosingBrace
  | .emptyArgument => .emptyArgument
  | .invalidNameCharacter => .malformedArgument
  | .malformedArgument _ => .malformedArgument
  | .missingType _ => .expectArgumentType
  | .invalidType _ => .invalidArgumentType
  | .missingStyle => .expectArgumentStyle
  | .missingNumberSkeleton => .expectNumberSkeleton
  | .missingDateTimeSkeleton => .expectDateTimeSkeleton
  | .invalidNumberSkeleton _ _ => .invalidNumberSkeleton
  | .invalidDateTimeSkeleton _ _ => .invalidDateTimeSkeleton
  | .unclosedQuote => .unclosedQuoteInArgumentStyle
  | .missingOptions _ => .expectSelectArgumentOptions
  | .missingOffset => .expectPluralArgumentOffsetValue
  | .missingOffsetDigits => .expectPluralArgumentOffsetValue
  | .offsetTooLarge => .invalidPluralArgumentOffsetValue
  | .offsetOutOfRange _ => .invalidPluralArgumentOffsetValue
  | .missingSelector .select => .expectSelectArgumentSelector
  | .missingSelector .plural => .expectPluralArgumentSelector
  | .missingSelectorDigits => .expectPluralArgumentSelector
  | .selectorTooLarge => .invalidPluralArgumentSelector
  | .missingFragment .select _ => .expectSelectArgumentSelectorFragment
  | .missingFragment .plural _ => .expectPluralArgumentSelectorFragment
  | .duplicateSelector .select _ => .duplicateSelectArgumentSelector
  | .duplicateSelector .plural _ => .duplicatePluralArgumentSelector
  | .missingOther => .missingOtherClause
  | .invalidTagName _ _ => .invalidTagName
  | .unclosedOpeningTag _ => .invalidTag
  | .missingClosingName => .invalidTag
  | .unclosedClosingTag _ => .invalidTag
  | .unexpectedClosingTag _ => .unmatchedClosingTag
  | .mismatchedClosingTag _ _ => .unmatchedClosingTag
  | .unclosedTag _ => .unclosedTag
  | .nestingLimit _ => .nestingLimitExceeded

/-- The wording of a fault. -/
def message : Fault → String
  | .unmatchedBrace => "unmatched closing brace"
  | .unclosedArgument => "expected `\x7d` to close the argument"
  | .emptyArgument => "argument name is empty"
  | .invalidNameCharacter => "argument name contains an invalid character"
  | .malformedArgument name => s!"argument `{name}` is malformed"
  | .missingType name => s!"expected a type for argument `{name}`"
  | .invalidType word => s!"`{word}` is not a valid argument type"
  | .missingStyle => "expected an argument style"
  | .missingNumberSkeleton => "expected a number skeleton after `::`"
  | .missingDateTimeSkeleton => "expected a date/time skeleton after `::`"
  | .invalidNumberSkeleton skeleton _ => s!"invalid number skeleton `{skeleton}`"
  | .invalidDateTimeSkeleton skeleton _ => s!"invalid date/time skeleton `{skeleton}`"
  | .unclosedQuote => "unclosed quote in argument style"
  | .missingOptions name => s!"expected `,` followed by options for argument `{name}`"
  | .missingOffset => "expected `:` and a number after `offset`"
  | .missingOffsetDigits => "expected an integer"
  | .offsetTooLarge => "integer is out of range"
  | .offsetOutOfRange value =>
    s!"plural offset `{value}` must be a non-negative 32-bit integer"
  | .missingSelector _ => "expected at least one selector"
  | .missingSelectorDigits => "expected an integer"
  | .selectorTooLarge => "integer is out of range"
  | .missingFragment _ selector => "expected `\x7b` after selector `" ++ selector ++ "`"
  | .duplicateSelector _ selector => s!"duplicate selector `{selector}`"
  | .missingOther => "an `other` option is required"
  | .invalidTagName c name => s!"invalid character `{c}` in tag name `{name}`"
  | .unclosedOpeningTag name => s!"expected `>` to close the opening tag `<{name}`"
  | .missingClosingName => "expected a tag name after `</`"
  | .unclosedClosingTag name => s!"expected `>` to close the closing tag `</{name}`"
  | .unexpectedClosingTag name => s!"closing tag `</{name}>` has no matching opening tag"
  | .mismatchedClosingTag closing name => s!"closing tag `</{closing}>` does not match `<{name}>`"
  | .unclosedTag name => s!"tag `<{name}>` is never closed"
  | .nestingLimit levels => s!"message nesting exceeds {levels} levels"

/-- The refused skeleton behind a fault, if there is one. -/
def cause? : Fault → Option SkeletonFault
  | .invalidNumberSkeleton _ cause => some (.number cause)
  | .invalidDateTimeSkeleton _ cause => some (.dateTime cause)
  | _ => none

/-- The wording of a fault with that of the refused skeleton behind it. -/
def fullMessage (f : Fault) : String :=
  match f.cause? with
  | some cause => f.message ++ " (" ++ cause.message ++ ")"
  | none => f.message

end Fault

/-- A fault and where it is reported. -/
structure ParseError where
  fault : Fault
  span : Span
deriving DecidableEq, Repr

namespace ParseError

/-- The class of the fault. -/
def kind (e : ParseError) : ErrorKind := e.fault.kind

/-- The wording of the fault. -/
def message (e : ParseError) : String := e.fault.message

/-- The error on one line. -/
def describe (e : ParseError) : String := e.kind.name ++ ": " ++ e.message

end ParseError

end MessageFormat
