import MessageFormat.Position
import MessageFormat.NumberFormat.Meaning
import MessageFormat.DateTimeFormat.Skeleton

/-!
# The tree of a message

A `Message` is a list of elements: literal text, arguments of several kinds, and tags.  Plural
and select arguments hold one `Branch` per selector, whose body is a list of elements again,
and a tag holds the elements between its two ends.

Every node has a place for the span it was read from.  It is empty in a tree that was read
without spans.
-/

namespace MessageFormat

/-- The style of an argument: a word or phrase, or a skeleton. -/
inductive ArgumentStyle (σ : Type) where
  | simple (text : String)
  | skeleton (value : σ)
deriving DecidableEq, Repr

/-- The skeleton of a number argument, as tokens and as the format they stand for. -/
structure NumberPattern where
  tokens : List NumberSkeleton.Token
  format : NumberFormat
  span : Option Span
deriving DecidableEq, Repr

/-- The skeleton of a date or time argument, as text and as the format it stands for. -/
structure DateTimePattern where
  pattern : String
  format : DateTimeFormat
  span : Option Span
deriving DecidableEq, Repr

/-- Which plural rules choose the branch. -/
inductive PluralKind where
  | cardinal
  | ordinal
deriving DecidableEq, Repr

instance : Named PluralKind where
  members := [.cardinal, .ordinal]
  name
    | .cardinal => "cardinal"
    | .ordinal => "ordinal"

mutual

/-- One node of a message. -/
inductive Element where
  /-- Text that stands for itself. -/
  | literal (text : String) (span : Option Span)
  /-- The value of an argument as it is. -/
  | argument (name : String) (span : Option Span)
  | number (name : String) (style : Option (ArgumentStyle NumberPattern)) (span : Option Span)
  | date (name : String) (style : Option (ArgumentStyle DateTimePattern)) (span : Option Span)
  | time (name : String) (style : Option (ArgumentStyle DateTimePattern)) (span : Option Span)
  /-- The branch whose selector is the value of an argument. -/
  | select (name : String) (branches : List Branch) (span : Option Span)
  /-- The branch whose selector is an exact value or the plural category of an argument. -/
  | plural (name : String) (kind : PluralKind) (offset : Nat) (branches : List Branch)
      (span : Option Span)
  /-- The number of the plural argument around. -/
  | pound (span : Option Span)
  | tag (name : String) (children : List Element) (span : Option Span)

/-- One selector of a plural or select argument with its message. -/
inductive Branch where
  | mk (selector : String) (body : List Element) (span : Option Span)

end

/-- A message and the span of its whole source. -/
structure Message where
  elements : List Element
  span : Span

namespace Branch

/-- The selector of a branch. -/
def selector : Branch → String
  | .mk selector _ _ => selector

/-- The elements of a branch. -/
def body : Branch → List Element
  | .mk _ body _ => body

/-- Where a branch was read, braces included. -/
def span : Branch → Option Span
  | .mk _ _ span => span

end Branch

namespace Element

/-- Where an element was read. -/
def span : Element → Option Span
  | .literal _ span | .argument _ span | .number _ _ span | .date _ _ span | .time _ _ span
  | .select _ _ span | .plural _ _ _ _ span | .pound span | .tag _ _ span => span

/-- The argument or tag that an element refers to. -/
def name? : Element → Option String
  | .argument name _ | .number name _ _ | .date name _ _ | .time name _ _
  | .select name _ _ | .plural name _ _ _ _ | .tag name _ _ => some name
  | .literal _ _ | .pound _ => none

/-- The branches of a plural or select argument. -/
def branches : Element → List Branch
  | .select _ branches _ | .plural _ _ _ branches _ => branches
  | _ => []

/-- Whether an element chooses between branches. -/
def isChoice : Element → Bool
  | .select .. | .plural .. => true
  | _ => false

/-- The branch of an element with the given selector. -/
def branch? (e : Element) (selector : String) : Option Branch :=
  e.branches.find? fun b => b.selector == selector

end Element

/-! ## Walking the tree -/

mutual

/-- An element and all elements below it, parents before children, each with its path.  A path
lists, from the top, the index of each element and between two of them the selector of the
branch they are joined by. -/
def Element.walk (path : String) : Element → List (String × Element)
  | .tag name children span =>
    (path, .tag name children span) :: Element.walkList path 0 children
  | .select name branches span =>
    (path, .select name branches span) :: Branch.walkList path branches
  | .plural name kind offset branches span =>
    (path, .plural name kind offset branches span) :: Branch.walkList path branches
  | e => [(path, e)]

/-- The elements of a list from the given index on, with those below them. -/
def Element.walkList (path : String) (index : Nat) : List Element → List (String × Element)
  | [] => []
  | e :: es => e.walk s!"{path}/{index}" ++ Element.walkList path (index + 1) es

/-- The elements in a list of branches. -/
def Branch.walkList (path : String) : List Branch → List (String × Element)
  | [] => []
  | .mk selector body _ :: branches =>
    Element.walkList s!"{path}/{selector}" 0 body ++ Branch.walkList path branches

end

/-- All elements of a message with their paths. -/
def Message.walk (m : Message) : List (String × Element) := Element.walkList "" 0 m.elements

end MessageFormat
