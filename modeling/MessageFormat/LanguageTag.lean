import MessageFormat.Json.Basic
import MessageFormat.Text.Pieces

/-!
# Language tags

A language tag is a list of subtags: a language, further subtags among which one may be a
script and one a region, and an extension that begins with the first subtag of a single
character.  Subtags are separated by hyphens or underscores, and blanks around the tag do not
count.

Reading puts a tag into its canonical form: the language and all other subtags in lower case,
a script with a capital, a region in upper case.  Inside an extension nothing is a script or
a region.
-/

namespace MessageFormat

/-- A language tag in canonical form. -/
structure LanguageTag where
  language : String
  /-- The subtags between the language and the extension. -/
  further : List String := []
  /-- The subtags from the first single character on. -/
  extension : List String := []
  /-- The one of the further subtags that is a script. -/
  script : Option String := none
  /-- The one of the further subtags that is a region. -/
  region : Option String := none
deriving DecidableEq, Repr

namespace LanguageTag

/-- Why a text is no language tag. -/
inductive Fault where
  | empty
  | emptySubtag (tag : String)
  | invalidLanguage (tag subtag : String)
  | invalidSubtag (tag subtag : String)
deriving DecidableEq, Repr

/-- The wording of a refusal. -/
def Fault.message : Fault → String
  | .empty => "language tag is empty"
  | .emptySubtag tag => s!"language tag `{tag}` has an empty subtag"
  | .invalidLanguage tag subtag =>
    s!"language tag `{tag}` has an invalid language subtag `{subtag}`"
  | .invalidSubtag tag subtag => s!"language tag `{tag}` has an invalid subtag `{subtag}`"

/-! ## Subtags -/

/-- A text in lower case. -/
def lower (text : List Char) : String := String.ofList (text.map Char.toLower)

/-- A text in upper case. -/
def upper (text : List Char) : String := String.ofList (text.map Char.toUpper)

/-- A text in lower case but for its first character. -/
def capitalized : List Char → String
  | [] => ""
  | c :: rest => String.ofList (c.toUpper :: rest.map Char.toLower)

/-- Two to eight letters. -/
def isLanguage (text : List Char) : Bool :=
  text.all isAsciiLetter && decide (2 ≤ text.length) && decide (text.length ≤ 8)

/-- Four letters. -/
def isScript (text : List Char) : Bool := text.length == 4 && text.all isAsciiLetter

/-- Two letters or three digits. -/
def isRegion (text : List Char) : Bool :=
  (text.length == 2 && text.all isAsciiLetter) || (text.length == 3 && text.all isAsciiDigit)

/-- At most eight letters and digits. -/
def isSubtag (text : List Char) : Bool :=
  text.all (fun c => isAsciiLetter c || isAsciiDigit c) && decide (text.length ≤ 8)

/-- Adds a subtag at the end, in the part it belongs to and in the case it has there. -/
def add (tag : LanguageTag) (subtag : List Char) : LanguageTag :=
  if !tag.extension.isEmpty || subtag.length == 1 then
    { tag with extension := tag.extension ++ [lower subtag] }
  else if tag.script.isNone && tag.region.isNone && isScript subtag then
    { tag with
      further := tag.further ++ [capitalized subtag]
      script := some (capitalized subtag) }
  else if tag.region.isNone && isRegion subtag then
    { tag with further := tag.further ++ [upper subtag], region := some (upper subtag) }
  else { tag with further := tag.further ++ [lower subtag] }

/-- Adds subtags in order, as long as they are well formed. -/
def addAll (text : String) : LanguageTag → List (List Char) → Except Fault LanguageTag
  | tag, [] => .ok tag
  | tag, subtag :: subtags =>
    if isSubtag subtag then addAll text (tag.add subtag) subtags
    else .error (.invalidSubtag text (String.ofList subtag))

/-! ## Whole tags -/

/-- The language tag that a text stands for. -/
def parse (input : String) : Except Fault LanguageTag :=
  let trimmed := Text.trim input.toList
  let text := String.ofList trimmed
  let subtags := trimmed.splitOnP fun c => c == '-' || c == '_'
  if trimmed.isEmpty then .error .empty
  else if subtags.any List.isEmpty then .error (.emptySubtag text)
  else
    match subtags with
    | [] => .error .empty
    | language :: subtags =>
      if isLanguage language then addAll text { language := lower language } subtags
      else .error (.invalidLanguage text (String.ofList language))

/-- The subtags that count when tags are matched: all before the extension. -/
def matchSubtags (tag : LanguageTag) : List String := tag.language :: tag.further

/-- The canonical text of a tag. -/
def text (tag : LanguageTag) : String :=
  String.intercalate "-" (tag.matchSubtags ++ tag.extension)

/-- A tag as JSON: its text. -/
def toJson (tag : LanguageTag) : Json := .str tag.text

/-- Reads a tag from its text. -/
def ofJson? : Json → Option LanguageTag
  | .str text => (parse text).toOption
  | _ => none

end LanguageTag

end MessageFormat
