import MessageFormat.LanguageTag

/-!
# Display names

The names of regions, scripts, currencies and languages.  A code is first brought into its
canonical form, and refused if it has none; then its name is looked up.  There are names in
English only, so every other locale gives none.  A language without an entry of its own has
the name of its first subtag.

A code without a name stands for itself, or for nothing, as the fallback says.
-/

namespace MessageFormat

/-- What a code stands for. -/
inductive CodeKind where
  | region
  | script
  | currency
  | language
deriving DecidableEq, Repr

instance : Named CodeKind where
  members := [.region, .script, .currency, .language]
  name
    | .region => "region"
    | .script => "script"
    | .currency => "currency"
    | .language => "language"

/-- What a code without a name gives. -/
inductive Fallback where
  | code
  | none
deriving DecidableEq, Repr

instance : Named Fallback where
  members := [.code, .none]
  name
    | .code => "code"
    | .none => "none"

/-- How names are looked up. -/
structure DisplayOptions where
  kind : CodeKind := .region
  fallback : Fallback := .code
deriving DecidableEq, Repr

namespace DisplayOptions

/-- The options as a JSON object. -/
def toJson (o : DisplayOptions) : Json :=
  .obj [("type", Named.toJson o.kind), ("fallback", Named.toJson o.fallback)]

/-- Reads options.  What is absent has its default value. -/
def ofJson? (j : Json) : Option DisplayOptions :=
  if j.isRecord 0 2 then do
    return {
      kind := ← Json.defaulted? Named.ofJson? .region (j.component? 0 "type")
      fallback := ← Json.defaulted? Named.ofJson? .code (j.component? 1 "fallback") }
  else .none

end DisplayOptions

/-- Names as a locale gives them. -/
structure DisplayNames where
  locale : LanguageTag
  options : DisplayOptions
deriving DecidableEq, Repr

namespace DisplayNames

/-- A code that has no canonical form. -/
structure InvalidCode where
  code : String
  kind : CodeKind
deriving DecidableEq, Repr

/-- The wording of a refused code. -/
def InvalidCode.message (e : InvalidCode) : String :=
  "Invalid value \"" ++ e.code ++ "\" for option " ++ Named.name e.kind

/-! ## Names in English -/

/-- Codes with their names. -/
abbrev Table := List (String × String)

/-- Regions. -/
def englishRegions : Table :=
  [("001", "world"), ("150", "Europe"), ("419", "Latin America"), ("BR", "Brazil"),
   ("CA", "Canada"), ("CN", "China"), ("DE", "Germany"), ("ES", "Spain"), ("FR", "France"),
   ("GB", "United Kingdom"), ("IN", "India"), ("IT", "Italy"), ("JP", "Japan"),
   ("MX", "Mexico"), ("TW", "Taiwan"), ("US", "United States")]

/-- Scripts. -/
def englishScripts : Table :=
  [("Arab", "Arabic"), ("Cyrl", "Cyrillic"), ("Deva", "Devanagari"), ("Grek", "Greek"),
   ("Hans", "Simplified Han"), ("Hant", "Traditional Han"), ("Hebr", "Hebrew"),
   ("Jpan", "Japanese"), ("Kore", "Korean"), ("Latn", "Latin")]

/-- Currencies. -/
def englishCurrencies : Table :=
  [("BRL", "Brazilian Real"), ("CAD", "Canadian Dollar"), ("CNY", "Chinese Yuan"),
   ("EUR", "Euro"), ("GBP", "British Pound"), ("INR", "Indian Rupee"),
   ("JPY", "Japanese Yen"), ("MXN", "Mexican Peso"), ("USD", "US Dollar")]

/-- Languages. -/
def englishLanguages : Table :=
  [("ar", "Arabic"), ("de", "German"), ("en", "English"), ("en-GB", "British English"),
   ("en-US", "American English"), ("es", "Spanish"), ("es-419", "Latin American Spanish"),
   ("fr", "French"), ("fr-CA", "Canadian French"), ("hi", "Hindi"), ("it", "Italian"),
   ("ja", "Japanese"), ("ko", "Korean"), ("pt", "Portuguese"),
   ("pt-BR", "Brazilian Portuguese"), ("ru", "Russian"), ("zh", "Chinese"),
   ("zh-Hans", "Simplified Chinese"), ("zh-Hant", "Traditional Chinese")]

/-- The English names of codes of one kind. -/
def english : CodeKind → Table
  | .region => englishRegions
  | .script => englishScripts
  | .currency => englishCurrencies
  | .language => englishLanguages

/-! ## Looking up -/

/-- Four letters of which only the first is a capital. -/
def isCapitalized (text : List Char) : Bool :=
  match text with
  | c :: rest => c.isUpper && rest.length == 3 && rest.all Char.isLower
  | [] => false

/-- The canonical form of a code. -/
def canonical? (kind : CodeKind) (code : String) : Option String :=
  let text := code.toList
  match kind with
  | .region => if LanguageTag.isRegion text then some (LanguageTag.upper text) else none
  | .script => if isCapitalized text then some (LanguageTag.capitalized text) else none
  | .currency =>
    if text.length == 3 && text.all isAsciiLetter then some (LanguageTag.upper text) else none
  | .language => (LanguageTag.parse code).toOption.map LanguageTag.text

/-- The part of a canonical code before its first hyphen. -/
def firstSubtag (code : String) : String :=
  String.ofList (code.toList.takeWhile (· != '-'))

/-- The name of a canonical code. -/
def lookup? (names : DisplayNames) (code : String) : Option String :=
  let table := english names.options.kind
  if names.locale.language ≠ "en" then none
  else
    match table.lookup code with
    | some name => some name
    | none =>
      if names.options.kind = .language then table.lookup (firstSubtag code) else none

/-- The name of a code, or what the fallback gives. -/
def of (names : DisplayNames) (code : String) : Except InvalidCode (Option String) :=
  match canonical? names.options.kind code with
  | none => .error ⟨code, names.options.kind⟩
  | some code =>
    match names.lookup? code with
    | some name => .ok (some name)
    | none =>
      match names.options.fallback with
      | .code => .ok (some code)
      | .none => .ok none

end DisplayNames

end MessageFormat
