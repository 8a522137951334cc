import MessageFormat.Command.Basic
import MessageFormat.Diagnostic
import MessageFormat.Element.Json
import MessageFormat.Json.Pretty
import MessageFormat.Parse.Message

/-!
# Running commands

Each command gives a result and the events on the way to it.
-/

namespace MessageFormat.Command

/-- A result with the events on the way to it. -/
abbrev Traced (α : Type) := Except Fault α × List Event

/-! ## Parsing -/

/-- The options a message is read with: those of the configuration, changed by the request. -/
def ParseRequest.options (r : ParseRequest) (o : Options) : Options :=
  { o with
    ignoreTag := o.ignoreTag || r.ignoreTag
    captureSpans := o.captureSpans && !r.omitSpans }

/-- The tree of a message as JSON text. -/
def ParseRequest.run (r : ParseRequest) (c : Configuration) : Traced String :=
  match c.options with
  | .error fault => (.error (.configuration fault), [])
  | .ok options =>
    match parseTraced (r.options options) r.message with
    | (.error e, events) => (.error (.message e), events)
    | (.ok message, events) =>
      (.ok (Json.arr (Element.toJsonList message.elements)).pretty,
       events ++ [.messageParsed message.elements.length])

/-! ## Validation -/

/-- Checks the entries of a catalogue. -/
def checkEntries (options : Options) (file : String) :
    List Catalogue.Entry → List Diagnostic × List Event
  | [] => ([], [])
  | entry :: entries =>
    let (result, events) := parseTraced options entry.value
    let (diagnostics, later) := checkEntries options file entries
    match result with
    | .ok _ => (diagnostics, events ++ later)
    | .error e => (.ofParseError file entry e :: diagnostics, events ++ later)

/-- Checks catalogues in order. -/
def checkSources (options : Options) : List Catalogue.Source → List Diagnostic × List Event
  | [] => ([], [])
  | source :: sources =>
    let (diagnostics, events) := checkEntries options source.path source.entries
    let (further, later) := checkSources options sources
    (diagnostics ++ further,
     .validating source.path source.entries.length :: events ++ later)

/-- The diagnostics for all messages that the source path leads to, in order. -/
def ValidateRequest.run (r : ValidateRequest) (c : Configuration) (found : Lookup) :
    Traced (List Diagnostic) :=
  match c.options with
  | .error fault => (.error (.configuration fault), [])
  | .ok options =>
    match Catalogue.loadAll r.source found with
    | .error fault => (.error (.source fault), [])
    | .ok sources =>
      let (diagnostics, events) := checkSources options sources
      let messages := sources.foldl (fun n source => n + source.entries.length) 0
      (.ok diagnostics, events ++ [.validated sources.length messages diagnostics.length])

/-! ## Kinds -/

/-- The name of the class of faults with a number, which is an integer of thirty-two bits. -/
def KindRequest.run (r : KindRequest) : Except Fault String :=
  match integerOf? (Text.trim r.value.toList) with
  | none => .error (.notAnInteger r.value)
  | some n =>
    if -wordSize 31 ≤ n ∧ n < wordSize 31 then
      match ErrorKind.ofCode n with
      | .ok found => .ok found.name
      | .error unknown => .error (.unknownKind unknown)
    else .error (.notAnInteger r.value)

/-! ## Display names -/

/-- The locale when neither the request nor the configuration has one. -/
def defaultLocale : LanguageTag := { language := "en" }

/-- The locale of a request: its own, the configured one, or the default. -/
def DisplayNameRequest.localeTag (r : DisplayNameRequest) (c : Configuration) :
    Except Fault LanguageTag :=
  match r.locale with
  | some text =>
    match LanguageTag.parse text with
    | .ok tag => .ok tag
    | .error fault => .error (.languageTag fault)
  | none =>
    match c.localeTag? with
    | .ok tag => .ok (tag.getD defaultLocale)
    | .error fault => .error (.configuration fault)

/-- The name of a code. -/
def DisplayNameRequest.run (r : DisplayNameRequest) (c : Configuration) :
    Traced (Option String) :=
  match r.localeTag c with
  | .error fault => (.error fault, [])
  | .ok locale =>
    let fallback : Fallback := if r.noFallback then .none else .code
    let names : DisplayNames := ⟨locale, ⟨r.kind, fallback⟩⟩
    let events := [Event.lookingUp locale.text (Named.name r.kind) r.code]
    match names.of r.code with
    | .ok name => (.ok name, events)
    | .error code => (.error (.invalidCode code), events)

end MessageFormat.Command
