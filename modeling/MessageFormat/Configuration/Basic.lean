import MessageFormat.Configuration.LogFilter
import MessageFormat.Configuration.Toml.Document
import MessageFormat.Event
import MessageFormat.Files
import MessageFormat.LanguageTag
import MessageFormat.Options

/-!
# Configuration

The settings of the command line program.  They come from a file in which every key is
optional and no other key is allowed; without the file they have their default values.
-/

namespace MessageFormat

/-- How events are written. -/
inductive LogFormat where
  | text
  | json
deriving DecidableEq, Repr

instance : Named LogFormat where
  members := [.text, .json]
  name
    | .text => "text"
    | .json => "json"

/-- The settings of the program. -/
structure Configuration where
  ignoreTag : Bool := false
  interpretSkeletons : Bool := true
  requiresOther : Bool := true
  captureSpans : Bool := true
  maxNestingDepth : Nat := 64
  /-- A language tag as written, not yet checked. -/
  locale : Option String := none
  logLevel : String := "warn"
  logFormat : LogFormat := .text
deriving DecidableEq, Repr

namespace Configuration

/-- Why a configuration cannot be used. -/
inductive Fault where
  | file (fault : FileFault)
  | malformed
  | locale (fault : LanguageTag.Fault)
  | logFilter (fault : LogFilter.Fault)
deriving DecidableEq, Repr

/-- The wording of a fault. -/
def Fault.message : Fault → String
  | .file fault => fault.message
  | .malformed => "toml error"
  | .locale fault => "invalid locale: " ++ fault.message
  | .logFilter fault => "invalid log filter: " ++ fault.message

/-- Where the configuration is looked for. -/
def defaultPath : String := "icu-mf.toml"

/-- Applies one setting, if there is such a key and it takes such a value.  The format of events
is named by a text, or by the one key of a table with nothing below it. -/
def set? (c : Configuration) (leaf : Toml.Leaf) : Option Configuration :=
  let withFormat (name : String) : Option Configuration :=
    (Named.ofName? name).map fun format => { c with logFormat := format }
  match leaf.path, leaf.value with
  | ["ignore_tag"], .bool b => some { c with ignoreTag := b }
  | ["should_parse_skeletons"], .bool b => some { c with interpretSkeletons := b }
  | ["requires_other_clause"], .bool b => some { c with requiresOther := b }
  | ["capture_location"], .bool b => some { c with captureSpans := b }
  | ["max_nesting_depth"], .int n =>
    if 0 ≤ n then some { c with maxNestingDepth := n.toNat } else none
  | ["locale"], .text t => some { c with locale := some t }
  | ["log_level"], .text t => some { c with logLevel := t }
  | ["log_format"], .text name => withFormat name
  | ["log_format", name], .empty => withFormat name
  | _, _ => none

/-- Applies settings one by one.  Each key is set at most once, by one leaf. -/
def setAll? (c : Configuration) (leaves : List Toml.Leaf) : Option Configuration :=
  if (leaves.map fun leaf => leaf.path.head?).Nodup then leaves.foldlM set? c else none

/-- The configuration that a text of settings stands for. -/
def ofText (text : String) : Except Fault Configuration :=
  match (Toml.parse? text).bind fun leaves => setAll? {} leaves with
  | some c => .ok c
  | none => .error .malformed

/-- The configuration in the file at a path, or the default one if there is no such file. -/
def load (path : String) (found : Lookup) : Except Fault Configuration × List Event :=
  if found.isPresent then
    match found.text with
    | .ok text => (ofText text, [])
    | .error fault => (.error (.file fault), [])
  else (.ok {}, [.noConfiguration path])

/-- The configured locale. -/
def localeTag? (c : Configuration) : Except Fault (Option LanguageTag) :=
  match c.locale with
  | none => .ok none
  | some text =>
    match LanguageTag.parse text with
    | .ok tag => .ok (some tag)
    | .error fault => .error (.locale fault)

/-- The options that messages are read with. -/
def options (c : Configuration) : Except Fault Options := do
  let tag ← c.localeTag?
  return {
    ignoreTag := c.ignoreTag
    interpretSkeletons := c.interpretSkeletons
    locale := tag.map LanguageTag.text
    captureSpans := c.captureSpans
    requiresOther := c.requiresOther
    maxNestingDepth := c.maxNestingDepth }

/-- Checks the filter for events. -/
def checkLogLevel (c : Configuration) : Except Fault Unit :=
  match LogFilter.check c.logLevel with
  | .ok () => .ok ()
  | .error fault => .error (.logFilter fault)

end Configuration

end MessageFormat
