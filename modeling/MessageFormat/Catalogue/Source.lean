import MessageFormat.Catalogue.Entry
import MessageFormat.Files

/-!
# Catalogue files

A source of catalogues is one file, or a directory whose files with the ending `.messages`
are read in the order of their names.
-/

namespace MessageFormat.Catalogue

/-- A catalogue that was read from a file. -/
structure Source where
  path : String
  entries : List Entry
deriving DecidableEq, Repr

/-- Why catalogues cannot be read. -/
inductive LoadFault where
  | file (fault : FileFault)
  | malformed (path : String) (error : SourceError)
  | duplicateKey (key path : String) (line : UInt32)
  | noSources (path : String)
deriving DecidableEq, Repr

/-- The wording of a fault. -/
def LoadFault.message : LoadFault → String
  | .file fault => fault.message
  | .malformed path error => path ++ ":" ++ error.describe
  | .duplicateKey key path line => s!"duplicate key {key} in {path}:{line}"
  | .noSources path => s!"no .messages files found in {path}"

/-- The first entry whose key an earlier one has. -/
def duplicate? : (seen : List String) → List Entry → Option Entry
  | _, [] => none
  | seen, e :: entries =>
    if e.key ∈ seen then some e else duplicate? (e.key :: seen) entries

/-- The catalogue of a file, whose keys must all differ. -/
def ofText (path text : String) : Except LoadFault Source :=
  match parse text with
  | .error error => .error (.malformed path error)
  | .ok entries =>
    match duplicate? [] entries with
    | some e => .error (.duplicateKey e.key path e.line)
    | none => .ok ⟨path, entries⟩

/-- The ending of catalogue files. -/
def ending : String := ".messages"

/-- Whether a file name has the ending and something before it. -/
def isSourceName (name : String) : Bool :=
  ending.toList.isSuffixOf name.toList && name != ending

/-- The path of a name in a directory. -/
def joinPath (directory name : String) : String :=
  if directory.toList.getLast? = some '/' then directory ++ name else directory ++ "/" ++ name

/-- The catalogue files in a directory, by name. -/
def sourcesIn (entries : List (String × Option ByteArray)) : List (String × ByteArray) :=
  let files := entries.filterMap fun (name, content) =>
    if isSourceName name then content.map (name, ·) else none
  files.mergeSort fun a b => decide (a.1 ≤ b.1)

/-- Reads one file. -/
def load (path : String) (text : Except FileFault String) : Except LoadFault Source :=
  match text with
  | .ok text => ofText path text
  | .error fault => .error (.file fault)

/-- Reads all catalogues that a path leads to. -/
def loadAll (path : String) (found : Lookup) : Except LoadFault (List Source) :=
  match found with
  | .directory entries =>
    match sourcesIn entries with
    | [] => .error (.noSources path)
    | files => files.mapM fun (name, content) => load (joinPath path name) (textOf content)
  | other => do
    let source ← load path other.text
    return [source]

end MessageFormat.Catalogue
