/-!
# Files

Programs see the file system through one question: what does a path lead to?  The answer is a
`Lookup`.  A `FileTree` is a whole file system as a value, and answers by walking it from the
working directory.
-/

namespace MessageFormat

/-- What a path leads to. -/
inductive Lookup where
  | missing
  /-- A file stands where the path goes on as through a directory. -/
  | blocked
  | file (content : ByteArray)
  /-- A directory, as the names in it with the content of those that are files. -/
  | directory (entries : List (String × Option ByteArray))

/-- Why no text can be read. -/
inductive FileFault where
  | notFound
  | notADirectory
  | isADirectory
  | invalidEncoding
deriving DecidableEq, Repr

/-- The wording of a fault. -/
def FileFault.message : FileFault → String
  | .notFound => "io error: No such file or directory (os error 2)"
  | .notADirectory => "io error: Not a directory (os error 20)"
  | .isADirectory => "io error: Is a directory (os error 21)"
  | .invalidEncoding => "io error: stream did not contain valid UTF-8"

/-- The text of a file, which must be UTF-8. -/
def textOf (content : ByteArray) : Except FileFault String :=
  match String.fromUTF8? content with
  | some text => .ok text
  | none => .error .invalidEncoding

namespace Lookup

/-- The text that a path leads to. -/
def text : Lookup → Except FileFault String
  | .missing => .error .notFound
  | .blocked => .error .notADirectory
  | .file content => textOf content
  | .directory _ => .error .isADirectory

/-- Whether a path leads to a file or a directory. -/
def isPresent : Lookup → Bool
  | .file _ | .directory _ => true
  | _ => false

end Lookup

/-! ## Trees -/

/-- A file with its content, or an empty directory, with the names that lead to it from the
working directory. -/
structure FileEntry where
  path : List String
  content : Option ByteArray

/-- The files below the working directory.  A directory needs no entry if there is one below
it. -/
structure FileTree where
  entries : List FileEntry

namespace FileTree

/-- The parts of a path between its slashes. -/
def partsOf (path : String) : List String :=
  (path.toList.splitOnP (· == '/')).map String.ofList

/-- The names directly in a directory. -/
def namesIn (tree : FileTree) (path : List String) : List String :=
  (tree.entries.filterMap fun e =>
    if path.isPrefixOf e.path then (e.path.drop path.length).head? else none).eraseDups

/-- What the names of a path lead to, one by one. -/
def node (tree : FileTree) (path : List String) : Lookup :=
  let listing := (tree.namesIn path).map fun name =>
    let child := tree.entries.find? fun e => e.path == path ++ [name]
    (name, child.bind FileEntry.content)
  match tree.entries.find? fun e => e.path == path with
  | some ⟨_, some content⟩ => .file content
  | some ⟨_, none⟩ => .directory listing
  | none => if path.isEmpty || !listing.isEmpty then .directory listing else .missing

/-- What a path outside the working directory leads to.  There are directories above it, and
nothing is known to be in them. -/
def outside (parts : List String) : Lookup :=
  if parts.all fun part => part = "" || part = "." || part = ".." then .directory []
  else .missing

/-- Follows the parts of a path from a place.  Only a directory can be passed through. -/
def follow (tree : FileTree) : (here parts : List String) → Lookup
  | here, [] => tree.node here
  | here, part :: parts =>
    match tree.node here with
    | .directory _ =>
      if part = "" ∨ part = "." then tree.follow here parts
      else if part = ".." then
        if here.isEmpty then outside parts else tree.follow here.dropLast parts
      else tree.follow (here ++ [part]) parts
    | .file _ => .blocked
    | other => other

/-- What a path leads to from the working directory.  The empty path leads nowhere. -/
def lookup (tree : FileTree) (path : String) : Lookup :=
  if path = "" then .missing
  else if path.toList.head? = some '/' then outside (partsOf path)
  else tree.follow [] (partsOf path)

end FileTree

end MessageFormat
