import MessageFormat.Configuration.Toml.Scalar

/-!
# TOML documents

A document is read as its leaves.  A `Leaf` is a value together with the keys that lead to it
from the outermost table, so that dotted keys, tables in braces and tables under a header all
come to the same.  An array or a table with nothing in it is a leaf too.

Arrays with items, arrays of tables, dates and numbers with a fraction are refused; no setting
takes them.
-/

namespace MessageFormat.Toml

/-- A value that holds no other one. -/
inductive Value where
  | bool (value : Bool)
  | int (value : Int)
  | text (value : String)
  /-- An array or a table with nothing in it. -/
  | empty
deriving DecidableEq, Repr

/-- A value and the keys that lead to it. -/
structure Leaf where
  path : List String
  value : Value
deriving DecidableEq, Repr

/-- The leaf inside a table that the given keys lead to. -/
def Leaf.below (path : List String) (leaf : Leaf) : Leaf := ⟨path ++ leaf.path, leaf.value⟩

/-! ## Blanks and comments -/

/-- Skips blanks. -/
def skip (text : List Char) : List Char := text.dropWhile isBlank

/-- Skips blanks, line feeds and comments, starting inside a comment if `inComment`. -/
def skipLines : (inComment : Bool) → List Char → List Char
  | _, [] => []
  | true, c :: rest =>
    if c = '\n' then skipLines false rest
    else if isPrintable c then skipLines true rest
    else c :: rest
  | false, c :: rest =>
    if c = '#' then skipLines true rest
    else if isBlank c || c = '\n' then skipLines false rest
    else c :: rest

/-- What follows a line of which nothing but blanks and a comment is left. -/
def endLine? (text : List Char) : Option (List Char) :=
  let rest :=
    match skip text with
    | '#' :: comment => comment.dropWhile isPrintable
    | rest => rest
  match rest with
  | [] => some []
  | '\n' :: rest => some rest
  | _ => none

/-! ## Keys -/

/-- Characters of a key without quotes. -/
def isKeyChar (c : Char) : Bool := isAsciiLetter c || isAsciiDigit c || c = '_' || c = '-'

/-- Reads a key, with or without quotes. -/
def readKey (text : List Char) : Option (List Char × List Char) :=
  match quotingOf? text with
  | some q => q.line 0 text.tail
  | none =>
    let key := text.takeWhile isKeyChar
    if key.isEmpty then none else some (key, text.dropWhile isKeyChar)

/-- Reads keys with points between them, and the blanks around.  `n` is at least their
number. -/
def readPath : (n : Nat) → List Char → Option (List String × List Char)
  | 0, _ => none
  | n + 1, text => do
    let (key, rest) ← readKey (skip text)
    match skip rest with
    | '.' :: rest =>
      let (path, rest) ← readPath n rest
      return (String.ofList key :: path, rest)
    | rest => return ([String.ofList key], rest)

/-! ## Values -/

/-- A truth value or an integer. -/
def word? (word : List Char) : Option Value :=
  if word = "true".toList then some (.bool true)
  else if word = "false".toList then some (.bool false)
  else (integer? word).map .int

mutual

/-- Reads a value as its leaves.  The first argument bounds how deep and how far it goes. -/
def readValue : Nat → List Char → Option (List Leaf × List Char)
  | 0, _ => none
  | n + 1, text =>
    match quotingOf? text with
    | some q => (q.text text.tail).map fun (text, rest) => ([⟨[], .text (String.ofList text)⟩], rest)
    | none =>
      if text.head? = some '[' then
        match skipLines false text.tail with
        | ']' :: rest => some ([⟨[], .empty⟩], rest)
        | _ => none
      else if text.head? = some '{' then
        match skip text.tail with
        | '}' :: rest => some ([⟨[], .empty⟩], rest)
        | rest => readEntries n [] rest
      else
        let isWordChar (c : Char) := isKeyChar c || c = '+'
        (word? (text.takeWhile isWordChar)).map fun value =>
          ([⟨[], value⟩], text.dropWhile isWordChar)

/-- Reads the entries of a table in braces that are left, after the leaves read so far. -/
def readEntries : Nat → List Leaf → List Char → Option (List Leaf × List Char)
  | 0, _, _ => none
  | n + 1, leaves, text => do
    let (path, rest) ← readPath text.length text
    match rest with
    | '=' :: rest =>
      let (values, rest) ← readValue n (skip rest)
      let leaves := leaves ++ values.map (Leaf.below path)
      match skip rest with
      | ',' :: rest => readEntries n leaves rest
      | '}' :: rest => return (leaves, rest)
      | _ => none
    | _ => none

end

/-! ## Documents -/

/-- What was read of a document. -/
structure Document where
  leaves : List Leaf := []
  /-- The headers, each as the keys that lead to its table. -/
  headers : List (List String) := []
  /-- The table that settings now go to. -/
  table : List String := []
deriving DecidableEq, Repr

namespace Document

/-- Adds a setting to the table at hand.  It must not stand where a header has made a
table. -/
def set? (d : Document) (path : List String) (values : List Leaf) : Option Document :=
  let path := d.table ++ path
  if d.headers.any path.isPrefixOf then none
  else some { d with leaves := d.leaves ++ values.map (Leaf.below path) }

/-- Opens the table of a header, of which there is no other and which no setting has made. -/
def openTable? (d : Document) (path : List String) : Option Document :=
  if path ∈ d.headers ∨ d.leaves.any fun leaf => path.isPrefixOf leaf.path then none
  else some { d with headers := d.headers ++ [path], table := path }

/-- Whether a header has nothing below it. -/
def isEmptyTable (d : Document) (path : List String) : Bool :=
  !d.leaves.any (fun leaf => path.isPrefixOf leaf.path) &&
    !d.headers.any fun header => path.isPrefixOf header && header != path

/-- All leaves of a document that was read to its end. -/
def allLeaves (d : Document) : List Leaf :=
  d.leaves ++ (d.headers.filter d.isEmptyTable).map fun path => ⟨path, .empty⟩

/-- Reads one header or one setting and the end of its line. -/
def readItem? (d : Document) (text : List Char) : Option (Document × List Char) := do
  match text with
  | '[' :: rest =>
    let (path, rest) ← readPath rest.length rest
    match rest with
    | ']' :: rest => return (← d.openTable? path, ← endLine? rest)
    | _ => none
  | text =>
    let (path, rest) ← readPath text.length text
    match rest with
    | '=' :: rest =>
      let (values, rest) ← readValue (2 * rest.length) (skip rest)
      return (← d.set? path values, ← endLine? rest)
    | _ => none

/-- Reads what is left of a document.  `n` is at least the number of its lines. -/
def read? (d : Document) : (n : Nat) → List Char → Option Document
  | 0, _ => none
  | n + 1, text =>
    match endLine? text with
    | some [] => some d
    | some rest => d.read? n rest
    | none => do
      let (d, rest) ← d.readItem? (skip text)
      d.read? n rest

end Document

/-- A text in which a line feed ends each line, alone or after a carriage return before. -/
def lineFeeds : List Char → List Char
  | [] => []
  | '\r' :: '\n' :: rest => '\n' :: lineFeeds rest
  | c :: rest => c :: lineFeeds rest

/-- The leaves of a document.  A byte order mark before it does not count. -/
def parse? (text : String) : Option (List Leaf) := do
  let text := text.toList
  let lines := lineFeeds (if text.head? = some '\uFEFF' then text.tail else text)
  return (← Document.read? {} (lines.length + 1) lines).allLeaves

end MessageFormat.Toml
