import MotionScript.Toml.Quoted
import MotionScript.Toml.Scalar
import MotionScript.Toml.Table

/-!
# Reading TOML

A document is a list of lines: headers, which open a table, and pairs of a key and a value, which go
into the table of the last header. Values may go over several lines within square brackets only.
`parse?` gives the entries of the whole document.
-/
namespace MotionScript.Toml

/-- The bound on the names of a key and on the brackets around a value. -/
def maxDepth : Nat := 80

inductive Line
  | header (key : Key)
  | item (key : Key)
  | pair (key : Key) (value : Toml)

def skipSpaces (text : List Char) : List Char := text.dropWhile isSpace

def isBare (c : Char) : Bool := c.isAlphanum || c == '_' || c == '-'

def readName? (text : List Char) : Option (String × List Char) :=
  match readShort? text with
  | some (name, rest) => some (.ofList name, rest)
  | none =>
    match text.span isBare with
    | ([], _) => none
    | (name, rest) => some (.ofList name, rest)

def readNames? : Nat → List Char → Option (List String × List Char)
  | 0, _ => none
  | fuel + 1, text => do
    let (name, rest) ← readName? (skipSpaces text)
    match skipSpaces rest with
    | '.' :: rest =>
      let (names, rest) ← readNames? fuel rest
      return (name :: names, rest)
    | rest => return ([name], rest)

def readKey? (text : List Char) : Option (Key × List Char) := do
  let (names, rest) ← readNames? (maxDepth - 1) text
  return (⟨names.dropLast, ← names.getLast?⟩, rest)

def skipComment : List Char → List Char
  | '#' :: rest => rest.dropWhile isPlain
  | text => text

/-- The next line, when only blanks and a comment are left of this one. -/
def endLine? (text : List Char) : Option (List Char) :=
  match skipComment (skipSpaces text) with
  | [] => some []
  | rest => lineEnd? rest

/-- The text without the blanks, comments and line ends at its head. -/
def skipLines : Nat → List Char → List Char
  | 0, text => text
  | fuel + 1, text =>
    match skipSpaces text with
    | [] => []
    | rest => ((endLine? rest).map (skipLines fuel)).getD rest

/-- A scalar; a day and a time of the day may stand one blank apart. -/
def readScalar? (text : List Char) : Option (Toml × List Char) :=
  let (first, rest) := text.span isScalarChar
  match rest with
  | ' ' :: c :: more =>
    if isDate first && c.isDigit then
      let (second, rest) := (c :: more).span isScalarChar
      (scalar? (first ++ ' ' :: second)).map (·, rest)
    else (scalar? first).map (·, rest)
  | _ => (scalar? first).map (·, rest)

mutual

/-- The value at the head of a text, with at most `depth` brackets around each other; the first
argument bounds the search. -/
def readValue? : (fuel depth : Nat) → List Char → Option (Toml × List Char)
  | 0, _, _ => none
  | fuel + 1, depth, '[' :: rest => do
    if depth = 0 then none
    let (items, rest) ← readItems? fuel (depth - 1) rest
    return (.array items, rest)
  | fuel + 1, depth, '{' :: rest => do
    if depth = 0 then none
    let (pairs, rest) ← match skipSpaces rest with
      | '}' :: rest => some ([], rest)
      | rest => readPairs? fuel (depth - 1) rest
    return (← inlineTable? pairs, rest)
  | _ + 1, _, c :: rest =>
    if c = '"' ∨ c = '\x27'
      then (readQuoted? (c :: rest)).map fun (value, rest) => (.string (.ofList value), rest)
    else readScalar? (c :: rest)
  | _ + 1, _, [] => none

/-- The items of an array up to its closing bracket; the last one may be followed by a comma. -/
def readItems? : (fuel depth : Nat) → List Char → Option (List Toml × List Char)
  | 0, _, _ => none
  | fuel + 1, depth, before =>
    match skipLines before.length before with
    | ']' :: rest => some ([], rest)
    | rest => do
      let (item, rest) ← readValue? fuel depth rest
      match skipLines rest.length rest with
      | ',' :: rest =>
        let (items, rest) ← readItems? fuel depth rest
        return (item :: items, rest)
      | ']' :: rest => return ([item], rest)
      | _ => none

/-- The pairs of a table between braces, at least one, up to the closing brace. -/
def readPairs? : (fuel depth : Nat) → List Char → Option (List (Key × Toml) × List Char)
  | 0, _, _ => none
  | fuel + 1, depth, before => do
    let (key, rest) ← readKey? before
    match rest with
    | '=' :: rest =>
      let (value, rest) ← readValue? fuel depth (skipSpaces rest)
      match skipSpaces rest with
      | ',' :: rest =>
        let (pairs, rest) ← readPairs? fuel depth rest
        return ((key, value) :: pairs, rest)
      | '}' :: rest => return ([(key, value)], rest)
      | _ => none
    | _ => none

end

/-- A line that says something, and the lines after it. -/
def readContent? : List Char → Option (Line × List Char)
  | '[' :: '[' :: rest => do
    match ← readKey? rest with
    | (key, ']' :: ']' :: rest) => return (.item key, ← endLine? rest)
    | _ => none
  | '[' :: rest => do
    match ← readKey? rest with
    | (key, ']' :: rest) => return (.header key, ← endLine? rest)
    | _ => none
  | content => do
    match ← readKey? content with
    | (key, '=' :: rest) =>
      let (value, rest) ← readValue? (2 * rest.length + 2) (maxDepth - 1) (skipSpaces rest)
      return (.pair key value, ← endLine? rest)
    | _ => none

def readLines? : Nat → List Char → Option (List Line)
  | 0, _ => none
  | fuel + 1, before =>
    match skipLines before.length before with
    | [] => some []
    | rest => do
      let (line, rest) ← readContent? rest
      return line :: (← readLines? fuel rest)

/-- A document that has been read up to some line: the names that lead to the table of the last
header, and the entries. -/
structure Document where
  current : List String := []
  entries : Entries := []

def Document.add (d : Document) : Line → Option Document
  | .header key => (openTable key d.entries).map (⟨key.path ++ [key.name], ·⟩)
  | .item key => (openItem key d.entries).map (⟨key.path ++ [key.name], ·⟩)
  | .pair key value =>
    (alter false (put key value) d.current .header d.entries).map (⟨d.current, ·⟩)

/-- The entries of a document. A byte order mark at the head does not count. -/
def parse? (document : String) : Option Entries := do
  let content := match document.toList with
    | '\ufeff' :: rest => rest
    | content => content
  let lines ← readLines? (content.length + 1) content
  let d ← lines.foldlM Document.add {}
  return d.entries

end MotionScript.Toml
