import TreeWalk.Toml.Draft
import TreeWalk.Toml.Scalar

/-!
Reading TOML. A document is read into statements, and these are put together. Nesting is bounded:
values nest less than 80 deep, and keys have less than 80 parts. A carriage return counts only before a
line feed, with which it is one line end, and one byte order mark may stand first.
-/

namespace TreeWalk.Toml

/-- The number of levels that is too many, for values and for the parts of keys. -/
def nestingLimit : Nat := 80

/-- The text with each line end a single line feed. -/
def normalizeLineEnds : List Char → List Char
  | [] => []
  | '\r' :: '\n' :: rest => '\n' :: normalizeLineEnds rest
  | c :: rest => c :: normalizeLineEnds rest

def skipSpaces (cs : List Char) : List Char := cs.dropWhile isSpace

/-- Skips blanks, line ends and comments, of which one may have begun. -/
def skipLines : Bool → List Char → Option (List Char)
  | _, [] => some []
  | false, c :: rest =>
      if isSpace c || c = '\n' then skipLines false rest
      else if c = '#' then skipLines true rest
      else some (c :: rest)
  | true, c :: rest =>
      if c = '\n' then skipLines false rest
      else if isLineChar c then skipLines true rest
      else none

/-- Reads a comment up to the end of its line. -/
def skipComment : List Char → Option (List Char)
  | [] => some []
  | c :: rest => if c = '\n' then some rest else if isLineChar c then skipComment rest else none

/-- Reads what may stand behind a statement on its line. -/
def endLine (cs : List Char) : Option (List Char) :=
  match skipSpaces cs with
  | [] => some []
  | '\n' :: rest => some rest
  | '#' :: rest => skipComment rest
  | _ => none

/-- Reads the character `c`. -/
def expect (c : Char) : List Char → Option (List Char)
  | d :: rest => if d = c then some rest else none
  | [] => none

def isBareKeyChar (c : Char) : Bool := c.isAlphanum || c = '_' || c = '-'

/-- Reads one part of a key. -/
def readKeyPart (cs : List Char) : Option (String × List Char) :=
  match cs with
  | '"' :: rest => readBasic .plain [] rest
  | '\'' :: rest => readLiteral [] rest
  | _ =>
      let bare := cs.takeWhile isBareKeyChar
      if bare.isEmpty then none else some (String.ofList bare, cs.dropWhile isBareKeyChar)

/-- Reads a key of at most `parts` parts joined by dots, with blanks around each part. -/
def readKeyParts : Nat → List Char → Option (List String × List Char)
  | 0, _ => none
  | parts + 1, cs => do
      let (part, rest) ← readKeyPart (skipSpaces cs)
      match skipSpaces rest with
      | '.' :: rest =>
          let (more, rest) ← readKeyParts parts rest
          some (part :: more, rest)
      | rest => some ([part], rest)

/-- Reads a key as its last part and the path before it. -/
def readKey (cs : List Char) : Option ((List String × String) × List Char) := do
  let (parts, rest) ← readKeyParts (nestingLimit - 1) cs
  let key ← parts.getLast?
  some ((parts.dropLast, key), rest)

mutual

/-- Reads a value that lies in `depth` others. Each step down or along takes from `fuel`, of which
twice the length of the text is enough. -/
def readValue : Nat → Nat → List Char → Option (Value × List Char)
  | 0, _, _ => none
  | fuel + 1, depth, cs =>
      match cs with
      | '"' :: _ => (readString cs).map fun (s, rest) => (.string s, rest)
      | '\'' :: _ => (readString cs).map fun (s, rest) => (.string s, rest)
      | '[' :: rest =>
          if depth + 1 < nestingLimit then
            (readItems fuel (depth + 1) rest).map fun (items, rest) => (.array items, rest)
          else none
      | '\x7b' :: rest =>
          if depth + 1 < nestingLimit then do
            let (fields, rest) ← readFirstField fuel (depth + 1) (skipSpaces rest)
            let table ← assembleFields fields
            some (.table table, rest)
          else none
      | _ => readWord cs

/-- Reads the items of an array up to its closing bracket; a comma may stand behind the last one. -/
def readItems : Nat → Nat → List Char → Option (List Value × List Char)
  | 0, _, _ => none
  | fuel + 1, depth, cs => do
      match ← skipLines false cs with
      | ']' :: rest => some ([], rest)
      | cs =>
          let (v, rest) ← readValue fuel depth cs
          match ← skipLines false rest with
          | ',' :: rest =>
              let (items, rest) ← readItems fuel depth rest
              some (v :: items, rest)
          | rest =>
              let rest ← expect ']' rest
              some ([v], rest)

/-- Reads the fields of an inline table, which may have none. -/
def readFirstField : Nat → Nat → List Char →
    Option (List (List String × String × Value) × List Char)
  | 0, _, _ => none
  | fuel + 1, depth, cs =>
      match cs with
      | '\x7d' :: rest => some ([], rest)
      | _ => readFields fuel depth cs

/-- Reads fields of an inline table up to its closing brace; a field stands behind every comma. -/
def readFields : Nat → Nat → List Char →
    Option (List (List String × String × Value) × List Char)
  | 0, _, _ => none
  | fuel + 1, depth, cs => do
      let ((path, key), rest) ← readKey cs
      let rest ← expect '=' rest
      let (v, rest) ← readValue fuel depth (skipSpaces rest)
      match skipSpaces rest with
      | ',' :: rest =>
          let (fields, rest) ← readFields fuel depth rest
          some ((path, key, v) :: fields, rest)
      | rest =>
          let rest ← expect '\x7d' rest
          some ([(path, key, v)], rest)

end

/-- Reads a field and the rest of its line. -/
def readField (cs : List Char) : Option (Statement × List Char) := do
  let ((path, key), rest) ← readKey cs
  let rest ← expect '=' rest
  let (v, rest) ← readValue (2 * rest.length + 2) 0 (skipSpaces rest)
  let rest ← endLine rest
  some (.field path key v, rest)

/-- Reads the header of a row behind its two opening brackets, and the rest of its line. -/
def readRowHeader (cs : List Char) : Option (Statement × List Char) := do
  let ((path, key), rest) ← readKey cs
  let rest ← expect ']' rest
  let rest ← expect ']' rest
  let rest ← endLine rest
  some (.row path key, rest)

/-- Reads the header of a table behind its opening bracket, and the rest of its line. -/
def readTableHeader (cs : List Char) : Option (Statement × List Char) := do
  let ((path, key), rest) ← readKey cs
  let rest ← expect ']' rest
  let rest ← endLine rest
  some (.table path key, rest)

/-- Reads one statement. -/
def readStatement (cs : List Char) : Option (Statement × List Char) :=
  match cs with
  | '[' :: '[' :: rest => readRowHeader rest
  | '[' :: rest => readTableHeader rest
  | _ => readField cs

/-- Reads all statements. Each one takes from `fuel`, of which one more than the length of the text is
enough. -/
def readStatements : Nat → List Char → Option (List Statement)
  | 0, _ => none
  | fuel + 1, cs => do
      match ← skipLines false cs with
      | [] => some []
      | cs =>
          let (statement, rest) ← readStatement cs
          let more ← readStatements fuel rest
          some (statement :: more)

/-- One byte order mark at the start does not count. -/
def dropByteOrderMark : List Char → List Char
  | '\uFEFF' :: rest => rest
  | cs => cs

/-- The table that a TOML document describes, nothing if the text is none. -/
def parse? (text : String) : Option Table := do
  let cs := normalizeLineEnds (dropByteOrderMark text.toList)
  assemble (← readStatements (cs.length + 1) cs)

end TreeWalk.Toml
