import TreeWalk.Symbol
import TreeWalk.Toml.Reader
import TreeWalk.Toml.Value
import TreeWalk.Toml.Writer

/-!
Tree documents: a tree of symbols as TOML. The root's fields stand at the top; every other node is a row
of the array `children` of its parent, under a header that repeats that key once per step down. When
read, the rows may also be written in place, as tables or as arrays of kind, text and children, and keys
of other names do not matter.
-/

namespace TreeWalk

namespace Document

open Toml (Value Mismatch)

/-- What the fields read so far say about a node. The nodes of its children are made behind those of the
arena. -/
structure Fields (A : Arena) where
  kind : Option String := none
  text : Option String := none
  children : A.Grown Arena.Nodes := .nil A

/-- A node is made once its kind is known. -/
def Fields.node {A : Arena} (fields : Fields A) : Except Mismatch (A.Grown Arena.Node) :=
  match fields.kind with
  | some kind => .ok (fields.children.node ⟨kind, fields.text⟩)
  | none => .error (.missingField "kind")

mutual

/-- Makes the child that a value describes, behind the nodes of an arena. -/
def readChild (A : Arena) : Value → Except Mismatch (A.Grown Arena.Node)
  | .table entries => do (← readFields (A := A) {} entries).node
  | .array items => readPositions A items
  | .tables [] => .error (.tooShort 0 "struct SyntaxNode with 3 elements")
  | .tables (row :: _) => .error (.wrongType (.table row) "a string")
  | .datetime _ => .error (.missingField "kind")
  | v => .error (.wrongType v "struct SyntaxNode")

/-- Takes in the fields of a table in their order. -/
def readFields {A : Arena} (fields : Fields A) : List (String × Value) → Except Mismatch (Fields A)
  | [] => .ok fields
  | (key, v) :: rest =>
      if key = "kind" then do
        let kind ← v.asString
        readFields { fields with kind := some kind } rest
      else if key = "text" then do
        let text ← v.asString
        readFields { fields with text := some text } rest
      else if key = "children" then do
        let children ← readChildren A v
        readFields { fields with children } rest
      else readFields fields rest

/-- A child written as an array: its kind, then perhaps its text, then perhaps its children. -/
def readPositions (A : Arena) : List Value → Except Mismatch (A.Grown Arena.Node)
  | [] => .error (.tooShort 0 "struct SyntaxNode with 3 elements")
  | kind :: rest => do
      let kind ← kind.asString
      match rest with
      | [] => .ok ((Arena.Grown.nil A).node ⟨kind, none⟩)
      | text :: rest =>
          let text ← text.asString
          match rest with
          | [] => .ok ((Arena.Grown.nil A).node ⟨kind, some text⟩)
          | children :: _ =>
              let children ← readChildren A children
              .ok (children.node ⟨kind, some text⟩)

/-- Makes the children that an array describes. -/
def readChildren (A : Arena) : Value → Except Mismatch (A.Grown Arena.Nodes)
  | .array items => readItems A items
  | .tables rows => readRows A rows
  | v => .error (.wrongType v "a sequence")

def readItems (A : Arena) : List Value → Except Mismatch (A.Grown Arena.Nodes)
  | [] => .ok (.nil A)
  | item :: rest => do
      let child ← readChild A item
      let more ← readItems child.arena rest
      .ok (child.cons more)

def readRows (A : Arena) : List (List (String × Value)) → Except Mismatch (A.Grown Arena.Nodes)
  | [] => .ok (.nil A)
  | row :: rest => do
      let child ← (← readFields (A := A) {} row).node
      let more ← readRows child.arena rest
      .ok (child.cons more)

end

/-- Makes the root that a table describes. -/
def readTable (A : Arena) (table : Toml.Table) : Except Mismatch (A.Grown Arena.Node) := do
  (← readFields (A := A) {} table).node

/-- The nodes that a document describes, each of them made for its place in the document, and their root. -/
def decode (content : String) : Except Toml.ReadError (Rooted Symbol) :=
  match Toml.parse? content with
  | none => .error .notToml
  | some table => ((readTable .empty table).map Arena.Grown.rooted).mapError .mismatch

/-- The tree that a document describes. -/
def parse (content : String) : Except Toml.ReadError (Tree Symbol) := (decode content).map Rooted.tree

/-- The lines of a symbol. -/
def writeSymbol (symbol : Symbol) : List Char :=
  Toml.writeField "kind" (Toml.writeString symbol.kind.toList)
    ++ match symbol.text with
      | none => []
      | some text => Toml.writeField "text" (Toml.writeString text.toList)

/-- The key of the children at a depth: one part per step down. -/
def childrenKey : Nat → List Char
  | 0 => []
  | 1 => "children".toList
  | depth + 1 => "children.".toList ++ childrenKey depth

/-- The lines of a node at a depth. All but the root open a row of the array of children, behind a blank
line. -/
def writeRow : Nat × Symbol → List Char
  | (0, symbol) => writeSymbol symbol
  | (depth + 1, symbol) =>
      ['\n', '[', '['] ++ childrenKey (depth + 1) ++ [']', ']', '\n'] ++ writeSymbol symbol

/-- The document that describes a tree. -/
def write (t : Tree Symbol) : String := String.ofList ((t.outline 0).flatMap writeRow)

end Document

end TreeWalk
