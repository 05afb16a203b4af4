import TreeWalk.Source

/-!
Node graphs. A graph has finitely many nodes, each with a value and a view of its ordered children.
-/

namespace TreeWalk

/-! ### Child views

Child views. A node shows its ordered children either by position, with random access, or as a
sequence that can only be read from the front. Children are read in both directions, and a reader is
a source with an exact size: reading backwards a view by position counts down, and a sequence is
first read into a buffer. -/

variable {ν : Type}

/-- Children with random access: how many there are, and which one stands at each position. -/
structure ChildList (ν : Type) where
  length : Nat
  get : Fin length → ν

namespace ChildList

/-- The children in a row. -/
def ofArray (items : Array ν) : ChildList ν := ⟨items.size, fun i => items[i]⟩

/-- A row that grows at both ends: `front` holds its first half from the middle outwards, `back` its
second half. -/
def ofHalves (front back : Array ν) : ChildList ν where
  length := front.size + back.size
  get i :=
    if h : i.val < front.size then front[front.size - 1 - i.val]
    else back[i.val - front.size]

/-- The child at a position, nothing past the end. -/
def get? (items : ChildList ν) (i : Nat) : Option ν :=
  if h : i < items.length then some (items.get ⟨i, h⟩) else none

def isEmpty (items : ChildList ν) : Bool := items.length == 0

/-- All children, the first one first. -/
def toList (items : ChildList ν) : List ν := List.ofFn items.get

end ChildList

/-- How a node shows its ordered children. -/
inductive ChildView (ν : Type) where
  | indexed (items : ChildList ν)
  | sequence (items : List ν)

/-- Reading children from the front. -/
inductive ForwardReader (ν : Type) where
  | indexed (items : ChildList ν) (position : Nat)
  | sequence (rest : List ν)

namespace ForwardReader

/-- How many children are left to read. -/
def remaining : ForwardReader ν → Nat
  | indexed items position => items.length - position
  | sequence rest => rest.length

def next : ForwardReader ν → Option ν × ForwardReader ν
  | indexed items position =>
      match items.get? position with
      | none => (none, indexed items position)
      | some child => (some child, indexed items (position + 1))
  | sequence [] => (none, sequence [])
  | sequence (child :: rest) => (some child, sequence rest)

def sizeHint (reader : ForwardReader ν) : SizeHint := .exact reader.remaining

/-- All children left to read. -/
def toList (reader : ForwardReader ν) : List ν := Source.emit next reader.remaining reader

end ForwardReader

/-- Reading children from the back. -/
inductive BackwardReader (ν : Type) where
  | indexed (items : ChildList ν) (remaining : Nat)
  | buffered (buffer : List ν)

namespace BackwardReader

/-- How many children are left to read. -/
def remaining : BackwardReader ν → Nat
  | indexed _ remaining => remaining
  | buffered buffer => buffer.length

def next : BackwardReader ν → Option ν × BackwardReader ν
  | indexed items 0 => (none, indexed items 0)
  | indexed items (remaining + 1) =>
      match items.get? remaining with
      | none => (none, indexed items (remaining + 1))
      | some child => (some child, indexed items remaining)
  | buffered [] => (none, buffered [])
  | buffered (child :: buffer) => (some child, buffered buffer)

def sizeHint (reader : BackwardReader ν) : SizeHint := .exact reader.remaining

/-- All children left to read. -/
def toList (reader : BackwardReader ν) : List ν := Source.emit next reader.remaining reader

end BackwardReader

namespace ChildView

/-- A view without children. -/
def empty : ChildView ν := sequence []

/-- The child list that a view shows. -/
def toList : ChildView ν → List ν
  | indexed items => items.toList
  | sequence items => items

def forward : ChildView ν → ForwardReader ν
  | indexed items => .indexed items 0
  | sequence items => .sequence items

/-- A sequence has no other end to start from, so it is read into a buffer whose last item comes
first. -/
def backward : ChildView ν → BackwardReader ν
  | indexed items => .indexed items items.length
  | sequence items => .buffered items.reverse

/-- The view in words: a view by position tells its length, a sequence does not know it. -/
def describe : ChildView ν → String
  | indexed items => "Indexed \x7b len: " ++ toString items.length ++ " \x7d"
  | sequence _ => "Sequence"

end ChildView

/-- The ways to lay out a child list. -/
inductive Layout where
  | row
  | halves
  | sequence
deriving DecidableEq, Repr

/-- A view of a child list in a given layout. -/
def Layout.view (layout : Layout) (items : List ν) : ChildView ν :=
  match layout with
  | .row => .indexed (.ofArray items.toArray)
  | .halves =>
      let middle := items.length / 2
      .indexed (.ofHalves (items.take middle).reverse.toArray (items.drop middle).toArray)
  | .sequence => .sequence items

/-! ### Graphs

Node graphs. A graph has finitely many nodes, each with a value and a view of its ordered children.
A node may be the child of several nodes, several times the child of one, or its own descendant:
being a tree is a property of a graph and a root, not of the type. -/

/-- A finite graph of nodes with ordered child lists. Nodes are told apart by their number, not by
their value. -/
structure Graph (α : Type) where
  size : Nat
  value : Fin size → α
  view : Fin size → ChildView (Fin size)

/-- One node in a table of nodes: its value, the numbers of its children, and their layout. -/
structure Row (α : Type) where
  value : α
  children : List Nat
  layout : Layout := .row

namespace Graph

variable {α : Type}

/-- The nodes of a graph. -/
abbrev Node (G : Graph α) : Type := Fin G.size

/-- The ordered children of a node. -/
def children (G : Graph α) (n : G.Node) : List G.Node := (G.view n).toList

/-- The graph that a table describes: row `i` is node `i`, and a number that names no row is no
child. -/
def ofRows (rows : Array (Row α)) : Graph α :=
  let views : Vector (ChildView (Fin rows.size)) rows.size :=
    rows.toVector.map fun row =>
      row.layout.view (row.children.filterMap fun c => if h : c < rows.size then some ⟨c, h⟩ else none)
  { size := rows.size
    value := fun i => rows[i].value
    view := fun i => views[i] }

/-- The number of edges. -/
def edgeCount (G : Graph α) : Nat :=
  (List.finRange G.size).foldl (fun count n => count + (G.view n).forward.remaining) 0

/-- An upper bound on the number of paths from any node of a graph without cycles: a path takes no edge
twice, and which edges it takes tells it from the others. -/
def pathBound (G : Graph α) : Nat := Nat.pow 2 G.edgeCount

end Graph

end TreeWalk
