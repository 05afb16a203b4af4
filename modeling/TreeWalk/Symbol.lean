import TreeWalk.Text.Quoted
import TreeWalk.Tree

/-!
Nodes of a syntax tree: the symbols that they hold, and the arenas in which they are made.
-/

namespace TreeWalk

/-! ### Symbols

What the nodes of a syntax tree hold: a kind, and for some of them a text. -/

structure Symbol where
  kind : String
  text : Option String := none
deriving DecidableEq, Repr

/-- The label of a node: its kind, and its text in quotes if it has one. -/
def Symbol.label (s : Symbol) : String :=
  match s.text with
  | none => s.kind
  | some text => s.kind ++ " " ++ Text.quote text

/-- The label of a node in a graph of symbols. -/
def Graph.label (G : Graph Symbol) (n : G.Node) : String := (G.value n).label

/-! ### Arenas

Building nodes. An arena holds the nodes made so far; a node is made once and never changes, and its
children were made before it, so no node lies below itself. Changing a node means making another one,
which shares the children of the first. -/

/-- Nodes in the order in which they were made. -/
structure Arena where
  rows : Array (Row Symbol)
  children_lt : ∀ (i : Nat) (h : i < rows.size), ∀ c ∈ rows[i].children, c < i

namespace Arena

def empty : Arena := ⟨#[], by simp⟩

/-- A node of an arena. -/
abbrev Node (A : Arena) : Type := Fin A.rows.size

/-- Makes a node with the given symbol and children. Its number is the size before. -/
def make (A : Arena) (symbol : Symbol) (children : List A.Node) : Arena where
  rows := A.rows.push ⟨symbol, children.map Fin.val, .row⟩
  children_lt i h c hc := by
    rw [Array.getElem_push] at hc
    split at hc
    · exact A.children_lt i _ c hc
    · have hi : i = A.rows.size := by simp at h; omega
      obtain ⟨n, -, rfl⟩ := List.mem_map.1 hc
      exact hi ▸ n.isLt

/-- The node that was just made. -/
def newest (A : Arena) (symbol : Symbol) (children : List A.Node) : (A.make symbol children).Node :=
  ⟨A.rows.size, by simp [make]⟩

/-- What was given when a node was made. -/
def row (A : Arena) (n : A.Node) : Row Symbol := A.rows[n]

/-- The children of a node. -/
def children (A : Arena) (n : A.Node) : List A.Node :=
  (A.row n).children.attach.map fun c =>
    ⟨c.1, Nat.lt_trans (A.children_lt n n.isLt c.1 c.2) n.isLt⟩

def symbol (A : Arena) (n : A.Node) : Symbol := (A.row n).value

/-- Makes another node like `n`, with the same children. -/
def copy (A : Arena) (n : A.Node) : Arena := A.make (A.symbol n) (A.children n)

/-- Makes a node like `n` with the given text. -/
def withText (A : Arena) (n : A.Node) (text : String) : Arena :=
  A.make { A.symbol n with text := some text } (A.children n)

/-- Makes a node like `n` with more children behind its own. -/
def withChildren (A : Arena) (n : A.Node) (more : List A.Node) : Arena :=
  A.make (A.symbol n) (A.children n ++ more)

/-- The nodes as a graph. -/
abbrev graph (A : Arena) : Graph Symbol where
  size := A.rows.size
  value := A.symbol
  view n := (A.row n).layout.view (A.children n)

/-- The other arena is this one after some more nodes were made. -/
def GrowsTo (A B : Arena) : Prop := ∃ more, B.rows = A.rows ++ more

namespace GrowsTo

variable {A B C : Arena}

theorem refl (A : Arena) : A.GrowsTo A := ⟨#[], by simp⟩

theorem trans (hAB : A.GrowsTo B) (hBC : B.GrowsTo C) : A.GrowsTo C := by
  obtain ⟨more, hB⟩ := hAB
  obtain ⟨more', hC⟩ := hBC
  exact ⟨more ++ more', by rw [hC, hB, Array.append_assoc]⟩

theorem make (A : Arena) (symbol : Symbol) (children : List A.Node) : A.GrowsTo (A.make symbol children) :=
  ⟨#[_], Array.push_eq_append⟩

theorem size_le (h : A.GrowsTo B) : A.rows.size ≤ B.rows.size := by
  obtain ⟨more, hB⟩ := h
  rw [hB, Array.size_append]
  exact Nat.le_add_right _ _

/-- The node in the arena as it has grown. -/
def lift (h : A.GrowsTo B) (n : A.Node) : B.Node := n.castLE h.size_le

end GrowsTo

/-- Some nodes of an arena, in an order. -/
abbrev Nodes (A : Arena) : Type := List A.Node

/-- What is found in an arena once it has grown: a node or some nodes of it. -/
structure Grown (A : Arena) (ν : Arena → Type) where
  arena : Arena
  grows : A.GrowsTo arena
  made : ν arena

namespace Grown

variable {A : Arena}

/-- No nodes, and none made for them. -/
def nil (A : Arena) : A.Grown Nodes := ⟨A, .refl A, []⟩

/-- A node in front of others that were made after it. -/
def cons (first : A.Grown Node) (rest : first.arena.Grown Nodes) : A.Grown Nodes :=
  ⟨rest.arena, first.grows.trans rest.grows, rest.grows.lift first.made :: rest.made⟩

/-- Makes a node above nodes that were made before. -/
def node (children : A.Grown Nodes) (symbol : Symbol) : A.Grown Node where
  arena := children.arena.make symbol children.made
  grows := children.grows.trans (.make _ _ _)
  made := children.arena.newest symbol children.made

/-- The nodes as a graph, with the node that was made. -/
def rooted (g : A.Grown Node) : Rooted Symbol := ⟨g.arena.graph, g.made⟩

end Grown

end Arena

end TreeWalk
