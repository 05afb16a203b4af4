import TreeWalk.Graph
import TreeWalk.Walk

/-!
Ordered trees, how they meet node graphs, and how they are drawn.
-/

namespace TreeWalk

/-! ### Trees

Ordered trees, and how they meet node graphs. A tree is a value with the trees below it; two trees
are the same when they look the same. A graph node without cycles below it unfolds to a tree, in which
a shared node stands once per path. -/

/-- An ordered tree with a value at each place. -/
inductive Tree (α : Type) where
  | node (value : α) (children : List (Tree α))
deriving Repr

/-- A graph with one of its nodes singled out. -/
structure Rooted (α : Type) where
  graph : Graph α
  root : graph.Node

namespace Tree

variable {α β : Type}

def value : Tree α → α
  | node v _ => v

def children : Tree α → List (Tree α)
  | node _ ts => ts

mutual

/-- The number of places. -/
def size : Tree α → Nat
  | node _ ts => 1 + sizeAll ts

def sizeAll : List (Tree α) → Nat
  | [] => 0
  | t :: ts => t.size + sizeAll ts

end

mutual

/-- The number of edges on the longest way down. -/
def height : Tree α → Nat
  | node _ ts => heightAll ts

/-- One more than the greatest height, 0 if there is no tree. -/
def heightAll : List (Tree α) → Nat
  | [] => 0
  | t :: ts => max (t.height + 1) (heightAll ts)

end

mutual

/-- The tree of the images. -/
def map (f : α → β) : Tree α → Tree β
  | node v ts => node (f v) (mapAll f ts)

def mapAll (f : α → β) : List (Tree α) → List (Tree β)
  | [] => []
  | t :: ts => t.map f :: mapAll f ts

end

mutual

/-- The values with their depths, each before those below it. -/
def outline (depth : Nat) : Tree α → List (Nat × α)
  | node v ts => (depth, v) :: outlineAll (depth + 1) ts

def outlineAll (depth : Nat) : List (Tree α) → List (Nat × α)
  | [] => []
  | t :: ts => t.outline depth ++ outlineAll depth ts

end

mutual

def decideEq [DecidableEq α] : (s t : Tree α) → Decidable (s = t)
  | node v ss, node w ts =>
      match decEq v w, decideEqAll ss ts with
      | isTrue hv, isTrue hs => isTrue (by rw [hv, hs])
      | isFalse hv, _ => isFalse fun h => hv (by injection h)
      | _, isFalse hs => isFalse fun h => hs (by injection h)

def decideEqAll [DecidableEq α] : (ss ts : List (Tree α)) → Decidable (ss = ts)
  | [], [] => isTrue rfl
  | [], _ :: _ => isFalse nofun
  | _ :: _, [] => isFalse nofun
  | s :: ss, t :: ts =>
      match s.decideEq t, decideEqAll ss ts with
      | isTrue hs, isTrue hss => isTrue (by rw [hs, hss])
      | isFalse hs, _ => isFalse fun h => hs (by injection h)
      | _, isFalse hss => isFalse fun h => hss (by injection h)

end

instance [DecidableEq α] : DecidableEq (Tree α) := decideEq

/-- The number of edges on the way down that always takes the first child, with `above` edges already
passed. -/
def firstChildDepth (above : Nat) : Tree α → Nat
  | node _ [] => above
  | node _ (first :: _) => first.firstChildDepth (above + 1)

end Tree

namespace Graph

variable {α : Type}

/-- The tree under a node, cut off `depth` steps below it. -/
def unfoldTo (G : Graph α) : Nat → G.Node → Tree α
  | 0, n => .node (G.value n) []
  | depth + 1, n => .node (G.value n) ((G.children n).map (G.unfoldTo depth))

/-- The tree under a node from which no cycle is reached: no way down is as long as there are
nodes. -/
def unfold (G : Graph α) (n : G.Node) : Tree α := G.unfoldTo G.size n

end Graph

/-- The tree under the node singled out. -/
def Rooted.tree {α : Type} (R : Rooted α) : Tree α := R.graph.unfold R.root

/-! ### Drawings

Drawing a tree. Each place takes a line: the root its label alone, any other place one column per
place above it below the root, an arm, and its label. A tree of labels is gathered from a graph along
post-order, where the trees of a node's children are the last ones finished. -/

namespace Tree

/-- The arm that ties a child to its parent. -/
def arm (isLast : Bool) : String := if isLast then "└── " else "├── "

/-- The column under a child: a stem if more children follow, else blank. -/
def column (isLast : Bool) : String := if isLast then "    " else "│   "

mutual

/-- The lines of a child, behind the columns of the places above it. -/
def branch (columns : String) (isLast : Bool) : Tree String → List String
  | node label ts => (columns ++ arm isLast ++ label) :: branches (columns ++ column isLast) ts

/-- The lines of the children of one place. -/
def branches (columns : String) : List (Tree String) → List String
  | [] => []
  | t :: ts => t.branch columns ts.isEmpty ++ branches columns ts

end

/-- The lines of a drawn tree. -/
def lines : Tree String → List String
  | node label ts => label :: branches "" ts

/-- The drawn tree, each line ended by a line feed. -/
def draw (t : Tree String) : String := String.join (t.lines.map (· ++ "\n"))

end Tree

namespace Graph

variable {α : Type}

/-- Finishes the nodes of a post-order in turn. `built` holds the trees finished and not yet below
another one, the latest first; a node takes as many of them as it has children. Nothing if there are
too few. -/
def gather (G : Graph α) (label : G.Node → String) :
    List G.Node → List (Tree String) → Option (List (Tree String))
  | [], built => some built
  | n :: rest, built =>
      let arity := (G.view n).forward.remaining
      let leaves := built.take arity
      if leaves.length = arity then
        G.gather label rest (.node (label n) leaves.reverse :: built.drop arity)
      else none

/-- The tree of the labels under a root from which no cycle is reached. -/
def labelTree (G : Graph α) (label : G.Node → String) (root : G.Node) : Tree String :=
  match G.gather label (G.postOrder root) [] with
  | some (t :: _) => t
  | _ => .node (label root) []

end Graph

end TreeWalk
