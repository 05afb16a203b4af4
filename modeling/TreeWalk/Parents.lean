import TreeWalk.Walk

/-!
Parent maps. The map of a tree is built along its pre-order, entering each node as the parent of its
children from left to right; a child that already has an entry ends the build with an error. That
happens exactly when the nodes under the root do not form a tree, and it happens before a cycle is
walked a second time, so the build takes at most one node more than there are.
-/

namespace TreeWalk

variable {α : Type} {G : Graph α}

/-- A node found as a child a second time: under `firstParent` before, under `secondParent` now. -/
structure DuplicateParent (ν : Type) where
  node : ν
  firstParent : ν
  secondParent : ν
deriving DecidableEq, Repr

/-- The error in words, with a name for each node. -/
def DuplicateParent.message {ν : Type} (name : ν → String) (d : DuplicateParent ν) : String :=
  "duplicate parent assignment for node " ++ name d.node ++ ": already a child of "
    ++ name d.firstParent ++ ", found again under " ++ name d.secondParent

/-- The parent of each node, where it is known. -/
abbrev Graph.ParentTable (G : Graph α) : Type := Vector (Option G.Node) G.size

/-- The depth of each node, where it is known. -/
abbrev Graph.DepthTable (G : Graph α) : Type := Vector (Option Nat) G.size

/-- The parents of the nodes under a root. -/
structure ParentMap (G : Graph α) where
  root : G.Node
  parents : G.ParentTable

namespace ParentMap

/-- Enters `parent` for each of the children in turn. -/
def adopt (parent : G.Node) : List G.Node → G.ParentTable →
    Except (DuplicateParent G.Node) G.ParentTable
  | [], table => .ok table
  | child :: rest, table =>
      match table[child] with
      | some first => .error ⟨child, first, parent⟩
      | none => adopt parent rest (table.set child (some parent))

/-- Enters the children of the nodes of a walk, up to `k` of them. -/
def collect : Nat → PreOrder G → G.ParentTable → Except (DuplicateParent G.Node) G.ParentTable
  | 0, _, table => .ok table
  | k + 1, walk, table =>
      match walk.next with
      | (none, _) => .ok table
      | (some n, rest) =>
          match adopt n (G.view n).forward.toList table with
          | .error duplicate => .error duplicate
          | .ok table => collect k rest table

/-- The parents of the nodes under `root`, if these nodes form a tree. -/
def build (root : G.Node) : Except (DuplicateParent G.Node) (ParentMap G) :=
  match collect (G.size + 1) (.start root) (Vector.replicate G.size none) with
  | .error duplicate => .error duplicate
  | .ok parents => .ok ⟨root, parents⟩

/-- The parent of a node; the root and nodes elsewhere have none. -/
def parentOf (map : ParentMap G) (n : G.Node) : Option G.Node := map.parents[n]

/-- Whether a node lies below the root. -/
def contains (map : ParentMap G) (n : G.Node) : Bool := (map.parentOf n).isSome

/-- The pairs of a child and its parent, by the number of the child. -/
def entries (map : ParentMap G) : List (G.Node × G.Node) :=
  (List.finRange G.size).filterMap fun n => (map.parentOf n).map fun parent => (n, parent)

/-- The number of entries. -/
def length (map : ParentMap G) : Nat := map.entries.length

def isEmpty (map : ParentMap G) : Bool := map.entries.isEmpty

/-- The nodes above a node, as a source: what is left is the climb from `above`. -/
structure Ancestors (G : Graph α) where
  map : ParentMap G
  above : Option G.Node

def Ancestors.next (climb : Ancestors G) : Option G.Node × Ancestors G :=
  match climb.above with
  | none => (none, climb)
  | some n => (some n, { climb with above := climb.map.parentOf n })

/-- A climb knows nothing of its length. -/
def Ancestors.sizeHint (_ : Ancestors G) : SizeHint := ⟨0, none⟩

def climb (map : ParentMap G) (n : G.Node) : Ancestors G := ⟨map, map.parentOf n⟩

/-- The parent, its parent and so on up to the root; empty for the root and for nodes elsewhere. -/
def ancestors (map : ParentMap G) (n : G.Node) : List G.Node :=
  Source.emit Ancestors.next G.size (map.climb n)

/-- How far a node is from the root; 0 for nodes elsewhere. -/
def depthOf (map : ParentMap G) (n : G.Node) : Nat := (map.ancestors n).length

/-- One more node of a pre-order walk enters the table one below its parent. -/
def enterDepth (map : ParentMap G) (table : G.DepthTable) (n : G.Node) : G.DepthTable :=
  let above := (map.parentOf n).bind fun parent => table[parent]
  table.set n (some (match above with
    | some depth => depth + 1
    | none => 0))

/-- The depths of all nodes of the tree, found along one pre-order walk. -/
def depths (map : ParentMap G) : G.DepthTable :=
  (G.preOrder map.root).foldl map.enterDepth (Vector.replicate G.size none)

end ParentMap

/-- The entries of a depth table, by the number of the node. -/
def Graph.DepthTable.entries {G : Graph α} (table : G.DepthTable) : List (G.Node × Nat) :=
  (List.finRange G.size).filterMap fun n => table[n].map fun depth => (n, depth)

end TreeWalk
