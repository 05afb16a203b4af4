import TreeWalk.Graph
import TreeWalk.Text.Basic

/-!
Walks through a node graph, in pre-order, in post-order and in level order.
-/

namespace TreeWalk

/-! ### Queues

A first-in first-out queue in two lists: items leave from `front` and arrive on `back`, whose last
arrival comes first. `toList` is the queue as its items will leave it. -/

structure Queue (α : Type) where
  front : List α
  back : List α

namespace Queue

variable {α : Type}

def singleton (a : α) : Queue α := ⟨[a], []⟩

/-- The items in the order in which they leave. -/
def toList (q : Queue α) : List α := q.front ++ q.back.reverse

def length (q : Queue α) : Nat := q.front.length + q.back.length

def push (q : Queue α) (a : α) : Queue α := ⟨q.front, a :: q.back⟩

/-- The first item and the queue without it. -/
def pop? (q : Queue α) : Option (α × Queue α) :=
  match q.front with
  | a :: front => some (a, ⟨front, q.back⟩)
  | [] =>
      match q.back.reverse with
      | a :: front => some (a, ⟨front, []⟩)
      | [] => none

@[simp] theorem toList_push (q : Queue α) (a : α) : (q.push a).toList = q.toList ++ [a] := by
  simp [toList, push]

@[simp] theorem length_toList (q : Queue α) : q.toList.length = q.length := by
  simp [toList, length]

theorem pop?_eq (q : Queue α) :
    (q.pop?).map (fun p => (p.1, p.2.toList))
      = match q.toList with
        | [] => none
        | a :: rest => some (a, rest) := by
  obtain ⟨front, back⟩ := q
  cases front with
  | cons a front => rfl
  | nil =>
      simp only [pop?, toList, List.nil_append]
      cases back.reverse <;> simp

end Queue

/-! ### Orders

The three traversal orders and their names. -/

inductive Order where
  | pre
  | post
  | level
deriving DecidableEq, Repr

instance : Inhabited Order := ⟨.pre⟩

namespace Order

/-- The name under which an order is written. -/
def name : Order → String
  | pre => "pre"
  | post => "post"
  | level => "level"

/-- The order with exactly this name. -/
def ofName? : String → Option Order
  | "pre" => some pre
  | "post" => some post
  | "level" => some level
  | _ => none

/-- A text that names no order, trimmed and in small letters. -/
structure Unknown where
  text : String
deriving DecidableEq, Repr

def Unknown.message (u : Unknown) : String := "unknown traversal order: " ++ u.text

/-- Reads an order as people write it: blanks around it and the case of its letters do not matter,
and longer names are accepted. -/
def parse (s : String) : Except Unknown Order :=
  let text := Text.lowerLatin (Text.trim s)
  if text ∈ ["pre", "preorder", "pre-order"] then .ok pre
  else if text ∈ ["post", "postorder", "post-order"] then .ok post
  else if text ∈ ["level", "levelorder", "level-order", "bfs"] then .ok level
  else .error ⟨text⟩

@[simp] theorem ofName?_name (o : Order) : ofName? o.name = some o := by cases o <;> rfl

end Order

/-! ### Pre-order

Pre-order: a node comes before everything below it. The walk keeps a stack of nodes still to give;
giving a node puts its children on top, pushed from the last to the first so that the first one is
on top. Nothing marks a node as seen, so a shared node comes once per path and a cycle never ends. -/

variable {α : Type} {G : Graph α}

/-- A pre-order walk: the nodes still to give, the next one first. -/
structure PreOrder (G : Graph α) where
  stack : List G.Node

namespace PreOrder

def start (root : G.Node) : PreOrder G := ⟨[root]⟩

def next (walk : PreOrder G) : Option G.Node × PreOrder G :=
  match walk.stack with
  | [] => (none, walk)
  | n :: rest =>
      (some n, ⟨(G.view n).backward.toList.foldl (fun stack child => child :: stack) rest⟩)

/-- Every node on the stack will be given, and nobody knows how many lie below. -/
def sizeHint (walk : PreOrder G) : SizeHint := ⟨walk.stack.length, none⟩

end PreOrder

/-- All nodes in pre-order, for a root from which no cycle is reached. -/
def Graph.preOrder (G : Graph α) (root : G.Node) : List G.Node :=
  Source.drain PreOrder.next G.pathBound (.start root)

/-! ### Level order

Level order: the root, then its children, then their children, each level from left to right. The
walk keeps a queue; giving a node appends its children. -/

/-- A level-order walk: the nodes still to give, the next one first. -/
structure LevelOrder (G : Graph α) where
  queue : Queue G.Node

namespace LevelOrder

def start (root : G.Node) : LevelOrder G := ⟨.singleton root⟩

def next (walk : LevelOrder G) : Option G.Node × LevelOrder G :=
  match walk.queue.pop? with
  | none => (none, walk)
  | some (n, rest) => (some n, ⟨(G.view n).forward.toList.foldl Queue.push rest⟩)

/-- Every node in the queue will be given, and nobody knows how many lie below. -/
def sizeHint (walk : LevelOrder G) : SizeHint := ⟨walk.queue.length, none⟩

end LevelOrder

/-- All nodes in level order, for a root from which no cycle is reached. -/
def Graph.levelOrder (G : Graph α) (root : G.Node) : List G.Node :=
  Source.drain LevelOrder.next G.pathBound (.start root)

/-! ### Post-order

Post-order: a node comes after everything below it. The nodes are first discovered from the root
downwards, with the children of a node on a stack in their natural order so that the last child is
discovered first; the walk then reads what was discovered from its end. Since all of it is known, the
walk can also be read from the other end and knows its length. -/

/-- A discovery under way: the nodes still waiting, the next one first. -/
structure Discovery (G : Graph α) where
  waiting : List G.Node

namespace Discovery

def start (root : G.Node) : Discovery G := ⟨[root]⟩

def next (discovery : Discovery G) : Option G.Node × Discovery G :=
  match discovery.waiting with
  | [] => (none, discovery)
  | n :: rest =>
      (some n, ⟨(G.view n).forward.toList.foldl (fun stack child => child :: stack) rest⟩)

end Discovery

/-- A post-order walk: the nodes in the order of their discovery, of which those at positions
`first` up to but not including `last` are still to give. -/
structure PostOrder (G : Graph α) where
  found : Array G.Node
  first : Nat
  last : Nat

namespace PostOrder

/-- The walk from a root from which no cycle is reached. -/
def start (root : G.Node) : PostOrder G :=
  let found := (Source.drain Discovery.next G.pathBound (.start root)).toArray
  ⟨found, 0, found.size⟩

def length (walk : PostOrder G) : Nat := walk.last - walk.first

/-- The next node in post-order: the last one discovered. -/
def next (walk : PostOrder G) : Option G.Node × PostOrder G :=
  match if walk.first < walk.last then walk.found[walk.last - 1]? else none with
  | none => (none, walk)
  | some n => (some n, { walk with last := walk.last - 1 })

/-- The last node in post-order that is left: the first one discovered. -/
def nextBack (walk : PostOrder G) : Option G.Node × PostOrder G :=
  match if walk.first < walk.last then walk.found[walk.first]? else none with
  | none => (none, walk)
  | some n => (some n, { walk with first := walk.first + 1 })

def sizeHint (walk : PostOrder G) : SizeHint := .exact walk.length

end PostOrder

/-- All nodes in post-order, for a root from which no cycle is reached. -/
def Graph.postOrder (G : Graph α) (root : G.Node) : List G.Node :=
  let walk := PostOrder.start root
  Source.emit PostOrder.next walk.length walk

/-- Post-order read from its end. -/
def Graph.postOrderBackwards (G : Graph α) (root : G.Node) : List G.Node :=
  let walk := PostOrder.start root
  Source.emit PostOrder.nextBack walk.length walk

/-! ### Walks in any order

A walk in any of the three orders. -/

inductive Walk (G : Graph α) where
  | pre (walk : PreOrder G)
  | post (walk : PostOrder G)
  | level (walk : LevelOrder G)

namespace Walk

def start (order : Order) (root : G.Node) : Walk G :=
  match order with
  | .pre => pre (.start root)
  | .post => post (.start root)
  | .level => level (.start root)

def next : Walk G → Option G.Node × Walk G
  | pre walk => walk.next.map id pre
  | post walk => walk.next.map id post
  | level walk => walk.next.map id level

def sizeHint : Walk G → SizeHint
  | pre walk => walk.sizeHint
  | post walk => walk.sizeHint
  | level walk => walk.sizeHint

end Walk

/-- All nodes in the given order, for a root from which no cycle is reached. -/
def Graph.nodes (G : Graph α) (order : Order) (root : G.Node) : List G.Node :=
  match order with
  | .pre => G.preOrder root
  | .post => G.postOrder root
  | .level => G.levelOrder root

end TreeWalk
