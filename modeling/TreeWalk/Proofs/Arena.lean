import TreeWalk.Proofs.Alike
import TreeWalk.Proofs.Orders
import TreeWalk.Symbol

/-!
Arenas that grow. A node keeps its symbol and its children whatever is made after it, so it keeps its tree.
The tree under a node that is made has the trees of its children below its root. If these children share
nothing and were made after some point, the same is true of the new node, since it was not there before.
-/

namespace TreeWalk

/-- A map that keeps the children of nodes takes the tree under a node to the tree under its image. -/
theorem Graph.Unfolds.map {α : Type} {G H : Graph α} {f : G.Node → H.Node}
    (hchildren : ∀ n, H.children (f n) = (G.children n).map f) {t : Tree G.Node} (ht : G.Unfolds t) :
    H.Unfolds (t.map f) := by
  induction ht with
  | @node n ts hvalues _ ih =>
      rw [Tree.map, Tree.mapAll_eq_map]
      refine .node ?_ (List.forall_mem_map.mpr ih)
      rw [hchildren, ← hvalues, List.map_map, List.map_map]
      exact List.map_congr_left fun t _ => Tree.value_map f t

namespace Arena

variable {A B : Arena}

/-! ### Graphs of arenas -/

theorem map_val_children (n : A.Node) : (A.children n).map Fin.val = (A.row n).children := by
  rw [children, List.map_map]
  exact List.attach_map_subtype_val _

theorem lt_of_mem_children {n c : A.Node} (h : c ∈ A.children n) : c < n := by
  have hmem : c.val ∈ (A.row n).children := map_val_children n ▸ List.mem_map_of_mem h
  exact A.children_lt n n.isLt c.val hmem

theorem children_graph (n : A.Node) : A.graph.children n = A.children n := Layout.toList_view _ _

theorem acyclicFrom (n : A.Node) : A.graph.AcyclicFrom n := by
  induction n using WellFoundedLT.induction with
  | _ n ih =>
      apply Graph.acyclicFrom_of_children
      intro c hc
      rw [children_graph] at hc
      exact ih c (lt_of_mem_children hc)

namespace GrowsTo

theorem row_lift (h : A.GrowsTo B) (n : A.Node) : B.row (h.lift n) = A.row n := by
  obtain ⟨rows, hlt⟩ := B
  obtain ⟨more, rfl⟩ := id h
  exact Array.getElem_append_left n.isLt

theorem symbol_lift (h : A.GrowsTo B) (n : A.Node) : B.symbol (h.lift n) = A.symbol n :=
  congrArg Row.value (h.row_lift n)

theorem children_lift (h : A.GrowsTo B) (n : A.Node) : B.children (h.lift n) = (A.children n).map h.lift := by
  apply List.map_injective_iff.mpr Fin.val_injective
  rw [map_val_children, h.row_lift, List.map_map, ← map_val_children]
  rfl

theorem unfolds (h : A.GrowsTo B) {s : Tree A.Node} (hs : A.graph.Unfolds s) : B.graph.Unfolds (s.map h.lift) := by
  refine Graph.Unfolds.map (fun n => ?_) hs
  exact (children_graph _).trans ((h.children_lift n).trans (congrArg _ (children_graph n).symm))

theorem unfold_lift (h : A.GrowsTo B) (n : A.Node) : B.graph.unfold (h.lift n) = A.graph.unfold n := by
  obtain ⟨s, hs, rfl⟩ := Graph.acyclicFrom_iff_exists_unfolds.mp (acyclicFrom n)
  have hB := (h.unfolds hs).unfold_eq_map
  rw [Tree.value_map, Tree.map_map] at hB
  rw [hB, hs.unfold_eq_map]
  exact congrArg (s.map ·) (funext h.symbol_lift)

end GrowsTo

/-! ### The newest node -/

section Newest

variable (A : Arena) (symbol : Symbol) (children : List A.Node)

theorem row_newest :
    (A.make symbol children).row (A.newest symbol children) = ⟨symbol, children.map Fin.val, .row⟩ :=
  Array.getElem_push_eq

theorem children_newest :
    (A.make symbol children).children (A.newest symbol children) =
      children.map (GrowsTo.make A symbol children).lift := by
  apply List.map_injective_iff.mpr Fin.val_injective
  rw [map_val_children, row_newest, List.map_map]
  rfl

theorem unfold_newest :
    (A.make symbol children).graph.unfold (A.newest symbol children) =
      .node symbol (children.map A.graph.unfold) := by
  have hbelow : (children.map (GrowsTo.make A symbol children).lift).map (A.make symbol children).graph.unfold =
      children.map A.graph.unfold := by
    rw [List.map_map]
    exact List.map_congr_left fun c _ => (GrowsTo.make A symbol children).unfold_lift c
  rw [(acyclicFrom _).unfold_eq_node, children_graph, children_newest, hbelow]
  exact congrArg (Tree.node · _) (congrArg Row.value (A.row_newest symbol children))

end Newest

namespace Grown

/-- The tree under the node. -/
def tree (g : A.Grown Node) : Tree Symbol := g.arena.graph.unfold g.made

/-- The trees under the nodes. -/
def trees (g : A.Grown Nodes) : List (Tree Symbol) := g.made.map g.arena.graph.unfold

@[simp] theorem trees_nil (A : Arena) : (nil A).trees = [] := rfl

@[simp] theorem trees_cons (first : A.Grown Node) (rest : first.arena.Grown Nodes) :
    (first.cons rest).trees = first.tree :: rest.trees :=
  congrArg (· :: rest.trees) (rest.grows.unfold_lift first.made)

@[simp] theorem tree_node (children : A.Grown Nodes) (symbol : Symbol) :
    (children.node symbol).tree = .node symbol children.trees :=
  children.arena.unfold_newest symbol children.made

end Grown

/-! ### Freshness -/

/-- The trees stand under the nodes. Their places take the numbers that are new in the second arena, in
post-order. -/
structure Planted (A B : Arena) (nodes : List B.Node) (ts : List (Tree B.Node)) : Prop where
  roots : ts.map Tree.value = nodes
  unfolds : ∀ t ∈ ts, B.graph.Unfolds t
  numbers : List.range A.rows.size ++ (Tree.postorderAll ts).map Fin.val = List.range B.rows.size

/-- The nodes that are new in the second arena are those that the given ones lead to, each by one way. -/
def Fresh (A B : Arena) (nodes : List B.Node) : Prop := ∃ ts, Planted A B nodes ts

theorem GrowsTo.map_val_postorderAll (h : A.GrowsTo B) (ts : List (Tree A.Node)) :
    (Tree.postorderAll (ts.map (Tree.map h.lift))).map Fin.val = (Tree.postorderAll ts).map Fin.val := by
  rw [Tree.postorderAll_map, List.map_map]
  rfl

theorem GrowsTo.map_value_lift (h : A.GrowsTo B) (ts : List (Tree A.Node)) :
    (ts.map (Tree.map h.lift)).map Tree.value = (ts.map Tree.value).map h.lift := by
  rw [List.map_map, List.map_map]
  exact List.map_congr_left fun t _ => Tree.value_map h.lift t

theorem GrowsTo.unfolds_all (h : A.GrowsTo B) {ts : List (Tree A.Node)} (hts : ∀ t ∈ ts, A.graph.Unfolds t) :
    ∀ t ∈ ts.map (Tree.map h.lift), B.graph.Unfolds t :=
  List.forall_mem_map.mpr fun t ht => h.unfolds (hts t ht)

theorem fresh_nil (A : Arena) : Fresh A A [] :=
  ⟨[], rfl, fun _ ht => absurd ht List.not_mem_nil, List.append_nil _⟩

/-- Nodes that are made later are different from those made before. -/
theorem Fresh.append {C : Arena} {first : List B.Node} {rest : List C.Node} (hfirst : Fresh A B first)
    (hgrows : B.GrowsTo C) (hrest : Fresh B C rest) : Fresh A C (first.map hgrows.lift ++ rest) := by
  obtain ⟨ts, hts⟩ := hfirst
  obtain ⟨us, hus⟩ := hrest
  refine ⟨ts.map (Tree.map hgrows.lift) ++ us, ?_, ?_, ?_⟩
  · rw [List.map_append, hgrows.map_value_lift, hts.roots, hus.roots]
  · exact List.forall_mem_append.mpr ⟨hgrows.unfolds_all hts.unfolds, hus.unfolds⟩
  · rw [Tree.postorderAll_append, List.map_append, hgrows.map_val_postorderAll, ← List.append_assoc, hts.numbers,
      hus.numbers]

/-- The newest node is different from all that lie below it. -/
theorem Fresh.newest {nodes : List B.Node} (h : Fresh A B nodes) (symbol : Symbol) :
    Fresh A (B.make symbol nodes) [B.newest symbol nodes] := by
  obtain ⟨ts, hts⟩ := h
  have hgrows := GrowsTo.make B symbol nodes
  refine ⟨[.node (B.newest symbol nodes) (ts.map (Tree.map hgrows.lift))], rfl, ?_, ?_⟩
  · rw [List.forall_mem_singleton]
    refine .node ?_ (hgrows.unfolds_all hts.unfolds)
    rw [hgrows.map_value_lift, hts.roots, children_graph, children_newest]
  · have hrange : List.range (B.make symbol nodes).rows.size = List.range B.rows.size ++ [B.rows.size] := by
      rw [make, Array.size_push, List.range_succ]
    rw [Tree.postorderAll, Tree.postorderAll, Tree.postorder, List.append_nil, List.map_append,
      hgrows.map_val_postorderAll, ← List.append_assoc, hts.numbers, hrange]
    rfl

end Arena

end TreeWalk
