import TreeWalk.Proofs.Unfolding

/-!
Nodes that look alike. Two nodes, perhaps of different graphs, look alike if they have equal values, equally
many children, and children that look alike position by position. How much the nodes below them are shared
plays no part, so without cycles two nodes look alike exactly if they unfold to the same tree, and a shared
child may be replaced by a fresh copy of itself.
-/

namespace TreeWalk.Graph

variable {α : Type} {G H : Graph α}

theorem acyclicFrom_of_children {n : G.Node} (h : ∀ c ∈ G.children n, G.AcyclicFrom c) : G.AcyclicFrom n := by
  rw [acyclicFrom_iff_exists_unfolds]
  apply exists_unfolds_of_children
  intro c hc
  exact acyclicFrom_iff_exists_unfolds.mp (h c hc)

/-- The tree under a node has the trees under its children below its root. -/
theorem AcyclicFrom.unfold_eq_node {n : G.Node} (h : G.AcyclicFrom n) :
    G.unfold n = .node (G.value n) ((G.children n).map G.unfold) := by
  obtain ⟨⟨m, ts⟩, ht, rfl⟩ := acyclicFrom_iff_exists_unfolds.mp h
  have hbelow : (G.children m).map G.unfold = ts.map (Tree.map G.value) := by
    rw [← ht.values, List.map_map]
    exact List.map_congr_left fun t hmem => (ht.subtree hmem).unfold_eq_map
  rw [ht.unfold_eq_map, Tree.map, Tree.mapAll_eq_map, Tree.value, hbelow]

/-! ### Looking alike -/

/-- The two nodes hold the same value, and their children look alike one by one. -/
inductive Alike (G H : Graph α) : G.Node → H.Node → Prop
  | node {a : G.Node} {b : H.Node} (value : G.value a = H.value b)
      (arity : (G.children a).length = (H.children b).length)
      (children : ∀ (i : Nat) (c : G.Node) (d : H.Node), (G.children a)[i]? = some c →
        (H.children b)[i]? = some d → Alike G H c d) : Alike G H a b

theorem Alike.unfold_eq {a : G.Node} {b : H.Node} (h : G.Alike H a b) (ha : G.AcyclicFrom a)
    (hb : H.AcyclicFrom b) : G.unfold a = H.unfold b := by
  induction h with
  | @node a b hvalue harity _ ih =>
      have hbelow : (G.children a).map G.unfold = (H.children b).map H.unfold := by
        apply List.ext_getElem
        · rw [List.length_map, List.length_map, harity]
        · intro i hi hi'
          rw [List.length_map] at hi hi'
          rw [List.getElem_map, List.getElem_map]
          apply ih i _ _ (List.getElem?_eq_getElem hi) (List.getElem?_eq_getElem hi')
          · exact ha.child (List.getElem_mem hi)
          · exact hb.child (List.getElem_mem hi')
      rw [ha.unfold_eq_node, hb.unfold_eq_node, hvalue, hbelow]

theorem alike_of_unfold_eq {a : G.Node} {b : H.Node} (ha : G.AcyclicFrom a) (hb : H.AcyclicFrom b)
    (heq : G.unfold a = H.unfold b) : G.Alike H a b := by
  obtain ⟨s, hs, rfl⟩ := acyclicFrom_iff_exists_unfolds.mp ha
  induction hs generalizing b with
  | @node n ss hvalues hbelow ih =>
      rw [ha.unfold_eq_node, hb.unfold_eq_node] at heq
      obtain ⟨hvalue, hchildren⟩ := Tree.node.inj heq
      refine .node hvalue ?_ fun i c d hc hd => ?_
      · have hlengths := congrArg List.length hchildren
        rwa [List.length_map, List.length_map] at hlengths
      · have htrees := congrArg (·[i]?) hchildren
        simp only [List.getElem?_map] at htrees
        rw [show (G.children (Tree.value (.node n ss)))[i]? = some c from hc, hd] at htrees
        have hmem : c ∈ ss.map Tree.value := hvalues ▸ List.mem_of_getElem? hc
        obtain ⟨s, hs, rfl⟩ := List.mem_map.mp hmem
        exact ih s hs (hb.child (List.mem_of_getElem? hd)) (hbelow s hs).acyclicFrom (Option.some.inj htrees)

theorem alike_iff_unfold_eq {a : G.Node} {b : H.Node} (ha : G.AcyclicFrom a) (hb : H.AcyclicFrom b) :
    G.Alike H a b ↔ G.unfold a = H.unfold b :=
  ⟨fun h => h.unfold_eq ha hb, alike_of_unfold_eq ha hb⟩

/-! ### Copies -/

/-- Each node of the first graph stands for its image in the second: the values agree, and so do the child
lists. -/
structure Covers (H G : Graph α) (image : H.Node → G.Node) : Prop where
  value : ∀ n, H.value n = G.value (image n)
  children : ∀ n, (H.children n).map image = G.children (image n)

theorem Covers.unfold_eq {image : H.Node → G.Node} (h : H.Covers G image) {n : H.Node}
    (hn : G.AcyclicFrom (image n)) : H.AcyclicFrom n ∧ H.unfold n = G.unfold (image n) := by
  obtain ⟨t, ht, hroot⟩ := acyclicFrom_iff_exists_unfolds.mp hn
  induction ht generalizing n with
  | @node m ts hvalues _ ih =>
      have hbelow : ∀ c ∈ H.children n, H.AcyclicFrom c ∧ H.unfold c = G.unfold (image c) := by
        intro c hc
        have hmem : image c ∈ G.children (image n) := h.children n ▸ List.mem_map_of_mem hc
        have htree : image c ∈ ts.map Tree.value := by
          rw [hvalues, show m = image n from hroot]
          exact hmem
        obtain ⟨t, ht, hvalue⟩ := List.mem_map.mp htree
        exact ih t ht (hn.child hmem) hvalue
      have hacyclic : H.AcyclicFrom n := acyclicFrom_of_children fun c hc => (hbelow c hc).1
      refine ⟨hacyclic, ?_⟩
      have hforest : (H.children n).map H.unfold = (G.children (image n)).map G.unfold := by
        rw [← h.children, List.map_map]
        exact List.map_congr_left fun c hc => (hbelow c hc).2
      rw [hacyclic.unfold_eq_node, hn.unfold_eq_node, h.value, hforest]

/-- The graph with one node more, a copy of `c` that shares the children of `c`. The copy takes the place of
the child of `p` at position `i`; wherever else `c` is a child it stays. -/
abbrev withFreshCopy (G : Graph α) (p : G.Node) (i : Nat) (c : G.Node) : Graph α where
  size := G.size + 1
  value := Fin.lastCases (G.value c) G.value
  view := Fin.lastCases (Layout.row.view ((G.children c).map Fin.castSucc)) fun n =>
    let old := (G.children n).map Fin.castSucc
    Layout.row.view (if n = p then old.set i (Fin.last G.size) else old)

/-- The node that a node of the graph with a copy stands for. -/
def original (G : Graph α) (c : G.Node) : Fin (G.size + 1) → G.Node := Fin.lastCases c id

theorem original_last (c : G.Node) : G.original c (Fin.last G.size) = c := Fin.lastCases_last

theorem original_castSucc (c n : G.Node) : G.original c n.castSucc = n := Fin.lastCases_castSucc _

theorem map_original_castSucc (c : G.Node) (nodes : List G.Node) :
    (nodes.map Fin.castSucc).map (G.original c) = nodes := by
  rw [List.map_map]
  refine (List.map_congr_left fun n _ => ?_).trans (List.map_id nodes)
  exact original_castSucc c n

section FreshCopy

variable (p c : G.Node) (i : Nat)

theorem children_withFreshCopy_last :
    (G.withFreshCopy p i c).children (Fin.last G.size) = (G.children c).map Fin.castSucc := by
  simp only [children, withFreshCopy, Fin.lastCases_last, Layout.toList_view]

theorem children_withFreshCopy_castSucc (n : G.Node) :
    (G.withFreshCopy p i c).children n.castSucc =
      if n = p then ((G.children n).map Fin.castSucc).set i (Fin.last G.size)
      else (G.children n).map Fin.castSucc := by
  simp only [children, withFreshCopy, Fin.lastCases_castSucc, Layout.toList_view]

end FreshCopy

theorem covers_withFreshCopy {p c : G.Node} {i : Nat} (h : (G.children p)[i]? = some c) :
    (G.withFreshCopy p i c).Covers G (G.original c) where
  value := by
    intro n
    cases n using Fin.lastCases with
    | last => simp only [original_last, Fin.lastCases_last]
    | cast n => simp only [original_castSucc, Fin.lastCases_castSucc]
  children := by
    intro n
    cases n using Fin.lastCases with
    | last => rw [children_withFreshCopy_last, original_last, map_original_castSucc]
    | cast n =>
        rw [children_withFreshCopy_castSucc, original_castSucc]
        split
        · rename_i hp
          subst hp
          obtain ⟨hi, rfl⟩ := List.getElem?_eq_some_iff.mp h
          rw [List.map_set, map_original_castSucc, original_last, List.set_getElem_self]
        · exact map_original_castSucc c _

end TreeWalk.Graph
