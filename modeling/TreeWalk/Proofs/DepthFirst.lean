import TreeWalk.Proofs.Orders

/-!
The depth-first walks as recursions on the graph. Without cycles the pre-order of a node is the node and then
the pre-orders of its children, and its post-order is the post-orders of its children and then the node. Where
a cycle makes the recursion endless, the first nodes of pre-order are still those of the recursion on a tree
that is cut off: no node among the first `k` lies `k` steps below the root.
-/

namespace TreeWalk

open Source (Yields)

variable {α : Type} {G : Graph α}

/-! ### Recursion -/

namespace Graph.AcyclicFrom

theorem preOrder_eq_cons {n : G.Node} (h : G.AcyclicFrom n) :
    G.preOrder n = n :: (G.children n).flatMap G.preOrder := by
  obtain ⟨⟨m, ts⟩, ht, rfl⟩ := acyclicFrom_iff_exists_unfolds.mp h
  have hbelow : (G.children m).flatMap G.preOrder = ts.flatMap Tree.preorder := by
    rw [← ht.values, List.flatMap_map]
    exact List.flatMap_congr fun t hmem => (ht.subtree hmem).preOrder_eq
  rw [ht.preOrder_eq, Tree.preorder, Tree.preorderAll_eq_flatMap, Tree.value, hbelow]

theorem postOrder_eq_append {n : G.Node} (h : G.AcyclicFrom n) :
    G.postOrder n = (G.children n).flatMap G.postOrder ++ [n] := by
  obtain ⟨⟨m, ts⟩, ht, rfl⟩ := acyclicFrom_iff_exists_unfolds.mp h
  have hbelow : (G.children m).flatMap G.postOrder = ts.flatMap Tree.postorder := by
    rw [← ht.values, List.flatMap_map]
    exact List.flatMap_congr fun t hmem => (ht.subtree hmem).postOrder_eq
  rw [ht.postOrder_eq, Tree.postorder, Tree.postorderAll_eq_flatMap, Tree.value, hbelow]

end Graph.AcyclicFrom

/-! ### Pre-order on any graph -/

theorem Graph.preorder_treeTo_succ (depth : Nat) (n : G.Node) :
    (G.treeTo (depth + 1) n).preorder = n :: (G.children n).flatMap fun c => (G.treeTo depth c).preorder := by
  rw [treeTo, Tree.preorder, Tree.preorderAll_eq_flatMap, List.flatMap_map]

/-- The nodes on the stack may be cut off at different depths. The children of the node on top are cut off one
step higher than it was, and with the node itself given there is one node less to ask for. -/
theorem PreOrder.emit_eq_take {k : Nat} {cuts : List (Nat × G.Node)} (hdeep : ∀ cut ∈ cuts, k ≤ cut.1 + 1) :
    Source.emit next k (⟨cuts.map Prod.snd⟩ : PreOrder G) =
      (cuts.flatMap fun cut => (G.treeTo cut.1 cut.2).preorder).take k := by
  induction k generalizing cuts with
  | zero => rfl
  | succ k ih =>
      cases cuts with
      | nil => rfl
      | cons cut cuts =>
          obtain ⟨depth, n⟩ := cut
          obtain ⟨htop, hrest⟩ := List.forall_mem_cons.mp hdeep
          rw [List.map_cons, Source.emit_succ (next_cons n _), List.flatMap_cons]
          cases depth with
          | zero =>
              obtain rfl : k = 0 := Nat.le_zero.mp (Nat.le_of_succ_le_succ htop)
              rfl
          | succ depth =>
              have hcuts : ∀ cut ∈ (G.children n).map (fun c => (depth, c)) ++ cuts, k ≤ cut.1 + 1 := by
                intro cut hcut
                rcases List.mem_append.mp hcut with hcut | hcut
                · obtain ⟨c, -, rfl⟩ := List.mem_map.mp hcut
                  exact Nat.le_of_succ_le_succ htop
                · exact Nat.le_of_succ_le (hrest cut hcut)
              have hstack : G.children n ++ cuts.map Prod.snd =
                  ((G.children n).map (fun c => (depth, c)) ++ cuts).map Prod.snd := by
                rw [List.map_append, List.map_map]
                exact congrArg (· ++ _) (List.map_id' _).symm
              rw [Graph.preorder_treeTo_succ, List.cons_append, List.take_succ_cons]
              refine congrArg (n :: ·) ?_
              rw [hstack, ih hcuts, List.flatMap_append, List.flatMap_map]

/-- The first `k` nodes of the walk lie less than `k` steps below the root, so cutting off below them takes none
of them away. -/
theorem PreOrder.emit_start_eq_take {k depth : Nat} (h : k ≤ depth + 1) (root : G.Node) :
    Source.emit next k (start root) = (G.treeTo depth root).preorder.take k := by
  have hroot : ∀ cut ∈ [(depth, root)], k ≤ cut.1 + 1 := fun cut hcut => List.mem_singleton.mp hcut ▸ h
  have hemit := emit_eq_take hroot
  rw [List.flatMap_singleton] at hemit
  exact hemit

namespace Graph

/-- Without cycles pre-order is the recursive one: the node, then the pre-orders of its children from left to
right, so that a node comes once for each way that leads to it. On any graph the first `k` nodes are the first
`k` of the recursive pre-order of the tree that is cut off at depth `k`; cutting off one step higher, or
anywhere below, makes no difference. -/
theorem preOrder_recursive (root : G.Node) :
    (G.AcyclicFrom root →
      Yields PreOrder.next (G.preOrder root) (.start root) ∧
      (∀ n, G.Reaches root n → G.preOrder n = n :: (G.children n).flatMap G.preOrder) ∧
      ∃ t, G.Unfolds t ∧ t.value = root ∧ G.preOrder root = t.preorder ∧
        ∀ n, ((G.preOrder root).count n : ℕ∞) = {address | G.follow root address = some n}.encard) ∧
    ∀ k depth, k ≤ depth + 1 →
      Source.emit PreOrder.next k (.start root) = (G.treeTo depth root).preorder.take k := by
  refine ⟨fun hacyclic => ?_, fun k depth hk => PreOrder.emit_start_eq_take hk root⟩
  have hequation : ∀ n, G.Reaches root n → G.preOrder n = n :: (G.children n).flatMap G.preOrder :=
    fun n hn => (hacyclic.of_reaches hn).preOrder_eq_cons
  obtain ⟨t, ht, rfl⟩ := acyclicFrom_iff_exists_unfolds.mp hacyclic
  have heq : G.preOrder t.value = t.preorder := ht.preOrder_eq
  refine ⟨heq ▸ ht.yields_preorder, hequation, t, ht, rfl, heq, fun n => ?_⟩
  rw [heq]
  exact ht.count_preorder n

/-- A cycle below the root, beside a leaf that comes again on each round. -/
def spiral : Graph Unit := .ofRows #[⟨(), [1], .halves⟩, ⟨(), [2, 1], .sequence⟩, ⟨(), [], .row⟩]

theorem preOrder_recursive_spiral :
    (diamond.AcyclicFrom ⟨0, by decide⟩ ∧
      diamond.preOrder ⟨0, by decide⟩ =
        ⟨0, by decide⟩ :: (diamond.children ⟨0, by decide⟩).flatMap diamond.preOrder) ∧
    Source.emit PreOrder.next 5 (.start ⟨0, by decide⟩ : PreOrder spiral) =
      (spiral.treeTo 5 ⟨0, by decide⟩).preorder.take 5 := by
  obtain ⟨-, hequation, -⟩ := (preOrder_recursive (G := diamond) ⟨0, by decide⟩).1 acyclicFrom_diamond
  exact ⟨⟨acyclicFrom_diamond, hequation _ Relation.ReflTransGen.refl⟩,
    (preOrder_recursive (G := spiral) ⟨0, by decide⟩).2 5 5 (by decide)⟩

end Graph

/-! ### Post-order -/

namespace Discovery

/-- The children of a node are discovered from the last to the first, and what is discovered is read from its
end: the node stays behind its children. -/
theorem flatMap_postOrder_step {n : G.Node} (h : G.AcyclicFrom n) (rest : List G.Node) :
    ((G.children n).reverse ++ rest).reverse.flatMap G.postOrder ++ [n] =
      (n :: rest).reverse.flatMap G.postOrder := by
  calc ((G.children n).reverse ++ rest).reverse.flatMap G.postOrder ++ [n]
      = rest.reverse.flatMap G.postOrder ++ ((G.children n).flatMap G.postOrder ++ [n]) := by simp
    _ = rest.reverse.flatMap G.postOrder ++ G.postOrder n := by rw [h.postOrder_eq_append]
    _ = (n :: rest).reverse.flatMap G.postOrder := by simp

/-- At each moment the post-orders of the waiting nodes, from the bottom of the stack, and then what has been
discovered, from its end, are what the post-orders of the first waiting nodes were. -/
theorem flatMap_postOrder_advance {discovery : Discovery G} (h : ∀ n ∈ discovery.waiting, G.AcyclicFrom n)
    (k : Nat) :
    (Source.advance next k discovery).waiting.reverse.flatMap G.postOrder ++
        (Source.emit next k discovery).reverse =
      discovery.waiting.reverse.flatMap G.postOrder := by
  induction k generalizing discovery with
  | zero => exact List.append_nil _
  | succ k ih =>
      obtain ⟨waiting⟩ := discovery
      cases waiting with
      | nil =>
          have hdry : (⟨[]⟩ : Discovery G).next.1 = none := rfl
          rw [(worklist G).rests.advance_of_dry hdry, Source.emit_of_dry hdry]
          rfl
      | cons n rest =>
          obtain ⟨hn, hrest⟩ := List.forall_mem_cons.mp h
          have hafter : ∀ m ∈ (G.children n).reverse ++ rest, G.AcyclicFrom m := by
            intro m hm
            rcases List.mem_append.mp hm with hm | hm
            · exact hn.child (List.mem_reverse.mp hm)
            · exact hrest m hm
          have hadvance : Source.advance next (k + 1) (⟨n :: rest⟩ : Discovery G) =
              Source.advance next k ⟨(G.children n).reverse ++ rest⟩ := by
            rw [Source.advance_succ (next_cons n rest)]
          have hemit : Source.emit next (k + 1) (⟨n :: rest⟩ : Discovery G) =
              n :: Source.emit next k ⟨(G.children n).reverse ++ rest⟩ := by
            rw [Source.emit_succ (next_cons n rest)]
          rw [hadvance, hemit, List.reverse_cons, ← List.append_assoc, ih hafter]
          exact flatMap_postOrder_step hn rest

end Discovery

namespace Graph

/-- Without cycles post-order is the recursive one: the post-orders of the children from left to right, then
the node. It is what the discovery has found, read from its end, and it can be told at each moment of the
discovery from the nodes that are waiting and those that have been found. -/
theorem postOrder_recursive {root : G.Node} (h : G.AcyclicFrom root) :
    Yields PostOrder.next (G.postOrder root) (.start root) ∧
    (∀ n, G.Reaches root n → G.postOrder n = (G.children n).flatMap G.postOrder ++ [n]) ∧
    (∃ t, G.Unfolds t ∧ t.value = root ∧ G.postOrder root = t.postorder ∧
      ∀ n, ((G.postOrder root).count n : ℕ∞) = {address | G.follow root address = some n}.encard) ∧
    (Yields Discovery.next (PostOrder.start root).found.toList (.start root) ∧
      G.postOrder root = (PostOrder.start root).found.toList.reverse) ∧
    ∀ k, G.postOrder root =
      (Source.advance Discovery.next k (.start root)).waiting.reverse.flatMap G.postOrder ++
        (Source.emit Discovery.next k (.start root)).reverse := by
  have hequation : ∀ n, G.Reaches root n → G.postOrder n = (G.children n).flatMap G.postOrder ++ [n] :=
    fun n hn => (h.of_reaches hn).postOrder_eq_append
  have hwaiting : ∀ n ∈ (Discovery.start root).waiting, G.AcyclicFrom n :=
    fun n hn => List.mem_singleton.mp hn ▸ h
  obtain ⟨t, ht, rfl⟩ := acyclicFrom_iff_exists_unfolds.mp h
  obtain ⟨hyields, hreversed⟩ := G.yields_postOrder t.value
  refine ⟨hyields, hequation, ⟨t, ht, rfl, ht.postOrder_eq, fun n => ?_⟩, ⟨?_, ?_⟩, fun k => ?_⟩
  · rw [ht.postOrder_eq, t.postorder_perm.count_eq]
    exact ht.count_preorder n
  · exact ((Discovery.worklist G).yields_drain ht rfl).1
  · exact hreversed
  · rw [Discovery.flatMap_postOrder_advance hwaiting]
    exact (List.flatMap_singleton _ _).symm

theorem postOrder_recursive_diamond :
    diamond.AcyclicFrom ⟨0, by decide⟩ ∧
      Yields PostOrder.next (diamond.postOrder ⟨0, by decide⟩) (.start ⟨0, by decide⟩) ∧
      diamond.postOrder ⟨0, by decide⟩ =
        (diamond.children ⟨0, by decide⟩).flatMap diamond.postOrder ++ [⟨0, by decide⟩] := by
  obtain ⟨hyields, hequation, -⟩ := postOrder_recursive acyclicFrom_diamond
  exact ⟨acyclicFrom_diamond, hyields, hequation _ Relation.ReflTransGen.refl⟩

end Graph

end TreeWalk
