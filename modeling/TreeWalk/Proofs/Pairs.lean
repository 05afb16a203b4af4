import TreeWalk.Listing
import TreeWalk.Proofs.Orders
import TreeWalk.Proofs.ParentMap

/-!
The pairs of a child and its parent. They are found by a walk that asks the parent map about each node, and
they come as the recursion on the tree gives them: for each child of a node from left to right its pair and then
the pairs below it. Only the root has no parent, so there is one pair less than there are nodes, whatever the
labels are.
-/

namespace TreeWalk

/-! ### Pairs of a tree -/

namespace Tree

variable {α β : Type}

mutual

/-- Each value below the root with the one right above it, in pre-order. -/
def pairs : Tree α → List (α × α)
  | node v ts => pairsBelow v ts

/-- The pairs of trees that stand right below a value, each root with that value. -/
def pairsBelow (parent : α) : List (Tree α) → List (α × α)
  | [] => []
  | t :: ts => (t.value, parent) :: (t.pairs ++ pairsBelow parent ts)

end

theorem pairsBelow_eq_flatMap (parent : α) (ts : List (Tree α)) :
    pairsBelow parent ts = ts.flatMap fun t => (t.value, parent) :: t.pairs := by
  induction ts with
  | nil => rfl
  | cons t ts ih => rw [pairsBelow, ih, List.flatMap_cons, List.cons_append]

theorem preorder_eq_cons (t : Tree α) : t.preorder = t.value :: preorderAll t.children := by
  cases t with
  | node v ts => rfl

theorem pairs_map (f : α → β) (t : Tree α) : (t.map f).pairs = t.pairs.map (Prod.map f f) := by
  induction t using induct with
  | node v ts ih =>
      rw [map, pairs, pairs, mapAll_eq_map, pairsBelow_eq_flatMap, pairsBelow_eq_flatMap, List.flatMap_map,
        List.map_flatMap]
      refine List.flatMap_congr fun t ht => ?_
      rw [List.map_cons, value_map, ih t ht]
      rfl

/-- There is one pair for each place but the root. -/
theorem length_pairs (t : Tree α) : t.pairs.length + 1 = t.size := by
  induction t using induct with
  | node v ts ih =>
      have hlengths : (ts.map fun t => ((t.value, v) :: t.pairs).length) = ts.map size :=
        List.map_congr_left ih
      rw [pairs, size, pairsBelow_eq_flatMap, List.length_flatMap, hlengths, sizeAll_eq_sum, Nat.add_comm]

end Tree

/-! ### Pairs by the parent map -/

namespace ParentMap

variable {α : Type} {G : Graph α} {root : G.Node} {map : ParentMap G}

/-- A node with its parent, if it has one. -/
def pairOf (map : ParentMap G) (n : G.Node) : Option (G.Node × G.Node) :=
  (map.parentOf n).map fun parent => (n, parent)

theorem pairOf_root (h : build root = .ok map) : map.pairOf root = none := by
  rw [pairOf, parentOf_eq_none h fun hroot => hroot.2 rfl]
  rfl

theorem pairOf_child (h : build root = .ok map) {n c : G.Node} (hn : G.Reaches root n)
    (hc : c ∈ G.children n) : map.pairOf c = some (c, n) := by
  rw [pairOf, (parentOf_eq_some_iff h).mpr ⟨hn, hc⟩]
  rfl

/-- Along the pre-order of what lies below a node the map gives the pairs of its tree. -/
theorem filterMap_pairOf_below (h : build root = .ok map) {t : Tree G.Node} (ht : G.Unfolds t)
    (hreach : G.Reaches root t.value) :
    (Tree.preorderAll t.children).filterMap map.pairOf = t.pairs := by
  induction ht with
  | @node n ts hvalues _ ih =>
      rw [Tree.children, Tree.preorderAll_eq_flatMap, List.filterMap_flatMap, Tree.pairs,
        Tree.pairsBelow_eq_flatMap]
      refine List.flatMap_congr fun t hmem => ?_
      have hchild : t.value ∈ G.children n := hvalues ▸ List.mem_map_of_mem hmem
      have hpair : map.pairOf t.value = some (t.value, n) := pairOf_child h hreach hchild
      rw [Tree.preorder_eq_cons, List.filterMap_cons_some hpair, ih t hmem (hreach.child hchild)]

theorem filterMap_pairOf_preOrder {t : Tree G.Node} (ht : G.Unfolds t) (h : build t.value = .ok map) :
    (G.preOrder t.value).filterMap map.pairOf = t.pairs := by
  rw [ht.preOrder_eq, Tree.preorder_eq_cons, List.filterMap_cons_none (pairOf_root h)]
  exact filterMap_pairOf_below h ht Relation.ReflTransGen.refl

end ParentMap

/-! ### The listed pairs -/

namespace Graph

/-- In a tree each node under the root stands once. -/
theorem IsTree.ncard_reaches {α : Type} {G : Graph α} {t : Tree G.Node} (ht : G.Unfolds t)
    (h : G.IsTree t.value) : {n | G.Reaches t.value n}.ncard = t.size := by
  have hset : {n | G.Reaches t.value n} = (t.preorder.toFinset : Set G.Node) := by
    ext n
    rw [Set.mem_ofPred_eq, ← ht.mem_preorder_iff]
    simp
  rw [hset, Set.ncard_coe_finset, List.toFinset_card_of_nodup (h.nodup_preorder ht), Tree.length_preorder]

variable {G : Graph Symbol} {root : G.Node}

theorem parentPairs_eq_map {map : ParentMap G} (h : ParentMap.build root = .ok map) :
    G.parentPairs root =
      .ok (((G.preOrder root).filterMap map.pairOf).map (Prod.map G.label G.label)) := by
  rw [parentPairs, h, List.map_filterMap]
  refine congrArg (fun f => Except.ok ((G.preOrder root).filterMap f)) (funext fun n => ?_)
  rw [ParentMap.pairOf, Option.map_map]
  rfl

theorem Unfolds.map_label_unfold {t : Tree G.Node} (ht : G.Unfolds t) :
    (G.unfold t.value).map Symbol.label = t.map G.label := by
  rw [ht.unfold_eq_map, Tree.map_map]
  rfl

/-- Where the nodes under the root are no tree, listing the pairs ends with the duplicate parent that ends the
build of the parent map. On a tree it gives the pairs of the labels as the recursion on the tree does, one less
than there are nodes. -/
theorem parentPairs_recursive (G : Graph Symbol) (root : G.Node) :
    (¬G.IsTree root →
      ∃ duplicate, ParentMap.build root = .error duplicate ∧ G.parentPairs root = .error duplicate) ∧
    (G.IsTree root →
      G.parentPairs root = .ok ((G.unfold root).map Symbol.label).pairs ∧
      ((G.unfold root).map Symbol.label).pairs.length + 1 = {n | G.Reaches root n}.ncard) := by
  refine ⟨fun hno => ?_, fun htree => ?_⟩
  · obtain ⟨duplicate, herror⟩ := ParentMap.exists_error_of_not_isTree hno
    refine ⟨duplicate, herror, ?_⟩
    rw [parentPairs, herror]
    rfl
  · obtain ⟨map, hmap⟩ := ParentMap.exists_build_of_isTree htree
    obtain ⟨t, ht, rfl⟩ := htree.exists_unfolds
    rw [ht.map_label_unfold]
    refine ⟨?_, ?_⟩
    · rw [parentPairs_eq_map hmap, ParentMap.filterMap_pairOf_preOrder ht hmap, Tree.pairs_map]
    · rw [Tree.pairs_map, List.length_map, t.length_pairs, htree.ncard_reaches ht]

/-- A list of two items that look alike, one of them with a leaf below it. -/
def lookalikes : Graph Symbol :=
  .ofRows #[⟨⟨"list", none⟩, [1, 3], .row⟩, ⟨⟨"item", none⟩, [2], .halves⟩, ⟨⟨"leaf", none⟩, [], .row⟩,
    ⟨⟨"item", none⟩, [], .sequence⟩]

theorem isTree_lookalikes : lookalikes.IsTree ⟨0, by decide⟩ :=
  ParentMap.isTree_of_isOk (by decide +kernel)

theorem parentPairs_recursive_lookalikes :
    lookalikes.IsTree ⟨0, by decide⟩ ∧
      lookalikes.parentPairs ⟨0, by decide⟩ = .ok [("item", "list"), ("leaf", "item"), ("item", "list")] ∧
      {n | lookalikes.Reaches ⟨0, by decide⟩ n}.ncard = 4 := by
  obtain ⟨hpairs, hcount⟩ := (parentPairs_recursive lookalikes ⟨0, by decide⟩).2 isTree_lookalikes
  have hlisted : ((lookalikes.unfold ⟨0, by decide⟩).map Symbol.label).pairs =
      [("item", "list"), ("leaf", "item"), ("item", "list")] := by decide +kernel
  rw [hlisted] at hpairs hcount
  exact ⟨isTree_lookalikes, hpairs, hcount.symm⟩

end Graph

end TreeWalk
