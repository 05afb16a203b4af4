import TreeWalk.Proofs.Depth
import TreeWalk.Proofs.Orders

/-!
Level order. The queue holds a level of the graph; giving all of it leaves the next level, the children
of its nodes from left to right. In a tree a level is what pre-order shows at one depth, so level order
sorts pre-order by depth and leaves nodes of equal depth in their order.
-/

namespace TreeWalk

open Source (Yields)

variable {α : Type} {G : Graph α}

/-! ### Levels of a graph -/

/-- The nodes `i` steps below the given ones, the children of each node in its place. -/
def Graph.level (G : Graph α) (nodes : List G.Node) : Nat → List G.Node
  | 0 => nodes
  | i + 1 => (G.level nodes i).flatMap G.children

theorem Graph.level_flatMap_children (nodes : List G.Node) (i : Nat) :
    G.level (nodes.flatMap G.children) i = G.level nodes (i + 1) := by
  induction i with
  | zero => rfl
  | succ i ih =>
      rw [level, ih]
      rfl

/-- Below an empty level there is nothing. -/
theorem Graph.level_eq_nil_of_le {nodes : List G.Node} {i j : Nat} (hij : i ≤ j) (h : G.level nodes i = []) :
    G.level nodes j = [] := by
  induction hij with
  | refl => exact h
  | step _ ih => rw [level, ih, List.flatMap_nil]

namespace LevelOrder

/-- Giving the first nodes of the queue leaves the others, and behind them the children of those
given. -/
theorem emit_front {walk : LevelOrder G} {front back : List G.Node} (h : walk.pending = front ++ back) :
    Source.emit next front.length walk = front ∧
      (Source.advance next front.length walk).pending = back ++ front.flatMap G.children := by
  induction front generalizing walk back with
  | nil => exact ⟨rfl, by rw [List.flatMap_nil, List.append_nil]; exact h⟩
  | cons n front ih =>
      rw [List.cons_append] at h
      obtain ⟨walk', hnext, hpending⟩ := next_of_pending_cons h
      rw [List.append_assoc] at hpending
      obtain ⟨hemit, hadvance⟩ := ih hpending
      rw [List.length_cons, Source.emit_succ hnext, Source.advance_succ hnext]
      refine ⟨congrArg (n :: ·) hemit, ?_⟩
      rw [List.flatMap_cons, ← List.append_assoc]
      exact hadvance

/-- The walk gives level after level, also on a graph with cycles. -/
theorem emit_levels {walk : LevelOrder G} {nodes : List G.Node} (h : walk.pending = nodes) (k : Nat) :
    Source.emit next ((List.range k).flatMap (G.level nodes)).length walk =
        (List.range k).flatMap (G.level nodes) ∧
      (Source.advance next ((List.range k).flatMap (G.level nodes)).length walk).pending =
        G.level nodes k := by
  induction k with
  | zero => exact ⟨rfl, h⟩
  | succ k ih =>
      obtain ⟨hemit, hpending⟩ := ih
      rw [← List.append_nil (G.level nodes k)] at hpending
      obtain ⟨hlast, hafter⟩ := emit_front hpending
      rw [List.range_succ, List.flatMap_append, List.flatMap_singleton, List.length_append,
        (worklist G).rests.emit_add, Source.advance_add, hemit, hlast]
      exact ⟨rfl, hafter⟩

theorem yields_levels {walk : LevelOrder G} {nodes : List G.Node} (h : walk.pending = nodes) {k : Nat}
    (hk : G.level nodes k = []) : Yields next ((List.range k).flatMap (G.level nodes)) walk := by
  obtain ⟨hemit, hpending⟩ := emit_levels h k
  rw [hk] at hpending
  rw [← hemit]
  exact Source.yields_emit_of_dry (((worklist G).dry_iff _).mpr hpending)

end LevelOrder

/-! ### Levels of a tree -/

namespace Tree

theorem outline_succ (depth : Nat) (t : Tree α) :
    t.outline (depth + 1) = (t.outline depth).map fun row => (row.1 + 1, row.2) := by
  induction t using induct generalizing depth with
  | node v ts ih =>
      rw [outline, outline, List.map_cons, outlineAll_eq_flatMap, outlineAll_eq_flatMap, List.map_flatMap]
      exact congrArg (_ :: ·) (List.flatMap_congr fun t ht => ih t ht (depth + 1))

theorem map_snd_outline (depth : Nat) (t : Tree α) : (t.outline depth).map Prod.snd = t.preorder := by
  induction t using induct generalizing depth with
  | node v ts ih =>
      rw [outline, preorder, List.map_cons, outlineAll_eq_flatMap, List.map_flatMap,
        preorderAll_eq_flatMap]
      exact congrArg (v :: ·) (List.flatMap_congr fun t ht => ih t ht (depth + 1))

/-- The values at a depth, in pre-order. -/
def atDepth (depth : Nat) (t : Tree α) : List α :=
  ((t.outline 0).filter fun row => row.1 = depth).map Prod.snd

theorem atDepth_zero (t : Tree α) : t.atDepth 0 = [t.value] := by
  obtain ⟨v, ts⟩ := t
  have hbelow : (outlineAll 1 ts).filter (fun row => row.1 = 0) = [] := by
    rw [List.filter_eq_nil_iff, outlineAll_eq_flatMap]
    intro row hrow
    obtain ⟨t, -, ht⟩ := List.mem_flatMap.mp hrow
    rw [outline_succ] at ht
    obtain ⟨above, -, rfl⟩ := List.mem_map.mp ht
    simp
  rw [atDepth, outline, List.filter_cons_of_pos (by simp), hbelow]
  rfl

theorem atDepth_succ (depth : Nat) (t : Tree α) :
    t.atDepth (depth + 1) = t.children.flatMap (atDepth depth) := by
  obtain ⟨v, ts⟩ := t
  rw [atDepth, outline, List.filter_cons_of_neg (by simp), outlineAll_eq_flatMap, List.filter_flatMap,
    List.map_flatMap]
  refine List.flatMap_congr fun t _ => ?_
  rw [outline_succ, List.filter_map, List.map_map, atDepth]
  simp [Function.comp_def]

theorem atDepth_eq_nil {depth : Nat} {t : Tree α} (h : t.height < depth) : t.atDepth depth = [] := by
  have hrows : ∀ row ∈ t.outline 0, row.1 < depth :=
    forall_mem_outline_lt_iff.mpr (by rwa [Nat.zero_add])
  rw [atDepth, List.map_eq_nil_iff, List.filter_eq_nil_iff]
  intro row hrow
  simpa using Nat.ne_of_lt (hrows row hrow)

end Tree

namespace Graph.Unfolds

/-- A level of the graph below the roots of some trees is the same level of the trees. -/
theorem level_eq_atDepth {ts : List (Tree G.Node)} (hts : ∀ t ∈ ts, G.Unfolds t) (depth : Nat) :
    G.level (ts.map Tree.value) depth = ts.flatMap (Tree.atDepth depth) := by
  induction depth generalizing ts with
  | zero =>
      simp only [level, funext Tree.atDepth_zero]
      exact List.map_eq_flatMap
  | succ depth ih =>
      have hbelow : ∀ t ∈ ts.flatMap Tree.children, G.Unfolds t := by
        intro t ht
        obtain ⟨⟨n, us⟩, hmem, ht⟩ := List.mem_flatMap.mp ht
        exact (hts _ hmem).subtree ht
      have hchildren : (ts.map Tree.value).flatMap G.children = (ts.flatMap Tree.children).map Tree.value := by
        rw [List.flatMap_map, List.map_flatMap]
        refine List.flatMap_congr fun t ht => ?_
        obtain ⟨n, us⟩ := t
        exact (hts _ ht).values.symm
      rw [← level_flatMap_children, hchildren, ih hbelow, List.flatMap_assoc]
      exact List.flatMap_congr fun t _ => (t.atDepth_succ depth).symm

theorem level_root_eq_atDepth {t : Tree G.Node} (ht : G.Unfolds t) (depth : Nat) :
    G.level [t.value] depth = t.atDepth depth := by
  have hroot : ∀ s ∈ [t], G.Unfolds s := fun s hs => List.mem_singleton.mp hs ▸ ht
  have hforest := level_eq_atDepth hroot depth
  rw [List.flatMap_singleton] at hforest
  exact hforest

/-- The levels run out below the height of the tree. -/
theorem level_root_eq_nil {t : Tree G.Node} (ht : G.Unfolds t) : G.level [t.value] (t.height + 1) = [] := by
  rw [ht.level_root_eq_atDepth]
  exact Tree.atDepth_eq_nil (Nat.lt_succ_self _)

end Graph.Unfolds

/-! ### Level order by levels -/

namespace Graph

variable {root : G.Node}

/-- The levels run out exactly if no cycle is reached from the root. -/
theorem acyclicFrom_iff_exists_level_eq_nil : G.AcyclicFrom root ↔ ∃ i, G.level [root] i = [] := by
  rw [acyclicFrom_iff_exists_unfolds]
  constructor
  · rintro ⟨t, ht, rfl⟩
    exact ⟨t.height + 1, ht.level_root_eq_nil⟩
  · rintro ⟨i, hi⟩
    have hyields := LevelOrder.yields_levels (LevelOrder.pending_start root) hi
    exact (LevelOrder.worklist G).exists_unfolds_of_yields hyields (List.mem_singleton_self root)

theorem levelOrder_eq_flatMap_level {i : Nat} (h : G.level [root] i = []) :
    G.levelOrder root = (List.range i).flatMap (G.level [root]) := by
  have hyields := LevelOrder.yields_levels (LevelOrder.pending_start root) h
  obtain ⟨t, ht, rfl⟩ := acyclicFrom_iff_exists_unfolds.mp (acyclicFrom_iff_exists_level_eq_nil.mpr ⟨i, h⟩)
  exact ((LevelOrder.worklist G).yields_drain ht (LevelOrder.pending_start t.value)).1.unique hyields

/-- Without cycles level order gives the levels of the unfolded tree, from the root down. -/
theorem Unfolds.levelOrder_eq {t : Tree G.Node} (ht : G.Unfolds t) :
    G.levelOrder t.value = (List.range (t.height + 1)).flatMap fun depth => t.atDepth depth := by
  rw [levelOrder_eq_flatMap_level ht.level_root_eq_nil]
  exact List.flatMap_congr fun depth _ => ht.level_root_eq_atDepth depth

/-- Level order begins with the levels down to any one of them, and behind these the queue holds just the next
level. If no cycle is reached from the root the levels run out; the walk then is all of them and ends. If one
is reached, no level is empty. -/
theorem levelOrder_by_levels (root : G.Node) :
    (∀ n, Source.emit LevelOrder.next ((List.range (n + 1)).flatMap (G.level [root])).length (.start root) =
        (List.range (n + 1)).flatMap (G.level [root]) ∧
      (Source.advance LevelOrder.next ((List.range (n + 1)).flatMap (G.level [root])).length
        (.start root)).queue.toList = G.level [root] (n + 1)) ∧
    (G.AcyclicFrom root → ∃ count, (∀ i, G.level [root] i = [] ↔ count ≤ i) ∧
      Yields LevelOrder.next ((List.range count).flatMap (G.level [root])) (.start root) ∧
      G.levelOrder root = (List.range count).flatMap (G.level [root])) ∧
    (¬G.AcyclicFrom root → ∀ i, G.level [root] i ≠ []) := by
  refine ⟨fun n => LevelOrder.emit_levels (LevelOrder.pending_start root) (n + 1), fun hacyclic => ?_,
    fun hcyclic i hi => hcyclic (acyclicFrom_iff_exists_level_eq_nil.mpr ⟨i, hi⟩)⟩
  have hends := acyclicFrom_iff_exists_level_eq_nil.mp hacyclic
  have hlast : G.level [root] (Nat.find hends) = [] := Nat.find_spec hends
  refine ⟨Nat.find hends, fun i => ⟨Nat.find_min' hends, fun hi => level_eq_nil_of_le hi hlast⟩, ?_,
    levelOrder_eq_flatMap_level hlast⟩
  exact LevelOrder.yields_levels (LevelOrder.pending_start root) hlast

theorem levelOrder_by_levels_diamond :
    diamond.AcyclicFrom ⟨0, by decide⟩ ∧
      ∃ count, (∀ i, diamond.level [⟨0, by decide⟩] i = [] ↔ count ≤ i) ∧
        Yields LevelOrder.next ((List.range count).flatMap (diamond.level [⟨0, by decide⟩]))
          (.start ⟨0, by decide⟩) := by
  obtain ⟨count, hcount, hyields, -⟩ :=
    (levelOrder_by_levels (G := diamond) ⟨0, by decide⟩).2.1 acyclicFrom_diamond
  exact ⟨acyclicFrom_diamond, count, hcount, hyields⟩

end Graph

/-! ### Depths along the orders -/

namespace ParentMap

variable {root : G.Node} {map : ParentMap G}

/-- The outline of a tree under the root, started from the depth of its own root, shows the depth of each
of its nodes. -/
theorem depthOf_of_mem_outline (h : build root = .ok map) {t : Tree G.Node} (ht : G.Unfolds t)
    (hreach : G.Reaches root t.value) {row : Nat × G.Node}
    (hrow : row ∈ t.outline (map.depthOf t.value)) : row.1 = map.depthOf row.2 := by
  induction ht with
  | @node n ts hvalues _ ih =>
      rw [Tree.outline, Tree.outlineAll_eq_flatMap] at hrow
      rcases List.mem_cons.mp hrow with rfl | hrow
      · rfl
      obtain ⟨t, hmem, hrow⟩ := List.mem_flatMap.mp hrow
      have hchild : t.value ∈ G.children n := hvalues ▸ List.mem_map_of_mem hmem
      have hparent : map.parentOf t.value = some n := (parentOf_eq_some_iff h).mpr ⟨hreach, hchild⟩
      rw [Tree.value, ← depthOf_eq_succ h hparent] at hrow
      exact ih t hmem (hreach.child hchild) hrow

theorem outline_eq_map_depthOf {t : Tree G.Node} (ht : G.Unfolds t) (h : build t.value = .ok map) :
    t.outline 0 = t.preorder.map fun n => (map.depthOf n, n) := by
  have hzero : map.depthOf t.value = 0 := depthOf_eq_zero (parentOf_eq_none h fun hroot => hroot.2 rfl)
  have hrows : ∀ row ∈ t.outline 0, row = (map.depthOf row.2, row.2) := by
    intro row hrow
    rw [← hzero] at hrow
    exact Prod.ext (depthOf_of_mem_outline h ht Relation.ReflTransGen.refl hrow) rfl
  rw [← t.map_snd_outline 0, List.map_map]
  exact (List.map_id _).symm.trans (List.map_congr_left hrows)

theorem atDepth_eq_filter {t : Tree G.Node} (ht : G.Unfolds t) (h : build t.value = .ok map) (depth : Nat) :
    t.atDepth depth = t.preorder.filter fun n => map.depthOf n = depth := by
  rw [Tree.atDepth, outline_eq_map_depthOf ht h, List.filter_map, List.map_map]
  exact List.map_id _

end ParentMap

/-! ### Sorting by a key -/

section Sorting

variable {β : Type}

/-- Rearranged items show those of a kind in their old order if the old row of these items can be read
off the new one. -/
theorem filter_eq_of_perm_of_sublist {p : β → Bool} {items items' : List β} (hperm : items'.Perm items)
    (hsublist : (items.filter p).Sublist items') : items'.filter p = items.filter p := by
  have hfiltered := hsublist.filter p
  rw [List.filter_filter] at hfiltered
  simp only [Bool.and_self] at hfiltered
  exact (hfiltered.eq_of_length (hperm.filter p).length_eq.symm).symm

variable (key : β → Nat)

theorem pairwise_mergeSort_key (items : List β) :
    (items.mergeSort fun a b => key a ≤ key b).Pairwise fun a b => key a ≤ key b := by
  have hsorted : (items.mergeSort fun a b => key a ≤ key b).Pairwise
      fun a b => decide (key a ≤ key b) = true :=
    List.pairwise_mergeSort (by grind) (by grind) items
  exact hsorted.imp of_decide_eq_true

theorem filter_mergeSort_key (items : List β) (k : Nat) :
    (items.mergeSort fun a b => key a ≤ key b).filter (fun a => key a = k) =
      items.filter fun a => key a = k := by
  refine filter_eq_of_perm_of_sublist (List.mergeSort_perm _ _) ?_
  refine List.sublist_mergeSort (by grind) (by grind) ?_ List.filter_sublist
  refine List.pairwise_of_forall_mem_list fun a ha b hb => ?_
  have hka : key a = k := by simpa using (List.mem_filter.mp ha).2
  have hkb : key b = k := by simpa using (List.mem_filter.mp hb).2
  simp [hka, hkb]

variable {key} {items items' : List β}

theorem mem_iff_of_filter_eq (h : ∀ k, (items.filter fun a => key a = k) = items'.filter fun a => key a = k)
    (a : β) : a ∈ items ↔ a ∈ items' := by
  have hkey := congrArg (a ∈ ·) (h (key a))
  simpa using hkey

/-- A list sorted by a key is determined by what it shows of each key. -/
theorem eq_of_pairwise_of_filter_eq (hsorted : items.Pairwise fun a b => key a ≤ key b)
    (hsorted' : items'.Pairwise fun a b => key a ≤ key b)
    (h : ∀ k, (items.filter fun a => key a = k) = items'.filter fun a => key a = k) : items = items' := by
  induction items generalizing items' with
  | nil =>
      symm
      apply List.eq_nil_iff_forall_not_mem.mpr
      exact fun a ha => List.not_mem_nil ((mem_iff_of_filter_eq h a).mpr ha)
  | cons a items ih =>
      have hmem := mem_iff_of_filter_eq h
      cases items' with
      | nil => exact absurd ((hmem a).mp List.mem_cons_self) List.not_mem_nil
      | cons b items' =>
          have hba : key b ≤ key a := by
            rcases List.mem_cons.mp ((hmem a).mp List.mem_cons_self) with rfl | ha
            · exact Nat.le_refl _
            · exact (List.pairwise_cons.mp hsorted').1 a ha
          have hab : key a ≤ key b := by
            rcases List.mem_cons.mp ((hmem b).mpr List.mem_cons_self) with rfl | hb
            · exact Nat.le_refl _
            · exact (List.pairwise_cons.mp hsorted).1 b hb
          have hheads := h (key a)
          rw [List.filter_cons_of_pos (by simp),
            List.filter_cons_of_pos (by simp [Nat.le_antisymm hba hab])] at hheads
          obtain ⟨rfl, htails⟩ := List.cons.inj hheads
          refine congrArg (a :: ·) (ih hsorted.of_cons hsorted'.of_cons fun k => ?_)
          by_cases hk : key a = k
          · rw [← hk]
            exact htails
          · have hothers := h k
            rwa [List.filter_cons_of_neg (by simpa using hk),
              List.filter_cons_of_neg (by simpa using hk)] at hothers

end Sorting

namespace ParentMap

variable {root : G.Node} {map : ParentMap G}

theorem pairwise_depthOf_levelOrder {t : Tree G.Node} (ht : G.Unfolds t) (h : build t.value = .ok map) :
    (G.levelOrder t.value).Pairwise fun m n => map.depthOf m ≤ map.depthOf n := by
  have hdepth : ∀ {depth n}, n ∈ t.atDepth depth → map.depthOf n = depth := by
    intro depth n hn
    rw [atDepth_eq_filter ht h] at hn
    simpa using (List.mem_filter.mp hn).2
  rw [ht.levelOrder_eq, List.pairwise_flatMap]
  constructor
  · intro depth _
    refine List.pairwise_of_forall_mem_list fun m hm n hn => ?_
    rw [hdepth hm, hdepth hn]
  · refine List.pairwise_lt_range.imp fun {i j} hlt m hm n hn => ?_
    rw [hdepth hm, hdepth hn]
    exact Nat.le_of_lt hlt

/-- The nodes of one depth are a level, so they stand in level-order as in pre-order. -/
theorem filter_depthOf_levelOrder {t : Tree G.Node} (ht : G.Unfolds t) (h : build t.value = .ok map)
    (depth : Nat) :
    (G.levelOrder t.value).filter (fun n => map.depthOf n = depth) =
      t.preorder.filter fun n => map.depthOf n = depth := by
  have hperm : (G.levelOrder t.value).Perm t.preorder :=
    ((LevelOrder.worklist G).yields_drain ht (LevelOrder.pending_start t.value)).2
  refine filter_eq_of_perm_of_sublist hperm ?_
  rw [← atDepth_eq_filter ht h]
  by_cases hdepth : depth < t.height + 1
  · rw [ht.levelOrder_eq, List.flatMap_def]
    exact List.sublist_flatten_of_mem (List.mem_map_of_mem (List.mem_range.mpr hdepth))
  · rw [Tree.atDepth_eq_nil (by omega)]
    exact List.nil_sublist _

/-- Level order is pre-order sorted by depth: the depths along it, which are those of the depth table,
never decrease, and nodes of one depth stand as in pre-order. -/
theorem levelOrder_eq_mergeSort (h : build root = .ok map) :
    Yields PreOrder.next (G.preOrder root) (.start root) ∧
    Yields LevelOrder.next (G.levelOrder root) (.start root) ∧
    (∀ n ∈ G.preOrder root, map.depths.get n = some (map.depthOf n)) ∧
    G.levelOrder root = (G.preOrder root).mergeSort (fun m n => map.depthOf m ≤ map.depthOf n) ∧
    (G.levelOrder root).Pairwise (fun m n => map.depthOf m ≤ map.depthOf n) ∧
    ∀ depth, (G.levelOrder root).filter (fun n => map.depthOf n = depth) =
      (G.preOrder root).filter fun n => map.depthOf n = depth := by
  obtain ⟨hyields, -, hmem⟩ := preOrder_of_build h
  obtain ⟨t, ht, rfl⟩ := (isTree_of_build h).exists_unfolds
  have hlevels := (LevelOrder.worklist G).yields_drain ht (LevelOrder.pending_start t.value)
  have hsorted := pairwise_depthOf_levelOrder ht h
  have hstable := filter_depthOf_levelOrder ht h
  rw [ht.preOrder_eq] at hyields hmem ⊢
  refine ⟨hyields, hlevels.1, fun n hn => depths_eq_some h ((hmem n).mp hn), ?_, hsorted, hstable⟩
  refine eq_of_pairwise_of_filter_eq hsorted (pairwise_mergeSort_key _ _) fun depth => ?_
  rw [hstable, filter_mergeSort_key]

theorem levelOrder_eq_mergeSort_orchard :
    ∃ map, build orchardRoot = .ok map ∧
      orchard.levelOrder orchardRoot =
        (orchard.preOrder orchardRoot).mergeSort (fun m n => map.depthOf m ≤ map.depthOf n) ∧
      ∀ depth, (orchard.levelOrder orchardRoot).filter (fun n => map.depthOf n = depth) =
        (orchard.preOrder orchardRoot).filter fun n => map.depthOf n = depth := by
  obtain ⟨map, hmap⟩ := exists_build_orchard
  obtain ⟨-, -, -, hsort, -, hstable⟩ := levelOrder_eq_mergeSort hmap
  exact ⟨map, hmap, hsort, hstable⟩

end ParentMap

end TreeWalk
