import TreeWalk.Proofs.Children
import TreeWalk.Proofs.Reach
import TreeWalk.Proofs.Tree

/-!
Unfolding a graph into a tree. A tree of nodes unfolds the graph if the places below each place are
exactly the children of its node, so a shared node stands once per way that leads to it. A root has such
a tree exactly if no cycle is reached from it, and then only one. On a way down this tree no node stands
twice; this bounds its height by the number of nodes and its size by `Graph.pathBound`. Cut off at a depth,
every root has a tree, and it is the whole one if the depth is large enough.
-/

namespace TreeWalk

/-- Lists with the same images are the same if the map tells their members apart. -/
theorem eq_of_map_eq {β γ : Type} {f : β → γ} {xs ys : List β}
    (hunique : ∀ x ∈ xs, ∀ y ∈ ys, f x = f y → x = y) (hmap : xs.map f = ys.map f) : xs = ys := by
  induction xs generalizing ys with
  | nil =>
      cases ys with
      | nil => rfl
      | cons y ys => cases hmap
  | cons x xs ih =>
      cases ys with
      | nil => cases hmap
      | cons y ys =>
          obtain ⟨hhead, htail⟩ := List.cons.inj hmap
          rw [hunique x List.mem_cons_self y List.mem_cons_self hhead,
            ih (fun x' hx' y' hy' => hunique x' (List.mem_cons_of_mem x hx') y'
              (List.mem_cons_of_mem y hy')) htail]

namespace Graph

variable {α : Type} {G : Graph α}

/-- The places below each place are the children of its node. -/
inductive Unfolds (G : Graph α) : Tree G.Node → Prop
  | node {n : G.Node} {ts : List (Tree G.Node)} (values : ts.map Tree.value = G.children n)
      (subtrees : ∀ t ∈ ts, Unfolds G t) : Unfolds G (.node n ts)

namespace Unfolds

theorem values {n : G.Node} {ts : List (Tree G.Node)} (h : G.Unfolds (.node n ts)) :
    ts.map Tree.value = G.children n := by
  cases h with
  | node values _ => exact values

theorem subtree {n : G.Node} {ts : List (Tree G.Node)} (h : G.Unfolds (.node n ts))
    {t : Tree G.Node} (ht : t ∈ ts) : G.Unfolds t := by
  cases h with
  | node _ subtrees => exact subtrees t ht

/-- Every child of a node stands below it. -/
theorem exists_below {n c : G.Node} {ts : List (Tree G.Node)} (h : G.Unfolds (.node n ts))
    (hc : c ∈ G.children n) : ∃ t ∈ ts, t.value = c := by
  rw [← h.values] at hc
  exact List.mem_map.mp hc

/-- The tree under a node is unique. -/
theorem unique {s t : Tree G.Node} (hs : G.Unfolds s) (ht : G.Unfolds t)
    (hvalue : s.value = t.value) : s = t := by
  induction hs generalizing t with
  | @node n ss hvalues _ ih =>
      cases ht with
      | @node m ts hvalues' hbelow' =>
          obtain rfl : n = m := hvalue
          rw [eq_of_map_eq (fun s hs t ht => ih s hs (hbelow' t ht))
            (hvalues.trans hvalues'.symm)]

/-- A node that is reached has its tree inside the tree of the root. -/
theorem exists_of_reaches {t : Tree G.Node} (h : G.Unfolds t) {n : G.Node}
    (hn : G.Reaches t.value n) :
    ∃ s, G.Unfolds s ∧ s.value = n ∧ s.size ≤ t.size ∧ ∀ m ∈ s.preorder, m ∈ t.preorder := by
  induction hn with
  | refl => exact ⟨t, h, rfl, Nat.le_refl _, fun _ hm => hm⟩
  | @tail m c _ hc ih =>
      obtain ⟨⟨m', ss⟩, hs, hvalue, hsize, hmem⟩ := ih
      obtain rfl : m' = m := hvalue
      obtain ⟨s, hsmem, rfl⟩ := hs.exists_below hc
      refine ⟨s, hs.subtree hsmem, rfl, ?_, fun k hk => hmem k ?_⟩
      · have := Tree.size_le_sizeAll hsmem
        rw [Tree.size] at hsize
        omega
      · exact List.mem_cons_of_mem _ (Tree.mem_preorderAll.mpr ⟨s, hsmem, hk⟩)

/-- A node below another one has a smaller tree. -/
theorem size_lt_of_liesAbove {s t : Tree G.Node} (ht : G.Unfolds t) (hs : G.Unfolds s)
    (h : G.LiesAbove t.value s.value) : s.size < t.size := by
  obtain ⟨m, ts⟩ := t
  obtain ⟨c, hc, hreach⟩ := Relation.TransGen.head'_iff.mp h
  obtain ⟨u, hmem, rfl⟩ := ht.exists_below hc
  obtain ⟨s', hs', hvalue, hsize, -⟩ := (ht.subtree hmem).exists_of_reaches hreach
  rw [← hs'.unique hs hvalue]
  have := Tree.size_le_sizeAll hmem
  rw [Tree.size]
  omega

theorem acyclicFrom {t : Tree G.Node} (h : G.Unfolds t) : G.AcyclicFrom t.value := by
  intro n hn hcycle
  obtain ⟨s, hs, rfl, -, -⟩ := h.exists_of_reaches hn
  exact Nat.lt_irrefl _ (size_lt_of_liesAbove hs hs hcycle)

theorem reaches_of_mem_preorder {t : Tree G.Node} (h : G.Unfolds t) {n : G.Node}
    (hn : n ∈ t.preorder) : G.Reaches t.value n := by
  induction h with
  | @node m ts hvalues _ ih =>
      rcases List.mem_cons.mp hn with rfl | hn
      · exact Relation.ReflTransGen.refl
      · obtain ⟨t, ht, hn⟩ := Tree.mem_preorderAll.mp hn
        have hchild : t.value ∈ G.children m := hvalues ▸ List.mem_map_of_mem ht
        exact Relation.ReflTransGen.head hchild (ih t ht hn)

/-- The nodes of the tree are those that its root reaches. -/
theorem mem_preorder_iff {t : Tree G.Node} (h : G.Unfolds t) {n : G.Node} :
    n ∈ t.preorder ↔ G.Reaches t.value n := by
  refine ⟨h.reaches_of_mem_preorder, fun hn => ?_⟩
  obtain ⟨s, -, rfl, -, hmem⟩ := h.exists_of_reaches hn
  exact hmem _ s.value_mem_preorder

/-- No node stands below itself. -/
theorem not_mem_preorder_below {n : G.Node} {ts : List (Tree G.Node)} (h : G.Unfolds (.node n ts))
    {t : Tree G.Node} (ht : t ∈ ts) : n ∉ t.preorder := by
  intro hn
  have hchild : t.value ∈ G.children n := h.values ▸ List.mem_map_of_mem ht
  have hreach : G.Reaches t.value n := (h.subtree ht).reaches_of_mem_preorder hn
  exact h.acyclicFrom n Relation.ReflTransGen.refl (Relation.TransGen.head' hchild hreach)

end Unfolds

/-- On the nodes that a root reaches, lying below is well founded if no cycle is reached. -/
theorem AcyclicFrom.wellFounded {root : G.Node} (h : G.AcyclicFrom root) :
    WellFounded fun c n : { n // G.Reaches root n } => G.LiesAbove n.1 c.1 := by
  have : IsTrans { n // G.Reaches root n } fun c n => G.LiesAbove n.1 c.1 :=
    ⟨fun _ _ _ hab hbc => Relation.TransGen.trans hbc hab⟩
  have : Std.Irrefl fun c n : { n // G.Reaches root n } => G.LiesAbove n.1 c.1 :=
    ⟨fun n => h n.1 n.2⟩
  exact Finite.wellFounded_of_trans_of_irrefl _

theorem exists_forest {children : List G.Node}
    (h : ∀ c ∈ children, ∃ t, G.Unfolds t ∧ t.value = c) :
    ∃ ts : List (Tree G.Node), ts.map Tree.value = children ∧ ∀ t ∈ ts, G.Unfolds t := by
  induction children with
  | nil => exact ⟨[], rfl, fun t ht => absurd ht List.not_mem_nil⟩
  | cons c children ih =>
      obtain ⟨t, ht, rfl⟩ := h c List.mem_cons_self
      obtain ⟨ts, hvalues, hts⟩ := ih fun d hd => h d (List.mem_cons_of_mem _ hd)
      refine ⟨t :: ts, by rw [List.map_cons, hvalues], fun s hs => ?_⟩
      rcases List.mem_cons.mp hs with rfl | hs
      · exact ht
      · exact hts s hs

/-- A node whose children have trees has a tree. -/
theorem exists_unfolds_of_children {n : G.Node}
    (h : ∀ c ∈ G.children n, ∃ t, G.Unfolds t ∧ t.value = c) : ∃ t, G.Unfolds t ∧ t.value = n := by
  obtain ⟨ts, hvalues, hts⟩ := exists_forest h
  exact ⟨.node n ts, .node hvalues hts, rfl⟩

/-- No cycle is reached from a root exactly if the graph under it unfolds to a tree. -/
theorem acyclicFrom_iff_exists_unfolds {root : G.Node} :
    G.AcyclicFrom root ↔ ∃ t, G.Unfolds t ∧ t.value = root := by
  constructor
  · intro h
    have hall : ∀ n : { n // G.Reaches root n }, ∃ t, G.Unfolds t ∧ t.value = n.1 := by
      intro n
      induction n using h.wellFounded.induction with
      | _ n ih =>
          refine exists_unfolds_of_children fun c hc => ?_
          exact ih ⟨c, n.2.child hc⟩ (Relation.TransGen.single hc)
    exact hall ⟨root, Relation.ReflTransGen.refl⟩
  · rintro ⟨t, ht, rfl⟩
    exact ht.acyclicFrom

/-! ### Bounds -/

theorem edgeCount_eq_sum (G : Graph α) : G.edgeCount = ∑ n, (G.children n).length := by
  rw [Fin.sum_univ_def, List.sum_eq_foldl, List.foldl_map]
  simp [edgeCount, children]

namespace Unfolds

/-- The nodes under a child are among those under its parent, without the parent. -/
theorem preorder_subset_erase {n : G.Node} {ts : List (Tree G.Node)} (h : G.Unfolds (.node n ts))
    {t : Tree G.Node} (ht : t ∈ ts) :
    t.preorder.toFinset ⊆ (Tree.preorder (.node n ts)).toFinset.erase n := by
  intro m hm
  rw [List.mem_toFinset] at hm
  refine Finset.mem_erase.mpr ⟨?_, ?_⟩
  · rintro rfl
    exact h.not_mem_preorder_below ht hm
  · rw [List.mem_toFinset]
    exact List.mem_cons_of_mem n (Tree.mem_preorderAll.mpr ⟨t, ht, hm⟩)

theorem mem_toFinset_preorder (n : G.Node) (ts : List (Tree G.Node)) :
    n ∈ (Tree.preorder (.node n ts)).toFinset :=
  List.mem_toFinset.mpr (Tree.value_mem_preorder (.node n ts))

theorem height_lt_card {t : Tree G.Node} (h : G.Unfolds t) :
    t.height < t.preorder.toFinset.card := by
  induction t using Tree.induct with
  | node n ts ih =>
      have hpos := Finset.card_erase_add_one (mem_toFinset_preorder n ts)
      have hle : Tree.heightAll ts ≤ ((Tree.preorder (.node n ts)).toFinset.erase n).card :=
        Tree.heightAll_le fun t ht =>
          (ih t ht (h.subtree ht)).trans_le (Finset.card_le_card (h.preorder_subset_erase ht))
      rw [Tree.height]
      omega

/-- A way down is shorter than the graph has nodes. -/
theorem height_lt_size {t : Tree G.Node} (h : G.Unfolds t) : t.height < G.size := by
  have hcard := Finset.card_le_univ t.preorder.toFinset
  rw [Fintype.card_fin] at hcard
  exact h.height_lt_card.trans_le hcard

/-- Each node doubles the number of places at most once for each of its edges. -/
theorem size_le_two_pow {t : Tree G.Node} (h : G.Unfolds t) :
    t.size ≤ 2 ^ ∑ n ∈ t.preorder.toFinset, (G.children n).length := by
  induction t using Tree.induct with
  | node n ts ih =>
      have hsum := Finset.sum_erase_add _ (fun m => (G.children m).length) (mem_toFinset_preorder n ts)
      set others := ∑ m ∈ (Tree.preorder (.node n ts)).toFinset.erase n, (G.children m).length
        with hothers
      have hchild : ∀ k ∈ ts.map Tree.size, k ≤ 2 ^ others := by
        intro k hk
        obtain ⟨t, ht, rfl⟩ := List.mem_map.mp hk
        refine (ih t ht (h.subtree ht)).trans (Nat.pow_le_pow_right (by decide) ?_)
        exact Finset.sum_le_sum_of_subset (h.preorder_subset_erase ht)
      have hall : Tree.sizeAll ts ≤ (G.children n).length * 2 ^ others := by
        have hle := List.sum_le_card_nsmul (ts.map Tree.size) (2 ^ others) hchild
        rw [← h.values, List.length_map, Tree.sizeAll_eq_sum]
        simpa using hle
      calc Tree.size (.node n ts) = 1 + Tree.sizeAll ts := rfl
        _ ≤ 2 ^ others + (G.children n).length * 2 ^ others :=
            Nat.add_le_add Nat.one_le_two_pow hall
        _ = ((G.children n).length + 1) * 2 ^ others := by
            rw [Nat.add_mul, Nat.one_mul, Nat.add_comm]
        _ ≤ 2 ^ (G.children n).length * 2 ^ others :=
            Nat.mul_le_mul_right _ (Nat.lt_two_pow_self)
        _ = 2 ^ ∑ m ∈ (Tree.preorder (.node n ts)).toFinset, (G.children m).length := by
            rw [← hsum, Nat.add_comm, Nat.pow_add]

/-- The tree has no more places than the bound on the number of paths says. -/
theorem size_le_pathBound {t : Tree G.Node} (h : G.Unfolds t) : t.size ≤ G.pathBound := by
  refine h.size_le_two_pow.trans (Nat.pow_le_pow_right (by decide) ?_)
  rw [edgeCount_eq_sum]
  exact Finset.sum_le_univ_sum_of_nonneg fun _ => Nat.zero_le _

end Unfolds

/-! ### Cutting off -/

/-- The tree of the nodes under a node, cut off `depth` steps below it. On a cycle it goes on to that depth. -/
def treeTo (G : Graph α) : Nat → G.Node → Tree G.Node
  | 0, n => .node n []
  | depth + 1, n => .node n ((G.children n).map (G.treeTo depth))

theorem map_value_treeTo (depth : Nat) (n : G.Node) :
    (G.treeTo depth n).map G.value = G.unfoldTo depth n := by
  induction depth generalizing n with
  | zero => rfl
  | succ depth ih =>
      rw [treeTo, unfoldTo, Tree.map, Tree.mapAll_eq_map, List.map_map]
      exact congrArg (Tree.node (G.value n)) (List.map_congr_left fun c _ => ih c)

namespace Unfolds

/-- Cut off no higher than its height, the tree under a node is whole. -/
theorem treeTo_eq {t : Tree G.Node} (h : G.Unfolds t) {depth : Nat} (hd : t.height ≤ depth) :
    G.treeTo depth t.value = t := by
  induction h generalizing depth with
  | @node n ts hvalues _ ih =>
      cases depth with
      | zero =>
          cases ts with
          | nil => rfl
          | cons t ts =>
              rw [Tree.height, Tree.heightAll] at hd
              omega
      | succ depth =>
          have hbelow : ∀ t ∈ ts, G.treeTo depth t.value = t := by
            intro t ht
            apply ih t ht
            have := Tree.height_lt_heightAll ht
            rw [Tree.height] at hd
            omega
          rw [Tree.value, treeTo, ← hvalues, List.map_map]
          exact congrArg (Tree.node n) ((List.map_congr_left hbelow).trans (List.map_id' ts))

theorem unfoldTo_eq_map {t : Tree G.Node} (h : G.Unfolds t) {depth : Nat} (hd : t.height ≤ depth) :
    G.unfoldTo depth t.value = t.map G.value := by
  rw [← map_value_treeTo, h.treeTo_eq hd]

theorem unfold_eq_map {t : Tree G.Node} (h : G.Unfolds t) : G.unfold t.value = t.map G.value :=
  h.unfoldTo_eq_map (Nat.le_of_lt h.height_lt_size)

end Unfolds

theorem value_unfold (G : Graph α) (n : G.Node) : (G.unfold n).value = G.value n := by
  rw [unfold]
  cases G.size <;> rfl

/-! ### Counting ways -/

namespace Unfolds

/-- The places of the tree are the ways down in the graph. -/
theorem mem_places_iff {t : Tree G.Node} (h : G.Unfolds t) {address : List Nat} {n : G.Node} :
    (address, n) ∈ t.places ↔ G.follow t.value address = some n := by
  induction h generalizing address with
  | @node m ts hvalues _ ih =>
      rw [Tree.places, List.mem_cons, Tree.mem_placesFrom, Tree.value]
      cases address with
      | nil => simp [follow, eq_comm]
      | cons i address =>
          have hget : (G.children m)[i]? = ts[i]?.map Tree.value := by
            rw [← hvalues, List.getElem?_map]
          simp only [follow, hget, Nat.zero_add, List.cons.injEq, Prod.mk.injEq, reduceCtorEq,
            false_and, false_or]
          cases hi : ts[i]? with
          | none =>
              constructor
              · rintro ⟨j, rest, t, hj, -, rfl, -⟩
                rw [hi] at hj
                cases hj
              · intro hnone
                cases hnone
          | some t =>
              rw [Option.map_some, Option.bind_some, ← ih t (List.mem_of_getElem? hi)]
              constructor
              · rintro ⟨j, rest, s, hj, hplace, rfl, rfl⟩
                rw [hi] at hj
                cases hj
                exact hplace
              · intro hplace
                exact ⟨i, address, t, hi, hplace, rfl, rfl⟩

/-- The unfolded tree holds at each address the value of the node there. -/
theorem mem_places_unfold_iff {t : Tree G.Node} (h : G.Unfolds t) {address : List Nat} {v : α} :
    (address, v) ∈ (G.unfold t.value).places ↔ (G.follow t.value address).map G.value = some v := by
  rw [h.unfold_eq_map, Tree.places_map, List.mem_map, Option.map_eq_some_iff]
  constructor
  · rintro ⟨⟨_, n⟩, hplace, heq⟩
    obtain ⟨rfl, rfl⟩ := Prod.mk.inj heq
    exact ⟨n, h.mem_places_iff.mp hplace, rfl⟩
  · rintro ⟨n, hn, rfl⟩
    exact ⟨(address, n), h.mem_places_iff.mpr hn, rfl⟩

/-- The height of the unfolded tree is the length of the longest way down. -/
theorem height_unfold_lt_iff {t : Tree G.Node} (h : G.Unfolds t) {k : Nat} :
    (G.unfold t.value).height < k ↔
      ∀ address, (G.follow t.value address).isSome → address.length < k := by
  rw [Tree.height_lt_iff_places]
  constructor
  · intro hplaces address hsome
    obtain ⟨n, hn⟩ := Option.isSome_iff_exists.mp hsome
    exact hplaces (address, G.value n) (h.mem_places_unfold_iff.mpr (by rw [hn]; rfl))
  · rintro hways ⟨address, v⟩ hplace
    obtain ⟨n, hn, -⟩ := Option.map_eq_some_iff.mp (h.mem_places_unfold_iff.mp hplace)
    exact hways address (by rw [hn]; rfl)

/-- A node stands in the tree once for each way that leads to it. -/
theorem count_preorder {t : Tree G.Node} (h : G.Unfolds t) (n : G.Node) :
    (t.preorder.count n : ℕ∞) = {address | G.follow t.value address = some n}.encard := by
  have hnodup : ((t.places.filter fun place => place.2 == n).map Prod.fst).Nodup :=
    t.nodup_places.sublist (List.filter_sublist.map Prod.fst)
  have hset : {address | G.follow t.value address = some n} =
      (((t.places.filter fun place => place.2 == n).map Prod.fst).toFinset : Set (List Nat)) := by
    ext address
    rw [Set.mem_ofPred_eq, ← h.mem_places_iff]
    simp
  rw [hset, Set.encard_coe_eq_coe_finsetCard, List.toFinset_card_of_nodup hnodup, List.length_map,
    ← List.countP_eq_length_filter, ← t.map_snd_places, List.count, List.countP_map]
  rfl

end Unfolds

/-- Without cycles no way down takes as many steps as there are nodes. -/
theorem AcyclicFrom.length_lt_size {root : G.Node} (h : G.AcyclicFrom root) {address : List Nat}
    (hsome : (G.follow root address).isSome) : address.length < G.size := by
  obtain ⟨t, ht, rfl⟩ := acyclicFrom_iff_exists_unfolds.mp h
  have hheight : (G.unfold t.value).height < G.size := by
    rw [ht.unfold_eq_map, Tree.height_map]
    exact ht.height_lt_size
  exact ht.height_unfold_lt_iff.mp hheight address hsome

end Graph

end TreeWalk
