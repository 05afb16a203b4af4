import TreeWalk.Proofs.Depth
import TreeWalk.Proofs.Orders

/-!
Nesting. A tree inside another one fills a block of its pre-order that starts with its root, and a block
of its post-order that ends with its root. What post-order shows before the block lies to the left of the
inner tree, and pre-order shows that before the block as well; only the nodes below a node therefore come
behind it in pre-order and before it in post-order, and these are the nodes that have it among their
ancestors.
-/

namespace TreeWalk

open Source (Yields)

/-! ### Positions in a list -/

section Positions

variable {β : Type} [DecidableEq β] {front back : List β} {a b : β}

theorem idxOf_split (hnodup : (front ++ a :: back).Nodup) : (front ++ a :: back).idxOf a = front.length := by
  have ha : a ∉ front := fun hmem => (List.nodup_append.mp hnodup).2.2 a hmem a List.mem_cons_self rfl
  rw [List.idxOf_append_of_notMem ha, List.idxOf_cons_self, Nat.add_zero]

theorem idxOf_lt_iff_mem_front (hnodup : (front ++ a :: back).Nodup) :
    (front ++ a :: back).idxOf b < (front ++ a :: back).idxOf a ↔ b ∈ front := by
  rw [idxOf_split hnodup]
  by_cases hb : b ∈ front
  · rw [List.idxOf_append_of_mem hb]
    exact iff_of_true (List.idxOf_lt_length_of_mem hb) hb
  · rw [List.idxOf_append_of_notMem hb]
    exact iff_of_false (Nat.not_lt.mpr (Nat.le_add_right _ _)) hb

theorem lt_idxOf_iff_mem_back (hnodup : (front ++ a :: back).Nodup) (hb : b ∈ front ++ a :: back) :
    (front ++ a :: back).idxOf a < (front ++ a :: back).idxOf b ↔ b ∈ back := by
  obtain ⟨-, hback, hapart⟩ := List.nodup_append.mp hnodup
  constructor
  · intro hlt
    have hfront : b ∉ front := fun hmem =>
      Nat.lt_asymm hlt ((idxOf_lt_iff_mem_front hnodup).mpr hmem)
    rcases List.mem_cons.mp ((List.mem_append.mp hb).resolve_left hfront) with rfl | hmem
    · exact absurd hlt (Nat.lt_irrefl _)
    · exact hmem
  · intro hmem
    have hfront : b ∉ front := fun hfront => hapart b hfront b (List.mem_cons_of_mem a hmem) rfl
    have hne : a ≠ b := fun heq => (List.nodup_cons.mp hback).1 (heq ▸ hmem)
    rw [idxOf_split hnodup, List.idxOf_append_of_notMem hfront, List.idxOf_cons_ne _ hne]
    omega

end Positions

/-! ### Trees inside a tree -/

namespace Tree

variable {α : Type}

/-- The first tree stands at some place of the second. -/
inductive Inside (s : Tree α) : Tree α → Prop
  | self : Inside s s
  | deeper {t : Tree α} {v : α} {ts : List (Tree α)} (inner : Inside s t) (child : t ∈ ts) :
      Inside s (.node v ts)

/-- An inner tree is one block of each order. What precedes the block in post-order precedes it in
pre-order. -/
theorem Inside.exists_blocks {s t : Tree α} (h : s.Inside t) :
    ∃ before after before' after', t.preorder = before ++ s.preorder ++ after ∧
      t.postorder = before' ++ s.postorder ++ after' ∧ ∀ v ∈ before', v ∈ before := by
  induction h with
  | self => exact ⟨[], [], [], [], by simp, by simp, by simp⟩
  | @deeper t v ts _ hchild ih =>
      obtain ⟨before, after, before', after', hpre, hpost, hleft⟩ := ih
      obtain ⟨us, ws, rfl⟩ := List.append_of_mem hchild
      refine ⟨v :: (preorderAll us ++ before), after ++ preorderAll ws, postorderAll us ++ before',
        after' ++ postorderAll ws ++ [v], ?_, ?_, ?_⟩
      · simp [preorder, preorderAll_append, preorderAll, hpre]
      · simp [postorder, postorderAll_append, postorderAll, hpost]
      · intro w hw
        apply List.mem_cons_of_mem
        rcases List.mem_append.mp hw with hw | hw
        · exact List.mem_append_left _ ((postorderAll_perm us).mem_iff.mp hw)
        · exact List.mem_append_right _ (hleft w hw)

end Tree

namespace Graph.Unfolds

variable {α : Type} {G : Graph α}

theorem exists_inside {t : Tree G.Node} (h : G.Unfolds t) {m : G.Node} (hm : G.Reaches t.value m) :
    ∃ ts, Tree.Inside (.node m ts) t ∧ G.Unfolds (.node m ts) := by
  generalize hroot : t.value = root at hm
  induction hm using Relation.ReflTransGen.head_induction_on generalizing t with
  | refl =>
      obtain ⟨n, ts⟩ := t
      obtain rfl : n = m := hroot
      exact ⟨ts, .self, h⟩
  | head hc _ ih =>
      obtain ⟨n, us⟩ := t
      obtain rfl := hroot
      obtain ⟨u, hu, hvalue⟩ := h.exists_below hc
      obtain ⟨ts, hinside, hunfolds⟩ := ih (h.subtree hu) hvalue
      exact ⟨ts, hinside.deeper hu, hunfolds⟩

theorem mem_preorderAll_iff_liesAbove {m n : G.Node} {ts : List (Tree G.Node)} (h : G.Unfolds (.node m ts)) :
    n ∈ Tree.preorderAll ts ↔ G.LiesAbove m n := by
  have hbelow : G.LiesAbove m n ↔ ∃ t ∈ ts, G.Reaches t.value n := by
    rw [LiesAbove, Relation.TransGen.head'_iff]
    constructor
    · rintro ⟨c, hc, hreach⟩
      obtain ⟨t, ht, rfl⟩ := h.exists_below hc
      exact ⟨t, ht, hreach⟩
    · rintro ⟨t, ht, hreach⟩
      have hchild : t.value ∈ G.children m := h.values ▸ List.mem_map_of_mem ht
      exact ⟨t.value, hchild, hreach⟩
  rw [Tree.mem_preorderAll, hbelow]
  exact exists_congr fun t => and_congr_right fun ht => (h.subtree ht).mem_preorder_iff

/-- The block of a node in each of the two orders, and how the blocks lie to what precedes them. -/
theorem exists_blocks {t : Tree G.Node} (ht : G.Unfolds t) {m : G.Node} (hm : G.Reaches t.value m) :
    ∃ ts, G.Unfolds (.node m ts) ∧ ∃ before after before' after',
      t.preorder = before ++ m :: (Tree.preorderAll ts ++ after) ∧
      t.postorder = (before' ++ Tree.postorderAll ts) ++ m :: after' ∧ ∀ n ∈ before', n ∈ before := by
  obtain ⟨ts, hinside, hunfolds⟩ := ht.exists_inside hm
  obtain ⟨before, after, before', after', hpre, hpost, hleft⟩ := hinside.exists_blocks
  refine ⟨ts, hunfolds, before, after, before', after', ?_, ?_, hleft⟩
  · rw [hpre, Tree.preorder, List.append_assoc]
    rfl
  · rw [hpost, Tree.postorder]
    simp

/-- In a tree the nodes below a node are those behind it in pre-order and before it in post-order. -/
theorem liesAbove_iff_nested {t : Tree G.Node} (ht : G.Unfolds t) (hnodup : t.preorder.Nodup)
    {m n : G.Node} (hm : G.Reaches t.value m) (hn : G.Reaches t.value n) :
    G.LiesAbove m n ↔
      t.preorder.idxOf m < t.preorder.idxOf n ∧ t.postorder.idxOf n < t.postorder.idxOf m := by
  obtain ⟨ts, hunfolds, before, after, before', after', hpre, hpost, hleft⟩ := ht.exists_blocks hm
  have hnodup' : t.postorder.Nodup := t.postorder_perm.nodup_iff.mpr hnodup
  have hmem : n ∈ t.preorder := ht.mem_preorder_iff.mpr hn
  rw [hpre] at hnodup hmem ⊢
  rw [hpost] at hnodup' ⊢
  rw [← hunfolds.mem_preorderAll_iff_liesAbove, lt_idxOf_iff_mem_back hnodup hmem,
    idxOf_lt_iff_mem_front hnodup', List.mem_append, List.mem_append, (Tree.postorderAll_perm ts).mem_iff]
  constructor
  · exact fun hbelow => ⟨Or.inl hbelow, Or.inr hbelow⟩
  · rintro ⟨hbelow | hafter, hbefore | hbelow⟩
    · exact hbelow
    · exact hbelow
    · have hapart := (List.nodup_append.mp hnodup).2.2 n (hleft n hbefore) n
      exact absurd rfl (hapart (List.mem_cons_of_mem m (List.mem_append_right _ hafter)))
    · exact hbelow

end Graph.Unfolds

namespace ParentMap

variable {α : Type} {G : Graph α} {root : G.Node} {map : ParentMap G}

/-- Each step down the way from the root adds one parent to the climb. -/
theorem mem_ancestors_iff (h : build root = .ok map) {m n : G.Node} (hm : G.Reaches root m)
    (hn : G.Reaches root n) : m ∈ map.ancestors n ↔ G.LiesAbove m n := by
  have htree := isTree_of_build h
  induction hn with
  | refl =>
      have hnone : map.parentOf root = none := parentOf_eq_none h fun hroot => hroot.2 rfl
      rw [ancestors_eq_nil hnone]
      refine iff_of_false List.not_mem_nil fun habove => ?_
      exact htree.acyclicFrom root Relation.ReflTransGen.refl (Relation.TransGen.trans_right hm habove)
  | @tail p n hp hc ih =>
      have hparent : map.parentOf n = some p := (parentOf_eq_some_iff h).mpr ⟨hp, hc⟩
      have hparents : m ∈ map.ancestors p ↔ G.LiesAbove m p := ih
      have hlast : G.LiesAbove m n ↔ ∃ q, G.Reaches m q ∧ n ∈ G.children q := Relation.TransGen.tail'_iff
      rw [ancestors_eq_cons h hparent, List.mem_cons, hparents, hlast]
      constructor
      · rintro (rfl | habove)
        · exact ⟨m, Relation.ReflTransGen.refl, hc⟩
        · exact ⟨p, habove.to_reflTransGen, hc⟩
      · rintro ⟨q, hreach, hchild⟩
        obtain rfl : q = p := htree.parent_unique (hm.trans hreach) hchild hp hc
        exact Relation.reflTransGen_iff_eq_or_transGen.mp hreach |>.imp Eq.symm id

/-- A node is an ancestor of another one exactly if it comes before it in pre-order and behind it in
post-order. With the nodes below it, a node fills a block of pre-order that starts with the node, and a
block of post-order that ends with it. -/
theorem ancestors_iff_nested (h : build root = .ok map) :
    (Yields PreOrder.next (G.preOrder root) (.start root) ∧ (G.preOrder root).Nodup) ∧
    (Yields PostOrder.next (G.postOrder root) (.start root) ∧ (G.postOrder root).Nodup) ∧
    (∀ m n, G.Reaches root m → G.Reaches root n →
      (m ∈ map.ancestors n ↔ G.LiesAbove m n) ∧
      (m ∈ map.ancestors n ↔
        (G.preOrder root).idxOf m < (G.preOrder root).idxOf n ∧
        (G.postOrder root).idxOf n < (G.postOrder root).idxOf m)) ∧
    ∀ m, G.Reaches root m →
      (∃ before below after, G.preOrder root = before ++ (m :: below) ++ after ∧
        ∀ n, n ∈ below ↔ G.LiesAbove m n) ∧
      ∃ before below after, G.postOrder root = before ++ (below ++ [m]) ++ after ∧
        ∀ n, n ∈ below ↔ G.LiesAbove m n := by
  obtain ⟨hyields, hnodup, -⟩ := preOrder_of_build h
  obtain ⟨t, ht, rfl⟩ := (isTree_of_build h).exists_unfolds
  have hpost := (G.yields_postOrder t.value).1
  rw [ht.preOrder_eq] at hyields hnodup ⊢
  rw [ht.postOrder_eq] at hpost ⊢
  refine ⟨⟨hyields, hnodup⟩, ⟨hpost, t.postorder_perm.nodup_iff.mpr hnodup⟩, fun m n hm hn => ?_,
    fun m hm => ?_⟩
  · have hancestors := mem_ancestors_iff h hm hn
    exact ⟨hancestors, hancestors.trans (ht.liesAbove_iff_nested hnodup hm hn)⟩
  · obtain ⟨ts, hunfolds, before, after, before', after', hpre, hpost, -⟩ := ht.exists_blocks hm
    refine ⟨⟨before, Tree.preorderAll ts, after, ?_, fun n => hunfolds.mem_preorderAll_iff_liesAbove⟩,
      before', Tree.postorderAll ts, after', ?_, fun n => ?_⟩
    · rw [hpre, List.append_assoc]
      rfl
    · rw [hpost]
      simp
    · rw [(Tree.postorderAll_perm ts).mem_iff]
      exact hunfolds.mem_preorderAll_iff_liesAbove

theorem ancestors_iff_nested_orchard :
    ∃ map, build orchardRoot = .ok map ∧
      (orchardRoot ∈ map.ancestors ⟨1, by decide⟩ ↔
        (orchard.preOrder orchardRoot).idxOf orchardRoot <
            (orchard.preOrder orchardRoot).idxOf ⟨1, by decide⟩ ∧
          (orchard.postOrder orchardRoot).idxOf ⟨1, by decide⟩ <
            (orchard.postOrder orchardRoot).idxOf orchardRoot) ∧
      ∃ before below after,
        orchard.preOrder orchardRoot = before ++ (⟨1, by decide⟩ :: below) ++ after ∧
        ∀ n, n ∈ below ↔ orchard.LiesAbove ⟨1, by decide⟩ n := by
  obtain ⟨map, hmap⟩ := exists_build_orchard
  obtain ⟨-, -, hnested, hblocks⟩ := ancestors_iff_nested hmap
  have hchild : ⟨1, by decide⟩ ∈ orchard.children orchardRoot := by decide +kernel
  have hroot : orchard.Reaches orchardRoot orchardRoot := Relation.ReflTransGen.refl
  exact ⟨map, hmap, (hnested _ _ hroot (hroot.child hchild)).2, (hblocks _ (hroot.child hchild)).1⟩

end ParentMap

end TreeWalk
