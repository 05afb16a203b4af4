import TreeWalk.Proofs.Unfolding

/-!
Graphs that are trees under a root: each node that is reached, other than the root, stands in exactly one
place of the child lists of reached nodes, and the root in none. There is then one way to each node, so
the graph unfolds to a tree in which no node stands twice.
-/

namespace TreeWalk.Graph

variable {α : Type} {G : Graph α}

/-- The nodes under the root form a tree. A place is a node together with a position among its
children. -/
structure IsTree (G : Graph α) (root : G.Node) : Prop where
  existsUnique_place : ∀ n, G.Reaches root n → n ≠ root →
    ∃! place : G.Node × Nat, G.Reaches root place.1 ∧ (G.children place.1)[place.2]? = some n
  root_not_mem : ∀ n, G.Reaches root n → root ∉ G.children n

namespace IsTree

variable {root : G.Node}

theorem ne_root (h : G.IsTree root) {p n : G.Node} (hp : G.Reaches root p) (hn : n ∈ G.children p) :
    n ≠ root := by
  rintro rfl
  exact h.root_not_mem p hp hn

theorem place_unique (h : G.IsTree root) {p q n : G.Node} {i j : Nat} (hp : G.Reaches root p)
    (hi : (G.children p)[i]? = some n) (hq : G.Reaches root q) (hj : (G.children q)[j]? = some n) :
    p = q ∧ i = j := by
  have hn := hp.child (List.mem_of_getElem? hi)
  have hne := h.ne_root hp (List.mem_of_getElem? hi)
  have hplace : (p, i) = (q, j) := (h.existsUnique_place n hn hne).unique ⟨hp, hi⟩ ⟨hq, hj⟩
  exact Prod.mk.inj hplace

theorem parent_unique (h : G.IsTree root) {p q n : G.Node} (hp : G.Reaches root p)
    (hpn : n ∈ G.children p) (hq : G.Reaches root q) (hqn : n ∈ G.children q) : p = q := by
  obtain ⟨i, hi⟩ := List.mem_iff_getElem?.mp hpn
  obtain ⟨j, hj⟩ := List.mem_iff_getElem?.mp hqn
  exact (h.place_unique hp hi hq hj).1

/-- A cycle would lead from a node back to its only parent, and from parent to parent to the root. -/
theorem acyclicFrom (h : G.IsTree root) : G.AcyclicFrom root := by
  intro n hn
  induction hn with
  | refl =>
      intro hcycle
      obtain ⟨p, hreach, hchild⟩ := Relation.TransGen.tail'_iff.mp hcycle
      exact h.root_not_mem p hreach hchild
  | @tail m c hm hc ih =>
      intro hcycle
      obtain ⟨p, hreach, hchild⟩ := Relation.TransGen.tail'_iff.mp hcycle
      have hparent : p = m := h.parent_unique ((hm.tail hc).trans hreach) hchild hm hc
      exact ih (Relation.TransGen.head' hc (hparent ▸ hreach))

/-- One way leads to each node. -/
theorem follow_unique (h : G.IsTree root) {n : G.Node} {address address' : List Nat}
    (ha : G.follow root address = some n) (ha' : G.follow root address' = some n) :
    address = address' := by
  induction address using List.reverseRecOn generalizing n address' with
  | nil =>
      obtain rfl : root = n := Option.some.inj ha
      cases address' using List.reverseRecOn with
      | nil => rfl
      | append_singleton front i =>
          obtain ⟨p, hp, hi⟩ := follow_append_singleton.mp ha'
          exact absurd (List.mem_of_getElem? hi) (h.root_not_mem p (reaches_of_follow hp))
  | append_singleton front i ih =>
      obtain ⟨p, hp, hi⟩ := follow_append_singleton.mp ha
      cases address' using List.reverseRecOn with
      | nil =>
          obtain rfl : root = n := Option.some.inj ha'
          exact absurd (List.mem_of_getElem? hi) (h.root_not_mem p (reaches_of_follow hp))
      | append_singleton front' j =>
          obtain ⟨q, hq, hj⟩ := follow_append_singleton.mp ha'
          obtain ⟨rfl, rfl⟩ := h.place_unique (reaches_of_follow hp) hi (reaches_of_follow hq) hj
          rw [ih hp hq]

/-- The way to a node is unique also as a list of nodes. -/
theorem path_unique (h : G.IsTree root) {n : G.Node} {path path' : List G.Node}
    (hpath : G.IsPath root n path) (hpath' : G.IsPath root n path') : path = path' := by
  induction hpath generalizing path' with
  | root =>
      cases hpath' with
      | root => rfl
      | step hway hc => exact absurd hc (h.root_not_mem _ hway.reaches)
  | step hway hc ih =>
      cases hpath' with
      | root => exact absurd hc (h.root_not_mem _ hway.reaches)
      | step hway' hc' =>
          obtain rfl := h.parent_unique hway.reaches hc hway'.reaches hc'
          rw [ih hway']

theorem exists_unfolds (h : G.IsTree root) : ∃ t, G.Unfolds t ∧ t.value = root :=
  acyclicFrom_iff_exists_unfolds.mp h.acyclicFrom

/-- In the tree under the root no node stands twice. -/
theorem nodup_preorder {t : Tree G.Node} (ht : G.Unfolds t) (h : G.IsTree t.value) :
    t.preorder.Nodup := by
  refine List.nodup_iff_count_le_one.mpr fun n => ?_
  have hle : {address | G.follow t.value address = some n}.encard ≤ 1 :=
    Set.encard_le_one_iff.mpr fun _ _ ha ha' => h.follow_unique ha ha'
  rw [← ht.count_preorder n] at hle
  exact_mod_cast hle

end IsTree

end TreeWalk.Graph
