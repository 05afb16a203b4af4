import TreeWalk.Proofs.ParentMap

/-!
Ancestors and depths in a parent map. From a node under the root the climb goes back the only way that
leads to it, so it ends, and the depth of the node is the length of that way. The table of all depths is
filled along pre-order, where a node comes behind its parent; each entry therefore finds the depth of the
parent and agrees with the climb.
-/

namespace TreeWalk.ParentMap

open Source (Yields)

variable {α : Type} {G : Graph α} {root : G.Node} {map : ParentMap G}

/-! ### Climbing -/

theorem climb_of_parentOf_none {n : G.Node} (h : map.parentOf n = none) :
    (map.climb n).next.1 = none := by
  rw [climb, h]
  rfl

theorem climb_of_parentOf_some {n p : G.Node} (h : map.parentOf n = some p) :
    (map.climb n).next = (some p, map.climb p) := by
  rw [climb, h]
  rfl

/-- The climb goes back the way that leads to the node. -/
theorem yields_climb_of_isPath (h : build root = .ok map) {n : G.Node} {path : List G.Node}
    (hpath : G.IsPath root n path) :
    Yields Ancestors.next path.dropLast.reverse (map.climb n) := by
  induction hpath with
  | root => exact climb_of_parentOf_none (parentOf_eq_none h fun hroot => hroot.2 rfl)
  | @step m c path hway hc ih =>
      have hparent : map.parentOf c = some m := (parentOf_eq_some_iff h).mpr ⟨hway.reaches, hc⟩
      have hlast : path.reverse = m :: path.dropLast.reverse := by
        cases hway with
        | root => rfl
        | step _ _ => simp
      rw [List.dropLast_concat, hlast]
      exact ⟨map.climb m, climb_of_parentOf_some hparent, ih⟩

theorem ancestors_eq_of_isPath (h : build root = .ok map) {n : G.Node} {path : List G.Node}
    (hpath : G.IsPath root n path) : map.ancestors n = path.dropLast.reverse := by
  refine (yields_climb_of_isPath h hpath).emit_eq ?_
  have hshort := (hpath.nodup (isTree_of_build h).acyclicFrom).length_le_card
  rw [Fintype.card_fin] at hshort
  rw [List.length_reverse, List.length_dropLast]
  omega

theorem ancestors_eq_nil {n : G.Node} (h : map.parentOf n = none) : map.ancestors n = [] := by
  have hdry : Yields Ancestors.next [] (map.climb n) := climb_of_parentOf_none h
  exact hdry.emit_eq (Nat.zero_le _)

/-- The climb ends, and the ancestors are all that it gives. -/
theorem yields_ancestors (h : build root = .ok map) (n : G.Node) :
    Yields Ancestors.next (map.ancestors n) (map.climb n) := by
  by_cases hn : G.Reaches root n
  · obtain ⟨path, hpath⟩ := hn.exists_isPath
    rw [ancestors_eq_of_isPath h hpath]
    exact yields_climb_of_isPath h hpath
  · have hnone : map.parentOf n = none := parentOf_eq_none h fun hbelow => hn hbelow.1
    rw [ancestors_eq_nil hnone]
    exact climb_of_parentOf_none hnone

theorem ancestors_eq_cons (h : build root = .ok map) {n p : G.Node} (hp : map.parentOf n = some p) :
    map.ancestors n = p :: map.ancestors p := by
  have hclimb : Yields Ancestors.next (p :: map.ancestors p) (map.climb n) :=
    ⟨map.climb p, climb_of_parentOf_some hp, yields_ancestors h p⟩
  exact (yields_ancestors h n).unique hclimb

theorem depthOf_eq_succ (h : build root = .ok map) {n p : G.Node} (hp : map.parentOf n = some p) :
    map.depthOf n = map.depthOf p + 1 := by
  rw [depthOf, ancestors_eq_cons h hp]
  rfl

theorem depthOf_eq_zero {n : G.Node} (h : map.parentOf n = none) : map.depthOf n = 0 := by
  rw [depthOf, ancestors_eq_nil h]
  rfl

/-- The depth of a node is the length of the way to it. -/
theorem depthOf_eq_length (h : build root = .ok map) {n : G.Node} {address : List Nat}
    (hn : G.follow root address = some n) : map.depthOf n = address.length := by
  induction address using List.reverseRecOn generalizing n with
  | nil =>
      obtain rfl : root = n := Option.some.inj hn
      exact depthOf_eq_zero (parentOf_eq_none h fun hroot => hroot.2 rfl)
  | append_singleton front i ih =>
      obtain ⟨p, hp, hi⟩ := Graph.follow_append_singleton.mp hn
      have hparent : map.parentOf n = some p :=
        (parentOf_eq_some_iff h).mpr ⟨Graph.reaches_of_follow hp, List.mem_of_getElem? hi⟩
      rw [depthOf_eq_succ h hparent, ih hp, List.length_append]
      rfl

/-! ### The table of depths -/

/-- The table knows the depths of exactly the listed nodes. -/
def Knows (map : ParentMap G) (table : G.DepthTable) (nodes : List G.Node) : Prop :=
  ∀ n, table.get n = if n ∈ nodes then some (map.depthOf n) else none

/-- A node whose parent is in the table, or that has none, enters it with its depth. -/
theorem Knows.enterDepth (h : build root = .ok map) {table : G.DepthTable} {nodes : List G.Node}
    (hknows : map.Knows table nodes) {n : G.Node}
    (hparent : ∀ p, map.parentOf n = some p → p ∈ nodes) :
    map.Knows (map.enterDepth table n) (nodes ++ [n]) := by
  have hset : map.enterDepth table n = table.set n (some (map.depthOf n)) := by
    rw [ParentMap.enterDepth]
    cases hp : map.parentOf n with
    | none =>
        rw [depthOf_eq_zero hp]
        rfl
    | some p =>
        have habove : table[p] = some (map.depthOf p) :=
          (hknows p).trans (if_pos (hparent p hp))
        rw [depthOf_eq_succ h hp, Option.bind_some, habove]
  intro m
  have hold := hknows m
  rw [Vector.get_eq_getElem] at hold
  rw [hset, Vector.get_eq_getElem]
  by_cases hm : m = n
  · subst hm
    simp
  · have hne : n.val ≠ m.val := fun heq => hm (Fin.ext heq.symm)
    simp_all

theorem Knows.foldl_enterDepth (h : build root = .ok map) {table : G.DepthTable}
    {front back : List G.Node} (hknows : map.Knows table front)
    (hparent : ∀ before n after, front ++ back = before ++ n :: after →
      ∀ p, map.parentOf n = some p → p ∈ before) :
    map.Knows (back.foldl map.enterDepth table) (front ++ back) := by
  induction back generalizing table front with
  | nil =>
      rw [List.append_nil]
      exact hknows
  | cons n back ih =>
      have hentered := hknows.enterDepth h (hparent front n back rfl)
      rw [List.append_cons] at hparent ⊢
      exact ih hentered hparent

theorem knows_depths (h : build root = .ok map) : map.Knows map.depths (G.preOrder root) := by
  obtain ⟨hyields, -, hmem⟩ := preOrder_of_build h
  have hempty : map.Knows (Vector.replicate G.size none) [] := fun n => by simp
  rw [depths, root_eq_of_build h]
  refine hempty.foldl_enterDepth h fun before n after hsplit p hp => ?_
  rw [List.nil_append] at hsplit
  rw [hsplit] at hyields hmem
  obtain ⟨hreach, hchild⟩ := (parentOf_eq_some_iff h).mp hp
  rcases (PreOrder.worklist G).exists_parent_before (PreOrder.stack_start root) hyields with
    rfl | ⟨q, hq, hqchild⟩
  · exact absurd rfl ((isTree_of_build h).ne_root hreach hchild)
  · have hqreach : G.Reaches root q := (hmem q).mp (List.mem_append_left _ hq)
    rwa [(isTree_of_build h).parent_unique hreach hchild hqreach hqchild]

theorem depths_eq_some (h : build root = .ok map) {n : G.Node} (hn : G.Reaches root n) :
    map.depths.get n = some (map.depthOf n) := by
  rw [knows_depths h n, if_pos (((preOrder_of_build h).2.2 n).mpr hn)]

theorem depths_eq_none (h : build root = .ok map) {n : G.Node} (hn : ¬G.Reaches root n) :
    map.depths.get n = none := by
  rw [knows_depths h n, if_neg fun hmem => hn (((preOrder_of_build h).2.2 n).mp hmem)]

/-- The table has one entry for each node under the root and one for the root. -/
theorem length_entries_depths (h : build root = .ok map) :
    map.depths.entries.length = map.length + 1 := by
  obtain ⟨hyields, hnodup, -⟩ := preOrder_of_build h
  rw [length_add_one_of_yields h hyields]
  refine length_filterMap_eq hnodup fun n => ?_
  have hentry : map.depths[n] = if n ∈ G.preOrder root then some (map.depthOf n) else none :=
    knows_depths h n
  rw [hentry]
  split <;> simp_all

/-- The climb from any node ends. From a node under the root it gives the only way to it backwards, and
both the climb and the table tell the length of that way; elsewhere there is nothing to climb and no
depth. -/
theorem climb_and_depths_of_build (h : build root = .ok map) :
    (∀ n, Yields Ancestors.next (map.ancestors n) (map.climb n)) ∧
    (∀ n, G.Reaches root n → ∃ path, (∀ path', G.IsPath root n path' ↔ path' = path) ∧
      map.ancestors n = path.dropLast.reverse ∧ map.depthOf n + 1 = path.length ∧
      map.depths.get n = some (map.depthOf n)) ∧
    map.depths.entries.length = map.length + 1 ∧
    ∀ n, ¬G.Reaches root n →
      map.ancestors n = [] ∧ map.depthOf n = 0 ∧ map.depths.get n = none := by
  refine ⟨yields_ancestors h, fun n hn => ?_, length_entries_depths h, fun n hn => ?_⟩
  · obtain ⟨path, hpath⟩ := hn.exists_isPath
    have hancestors := ancestors_eq_of_isPath h hpath
    refine ⟨path, fun path' => ⟨fun hpath' => ?_, fun heq => heq ▸ hpath⟩, hancestors, ?_,
      depths_eq_some h hn⟩
    · exact (isTree_of_build h).path_unique hpath' hpath
    · have hpos : 0 < path.length := List.length_pos_of_ne_nil hpath.ne_nil
      rw [depthOf, hancestors, List.length_reverse, List.length_dropLast]
      omega
  · have hnone : map.parentOf n = none := parentOf_eq_none h fun hbelow => hn hbelow.1
    exact ⟨ancestors_eq_nil hnone, depthOf_eq_zero hnone, depths_eq_none h hn⟩

theorem climb_and_depths_orchard :
    ∃ map, build orchardRoot = .ok map ∧ map.depths.entries.length = map.length + 1 ∧
      (∃ path, orchard.IsPath orchardRoot ⟨3, by decide⟩ path ∧
        map.ancestors ⟨3, by decide⟩ = path.dropLast.reverse) ∧
      map.ancestors ⟨4, by decide⟩ = [] := by
  obtain ⟨map, hmap⟩ := exists_build_orchard
  obtain ⟨-, hbelow, hlength, hbeside⟩ := climb_and_depths_of_build hmap
  have hfirst : ⟨1, by decide⟩ ∈ orchard.children orchardRoot := by decide +kernel
  have hsecond : ⟨3, by decide⟩ ∈ orchard.children ⟨1, by decide⟩ := by decide +kernel
  have hreach : orchard.Reaches orchardRoot ⟨3, by decide⟩ :=
    (Graph.Reaches.child Relation.ReflTransGen.refl hfirst).child hsecond
  have hapart : ¬orchard.Reaches orchardRoot ⟨4, by decide⟩ := by
    have hno : ∀ p, ⟨4, by decide⟩ ∉ orchard.children p := by decide +kernel
    intro hreach
    rcases Relation.ReflTransGen.cases_tail hreach with heq | ⟨p, -, hchild⟩
    · exact absurd heq (by decide +kernel)
    · exact hno p hchild
  obtain ⟨path, hpath, hancestors, -, -⟩ := hbelow _ hreach
  exact ⟨map, hmap, hlength, ⟨path, (hpath path).mpr rfl, hancestors⟩, (hbeside _ hapart).1⟩

end TreeWalk.ParentMap
