import TreeWalk.Proofs.Depth

/-!
Parent maps of subtrees. Below any node of a tree lies a tree again, so a build that starts there succeeds
as well. It enters the edges below its own start and no others, and a climb in the large map is a climb in
the small one that goes on from where the small one ends.
-/

namespace TreeWalk

namespace Graph.IsTree

variable {α : Type} {G : Graph α} {root s : G.Node}

/-- Below each node of a tree lies a tree, whose places are places under the root. -/
theorem of_reaches (h : G.IsTree root) (hs : G.Reaches root s) : G.IsTree s where
  existsUnique_place := by
    intro n hn hne
    obtain heq | ⟨p, hp, hchild⟩ := Relation.ReflTransGen.cases_tail hn
    · exact absurd heq hne
    obtain ⟨i, hi⟩ := List.mem_iff_getElem?.mp hchild
    refine ⟨(p, i), ⟨hp, hi⟩, ?_⟩
    rintro ⟨q, j⟩ ⟨hq, hj⟩
    obtain ⟨rfl, rfl⟩ := h.place_unique (hs.trans hq) hj (hs.trans hp) hi
    rfl
  root_not_mem := by
    intro n hn hchild
    exact h.acyclicFrom s hs (Relation.TransGen.tail' hn hchild)

end Graph.IsTree

namespace ParentMap

variable {α : Type} {G : Graph α} {root s : G.Node} {map sub : ParentMap G}

theorem mem_entries {n p : G.Node} : (n, p) ∈ map.entries ↔ map.parentOf n = some p := by
  rw [entries, List.mem_filterMap]
  constructor
  · rintro ⟨m, -, hm⟩
    obtain ⟨q, hq, hpair⟩ := Option.map_eq_some_iff.mp hm
    obtain ⟨rfl, rfl⟩ := Prod.mk.inj hpair
    exact hq
  · intro hp
    exact ⟨n, List.mem_finRange n, by rw [hp]; rfl⟩

/-- The small map knows the parents that the large one knows, of the nodes below its root. -/
theorem parentOf_subtree_iff (h : build root = .ok map) (hs : G.Reaches root s) (hsub : build s = .ok sub)
    {n p : G.Node} : sub.parentOf n = some p ↔ map.parentOf n = some p ∧ G.LiesAbove s n := by
  rw [parentOf_eq_some_iff hsub, parentOf_eq_some_iff h]
  constructor
  · rintro ⟨hp, hchild⟩
    exact ⟨⟨hs.trans hp, hchild⟩, Relation.TransGen.tail' hp hchild⟩
  · rintro ⟨⟨hp, hchild⟩, hbelow⟩
    obtain ⟨q, hq, hlast⟩ := Relation.TransGen.tail'_iff.mp hbelow
    obtain rfl : q = p := (isTree_of_build h).parent_unique (hs.trans hq) hlast hp hchild
    exact ⟨hq, hchild⟩

/-- A climb passes the root of the subtree and goes on from there. -/
theorem ancestors_subtree (h : build root = .ok map) (hs : G.Reaches root s) (hsub : build s = .ok sub)
    {n : G.Node} (hn : G.Reaches s n) : map.ancestors n = sub.ancestors n ++ map.ancestors s := by
  induction hn with
  | refl =>
      have hnone : sub.parentOf s = none := parentOf_eq_none hsub fun hroot => hroot.2 rfl
      rw [ancestors_eq_nil hnone, List.nil_append]
  | @tail p n hp hchild ih =>
      have hinner : sub.parentOf n = some p := (parentOf_eq_some_iff hsub).mpr ⟨hp, hchild⟩
      have houter : map.parentOf n = some p := ((parentOf_subtree_iff h hs hsub).mp hinner).1
      calc map.ancestors n = p :: map.ancestors p := ancestors_eq_cons h houter
        _ = p :: (sub.ancestors p ++ map.ancestors s) := by rw [ih]
        _ = sub.ancestors n ++ map.ancestors s := by rw [ancestors_eq_cons hsub hinner, List.cons_append]

/-- A build from any node under the root succeeds. Its entries are those of the nodes below its start, and
the depths that it gives count on from the depth of its start. -/
theorem build_subtree (h : build root = .ok map) (hs : G.Reaches root s) :
    ∃ sub, build s = .ok sub ∧ sub.root = s ∧
      (∀ n p, (n, p) ∈ sub.entries ↔ (n, p) ∈ map.entries ∧ G.LiesAbove s n) ∧
      ∀ n, G.Reaches s n →
        map.ancestors n = sub.ancestors n ++ map.ancestors s ∧
        map.depthOf n = map.depthOf s + sub.depthOf n := by
  obtain ⟨sub, hsub⟩ := exists_build_of_isTree ((isTree_of_build h).of_reaches hs)
  refine ⟨sub, hsub, root_eq_of_build hsub, ?_, ?_⟩
  · intro n p
    rw [mem_entries, mem_entries]
    exact parentOf_subtree_iff h hs hsub
  · intro n hn
    have hclimb := ancestors_subtree h hs hsub hn
    refine ⟨hclimb, ?_⟩
    rw [depthOf, hclimb, List.length_append, Nat.add_comm]
    rfl

theorem build_subtree_orchard :
    ∃ map sub, build orchardRoot = .ok map ∧ build (⟨1, by decide⟩ : orchard.Node) = .ok sub ∧
      (⟨3, by decide⟩, ⟨1, by decide⟩) ∈ sub.entries ∧
      (⟨1, by decide⟩, orchardRoot) ∈ map.entries ∧ (⟨1, by decide⟩, orchardRoot) ∉ sub.entries ∧
      map.depthOf ⟨3, by decide⟩ = map.depthOf ⟨1, by decide⟩ + sub.depthOf ⟨3, by decide⟩ := by
  obtain ⟨map, hmap⟩ := exists_build_orchard
  have hroot : orchard.Reaches orchardRoot orchardRoot := Relation.ReflTransGen.refl
  have hfirst : ⟨1, by decide⟩ ∈ orchard.children orchardRoot := by decide +kernel
  have hsecond : ⟨3, by decide⟩ ∈ orchard.children ⟨1, by decide⟩ := by decide +kernel
  obtain ⟨sub, hsub, -, hentries, hbelow⟩ := build_subtree hmap (hroot.child hfirst)
  have habove : orchard.LiesAbove ⟨1, by decide⟩ ⟨3, by decide⟩ := Relation.TransGen.single hsecond
  have hentry : (⟨3, by decide⟩, ⟨1, by decide⟩) ∈ map.entries :=
    mem_entries.mpr ((parentOf_eq_some_iff hmap).mpr ⟨hroot.child hfirst, hsecond⟩)
  refine ⟨map, sub, hmap, hsub, (hentries _ _).mpr ⟨hentry, habove⟩, ?_, fun hmem => ?_,
    (hbelow _ habove.to_reflTransGen).2⟩
  · exact mem_entries.mpr ((parentOf_eq_some_iff hmap).mpr ⟨hroot, hfirst⟩)
  · have hcycle := ((hentries _ _).mp hmem).2
    exact (isTree_of_build hmap).acyclicFrom _ (hroot.child hfirst) hcycle

end ParentMap

end TreeWalk
