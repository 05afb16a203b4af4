import TreeWalk.Parents
import TreeWalk.Proofs.ProperTree
import TreeWalk.Proofs.Walks

/-!
Building a parent map. The build enters the edges of the graph along pre-order and stops at the first
child that it finds a second time, so it succeeds exactly if no child repeats among the edges of the
walk. Then the walk has ended within the bound, its nodes are those that the root reaches, and the table
holds their edges. A cycle through the root is no exception: although the root has no entry at first, a
walk that never ends repeats a child.
-/

namespace TreeWalk.ParentMap

open Source (Yields)

variable {α : Type} {G : Graph α}

/-! ### Entering edges -/

/-- The edges from the given nodes to their children, each as a parent and a child. -/
def edges (G : Graph α) (nodes : List G.Node) : List (G.Node × G.Node) :=
  nodes.flatMap fun n => (G.children n).map fun c => (n, c)

theorem mem_edges {nodes : List G.Node} {p c : G.Node} :
    (p, c) ∈ edges G nodes ↔ p ∈ nodes ∧ c ∈ G.children p := by
  simp only [edges, List.mem_flatMap, List.mem_map, Prod.mk.injEq]
  constructor
  · rintro ⟨n, hn, d, hd, rfl, rfl⟩
    exact ⟨hn, hd⟩
  · rintro ⟨hp, hc⟩
    exact ⟨p, hp, c, hc, rfl, rfl⟩

theorem map_snd_edges (nodes : List G.Node) :
    (edges G nodes).map Prod.snd = nodes.flatMap G.children := by
  induction nodes with
  | nil => rfl
  | cons n nodes ih =>
      rw [edges, List.flatMap_cons, List.map_append, List.map_map, List.flatMap_cons, ← ih]
      exact congrArg (· ++ _) (List.map_id _)

/-- Enters the edges in turn, up to the first child that has an entry already. -/
def enter : List (G.Node × G.Node) → G.ParentTable → Except (DuplicateParent G.Node) G.ParentTable
  | [], table => .ok table
  | (parent, child) :: rest, table =>
      match adopt parent [child] table with
      | .error duplicate => .error duplicate
      | .ok table => enter rest table

theorem enter_append (es fs : List (G.Node × G.Node)) (table : G.ParentTable) :
    enter (es ++ fs) table =
      match enter es table with
      | .error duplicate => .error duplicate
      | .ok table => enter fs table := by
  induction es generalizing table with
  | nil => rfl
  | cons e es ih =>
      obtain ⟨p, c⟩ := e
      rw [List.cons_append, enter, enter]
      cases adopt p [c] table with
      | error duplicate => rfl
      | ok table => exact ih table

theorem adopt_eq_enter (parent : G.Node) (children : List G.Node) (table : G.ParentTable) :
    adopt parent children table = enter (children.map fun c => (parent, c)) table := by
  induction children generalizing table with
  | nil => rfl
  | cons c children ih =>
      rw [adopt, List.map_cons, enter, adopt]
      cases table[c] with
      | some first => rfl
      | none => exact ih _

/-- The build enters the edges of the nodes that the walk gives. -/
theorem collect_eq_enter (k : Nat) (walk : PreOrder G) (table : G.ParentTable) :
    collect k walk table = enter (edges G (Source.emit PreOrder.next k walk)) table := by
  induction k generalizing walk table with
  | zero => rfl
  | succ k ih =>
      rcases hnext : walk.next with ⟨_ | n, rest⟩
      · rw [collect, hnext, Source.emit_of_dry (by rw [hnext])]
        rfl
      · have hread : (G.view n).forward.toList = G.children n := (G.view n).toList_forward
        rw [collect, hnext, Source.emit_succ hnext]
        simp only [edges, List.flatMap_cons]
        rw [enter_append, adopt_eq_enter, hread]
        cases enter ((G.children n).map fun c => (n, c)) table with
        | error duplicate => rfl
        | ok table => exact ih rest table

/-- The table holds exactly the listed edges. -/
def Lists (table : G.ParentTable) (es : List (G.Node × G.Node)) : Prop :=
  ∀ c p, table.get c = some p ↔ (p, c) ∈ es

theorem lists_empty : Lists (Vector.replicate G.size none : G.ParentTable) [] := by
  intro c p
  simp

/-- One edge enters the table if its child has no entry, and otherwise ends the build with the parent
entered before. -/
theorem Lists.adopt_cases {table : G.ParentTable} {es : List (G.Node × G.Node)} (h : Lists table es)
    (p c : G.Node) :
    (∃ after, adopt p [c] table = .ok after ∧ Lists after (es ++ [(p, c)]) ∧ c ∉ es.map Prod.snd) ∨
    ∃ first, adopt p [c] table = .error ⟨c, first, p⟩ ∧ (first, c) ∈ es := by
  rw [adopt]
  cases hc : table[c] with
  | some first => exact Or.inr ⟨first, rfl, (h c first).mp hc⟩
  | none =>
      refine Or.inl ⟨table.set c (some p), rfl, fun d q => ?_, fun hmem => ?_⟩
      · rw [List.mem_append, List.mem_singleton, ← h d q, Prod.mk.injEq, Vector.get_eq_getElem,
          Vector.get_eq_getElem]
        by_cases hd : d = c
        · subst hd
          have hfree : table[d.val] = none := hc
          simp [hfree, eq_comm]
        · have hne : c.val ≠ d.val := fun heq => hd (Fin.ext heq.symm)
          simp [hd, hne]
      · obtain ⟨⟨q, d⟩, hedge, rfl⟩ := List.mem_map.mp hmem
        have hentry : table[d] = some q := (h d q).mpr hedge
        rw [hentry] at hc
        cases hc

/-- Entering edges succeeds if no child repeats, and otherwise names the first one that does. -/
theorem enter_cases {table : G.ParentTable} {done : List (G.Node × G.Node)} (hlists : Lists table done)
    (hnodup : (done.map Prod.snd).Nodup) (es : List (G.Node × G.Node)) :
    (∃ table', enter es table = .ok table' ∧ Lists table' (done ++ es) ∧
      ((done ++ es).map Prod.snd).Nodup) ∨
    ∃ front p c back first, es = front ++ (p, c) :: back ∧
      enter es table = .error ⟨c, first, p⟩ ∧ ((done ++ front).map Prod.snd).Nodup ∧
      (first, c) ∈ done ++ front := by
  induction es generalizing table done with
  | nil =>
      refine Or.inl ⟨table, rfl, ?_, ?_⟩
      · rwa [List.append_nil]
      · rwa [List.append_nil]
  | cons e es ih =>
      obtain ⟨p, c⟩ := e
      rw [enter]
      rcases hlists.adopt_cases p c with ⟨after, hafter, hlists', hfresh⟩ | ⟨first, herror, hfirst⟩
      · have hnodup' : ((done ++ [(p, c)]).map Prod.snd).Nodup := by
          rw [List.map_append, List.map_singleton]
          exact hnodup.append (List.nodup_singleton c) (List.disjoint_singleton.mpr hfresh)
        rw [hafter]
        rcases ih hlists' hnodup' with ⟨table', hok, hlists'', hall⟩ |
          ⟨front, q, d, back, first, rfl, herror, hfront, hfirst⟩
        · rw [List.append_assoc] at hlists'' hall
          exact Or.inl ⟨table', hok, hlists'', hall⟩
        · rw [List.append_assoc] at hfront hfirst
          exact Or.inr ⟨(p, c) :: front, q, d, back, first, rfl, herror, hfront, hfirst⟩
      · rw [herror]
        refine Or.inr ⟨[], p, c, es, first, rfl, rfl, ?_, ?_⟩
        · rwa [List.append_nil]
        · rwa [List.append_nil]

/-! ### A build that succeeds -/

theorem build_eq (root : G.Node) :
    build root =
      (enter (edges G (Source.emit PreOrder.next (G.size + 1) (.start root)))
        (Vector.replicate G.size none)).map (ParentMap.mk root) := by
  rw [build, collect_eq_enter]
  cases enter (edges G (Source.emit PreOrder.next (G.size + 1) (.start root)))
    (Vector.replicate G.size none) <;> rfl

/-- A build that succeeds has seen the whole walk, in which no child repeats, and holds its edges. -/
theorem exists_yields_of_build {root : G.Node} {map : ParentMap G} (h : build root = .ok map) :
    map.root = root ∧ ∃ nodes, Yields PreOrder.next nodes (.start root) ∧
      (nodes.flatMap G.children).Nodup ∧ Lists map.parents (edges G nodes) := by
  rw [build_eq] at h
  rcases enter_cases lists_empty List.nodup_nil
      (edges G (Source.emit PreOrder.next (G.size + 1) (.start root))) with
    ⟨table, hok, hlists, hnodup⟩ | ⟨front, p, c, back, first, -, herror, -, -⟩
  · rw [hok] at h
    obtain rfl := Except.ok.inj h
    rw [List.nil_append, map_snd_edges] at hnodup
    exact ⟨rfl, _, (PreOrder.worklist G).yields_of_nodup rfl hnodup, hnodup, hlists⟩
  · rw [herror] at h
    cases h

/-- A walk in which no child repeats lets the build succeed, since a child that ends it stands twice among the
edges of the walk. -/
theorem exists_build_of_nodup {root : G.Node} {nodes : List G.Node}
    (hyields : Yields PreOrder.next nodes (.start root)) (hnodup : (nodes.flatMap G.children).Nodup) :
    ∃ map, build root = .ok map := by
  rw [build_eq, hyields.emit_eq_take]
  rcases enter_cases lists_empty List.nodup_nil (edges G (nodes.take (G.size + 1))) with
    ⟨table, hok, -, -⟩ | ⟨front, p, c, back, first, hsplit, -, -, hfirst⟩
  · rw [hok]
    exact ⟨_, rfl⟩
  · have hsub : ((nodes.take (G.size + 1)).flatMap G.children).Nodup :=
      hnodup.sublist ((List.take_sublist _ _).flatMap G.children)
    rw [← map_snd_edges, hsplit, List.map_append, List.map_cons] at hsub
    have hseparate := (List.nodup_append.mp hsub).2.2
    exact absurd rfl (hseparate c (List.mem_map_of_mem hfirst) c List.mem_cons_self)

section Built

variable {root : G.Node} {map : ParentMap G}

/-- The walk of a build that succeeds gives the nodes that the root reaches. -/
theorem exists_walk_of_build (h : build root = .ok map) :
    G.AcyclicFrom root ∧ ∃ nodes, Yields PreOrder.next nodes (.start root) ∧
      (nodes.flatMap G.children).Nodup ∧ Lists map.parents (edges G nodes) ∧
      ∀ n, n ∈ nodes ↔ G.Reaches root n := by
  obtain ⟨-, nodes, hyields, hnodup, hlists⟩ := exists_yields_of_build h
  obtain ⟨t, ht, rfl⟩ :=
    (PreOrder.worklist G).exists_unfolds_of_yields hyields (List.mem_singleton_self root)
  obtain ⟨items, hitems, hperm⟩ :=
    (PreOrder.worklist G).exists_yields_preorder ht (PreOrder.stack_start t.value)
  rw [hitems.unique hyields] at hperm
  exact ⟨ht.acyclicFrom, nodes, hyields, hnodup, hlists,
    fun n => hperm.mem_iff.trans ht.mem_preorder_iff⟩

theorem parentOf_eq_get (map : ParentMap G) (n : G.Node) : map.parentOf n = map.parents.get n := rfl

theorem root_eq_of_build (h : build root = .ok map) : map.root = root := (exists_yields_of_build h).1

/-- The parent of a node is the node under the root in whose child list it stands. -/
theorem parentOf_eq_some_iff (h : build root = .ok map) {n p : G.Node} :
    map.parentOf n = some p ↔ G.Reaches root p ∧ n ∈ G.children p := by
  obtain ⟨-, nodes, -, -, hlists, hmem⟩ := exists_walk_of_build h
  rw [parentOf_eq_get, hlists n p, mem_edges, hmem]

theorem isTree_of_build (h : build root = .ok map) : G.IsTree root := by
  obtain ⟨hacyclic, nodes, -, hnodup, -, hmem⟩ := exists_walk_of_build h
  obtain ⟨hlists, hapart⟩ := List.nodup_flatMap.mp hnodup
  have : Std.Symm (Function.onFun List.Disjoint G.children) := ⟨fun _ _ hdisjoint => hdisjoint.symm⟩
  refine ⟨fun n hn hne => ?_, fun n hn hroot => ?_⟩
  · obtain rfl | ⟨p, hp, hchild⟩ := Relation.ReflTransGen.cases_tail hn
    · exact absurd rfl hne
    obtain ⟨i, hi⟩ := List.mem_iff_getElem?.mp hchild
    refine ⟨(p, i), ⟨hp, hi⟩, ?_⟩
    rintro ⟨q, j⟩ ⟨hq, hj⟩
    have hparent : q = p := by
      by_contra hdiffer
      exact hapart.forall ((hmem q).mpr hq) ((hmem p).mpr hp) hdiffer (List.mem_of_getElem? hj) hchild
    subst hparent
    have hposition : j = i :=
      (List.getElem?_inj (List.getElem?_eq_some_iff.mp hj).1 (hlists q ((hmem q).mpr hq))).mp
        (hj.trans hi.symm)
    rw [hposition]
  · exact hacyclic root Relation.ReflTransGen.refl (Relation.TransGen.tail' hn hroot)

/-- The keys of a table are the nodes that it knows something of. -/
theorem map_fst_filterMap {β : Type} (known : G.Node → Option β) :
    ((List.finRange G.size).filterMap fun n => (known n).map fun b => (n, b)).map Prod.fst =
      (List.finRange G.size).filter fun n => (known n).isSome := by
  rw [List.map_filterMap, ← List.filterMap_eq_filter]
  refine congrArg (fun f => (List.finRange G.size).filterMap f) (funext fun n => ?_)
  rw [Option.guard]
  cases known n <;> rfl

/-- A table has as many entries as there are nodes that it knows something of. -/
theorem length_filterMap_eq {β : Type} {known : G.Node → Option β} {nodes : List G.Node}
    (hnodup : nodes.Nodup) (hmem : ∀ n, (known n).isSome ↔ n ∈ nodes) :
    ((List.finRange G.size).filterMap fun n => (known n).map fun b => (n, b)).length =
      nodes.length := by
  have hkeys : ((List.finRange G.size).filter fun n => (known n).isSome).Perm nodes := by
    rw [List.perm_ext_iff_of_nodup ((List.nodup_finRange _).filter _) hnodup]
    intro n
    rw [List.mem_filter, hmem]
    simp
  rw [← hkeys.length_eq, ← map_fst_filterMap, List.length_map]

/-- There are as many entries as the walk gives nodes besides the root. -/
theorem length_add_one_of_yields (h : build root = .ok map) {nodes : List G.Node}
    (hyields : Yields PreOrder.next nodes (.start root)) : map.length + 1 = nodes.length := by
  obtain ⟨-, nodes', hyields', hnodup, hlists, -⟩ := exists_walk_of_build h
  obtain rfl := hyields.unique hyields'
  have hlength : map.length = (nodes.flatMap G.children).length := by
    refine length_filterMap_eq hnodup fun n => ?_
    rw [← map_snd_edges, List.mem_map, Option.isSome_iff_exists]
    simp only [parentOf_eq_get, hlists n, Prod.exists, exists_eq_right]
  have hwalk := (PreOrder.worklist G).perm_of_yields (PreOrder.stack_start root) hyields
  rw [hwalk.length_eq, List.length_cons, hlength]

end Built

/-- An unfolded tree in which no node stands twice lets the build succeed. -/
theorem exists_build_of_unfolds {t : Tree G.Node} (ht : G.Unfolds t) (hnodup : t.preorder.Nodup) :
    ∃ map, build t.value = .ok map := by
  obtain ⟨nodes, hyields, hperm⟩ :=
    (PreOrder.worklist G).exists_yields_preorder ht (PreOrder.stack_start t.value)
  have hwalk := (PreOrder.worklist G).perm_of_yields (PreOrder.stack_start t.value) hyields
  have hnodes : (t.value :: nodes.flatMap G.children).Nodup :=
    hwalk.nodup_iff.mp (hperm.nodup_iff.mpr hnodup)
  exact exists_build_of_nodup hyields (List.nodup_cons.mp hnodes).2

/-- A tree under the root lets the build succeed. -/
theorem exists_build_of_isTree {root : G.Node} (h : G.IsTree root) : ∃ map, build root = .ok map := by
  obtain ⟨t, ht, rfl⟩ := h.exists_unfolds
  exact exists_build_of_unfolds ht (h.nodup_preorder ht)

theorem exists_error_of_not_isTree {root : G.Node} (h : ¬G.IsTree root) :
    ∃ duplicate, build root = .error duplicate := by
  cases hbuild : build root with
  | ok map => exact absurd (isTree_of_build hbuild) h
  | error duplicate => exact ⟨duplicate, rfl⟩

theorem contains_iff {root : G.Node} {map : ParentMap G} (h : build root = .ok map) {n : G.Node} :
    map.contains n ↔ G.Reaches root n ∧ n ≠ root := by
  rw [contains, Option.isSome_iff_exists]
  constructor
  · rintro ⟨p, hp⟩
    obtain ⟨hreach, hchild⟩ := (parentOf_eq_some_iff h).mp hp
    exact ⟨hreach.child hchild, (isTree_of_build h).ne_root hreach hchild⟩
  · rintro ⟨hn, hne⟩
    obtain rfl | ⟨p, hp, hchild⟩ := Relation.ReflTransGen.cases_tail hn
    · exact absurd rfl hne
    · exact ⟨p, (parentOf_eq_some_iff h).mpr ⟨hp, hchild⟩⟩

theorem parentOf_eq_none {root : G.Node} {map : ParentMap G} (h : build root = .ok map) {n : G.Node}
    (hn : ¬(G.Reaches root n ∧ n ≠ root)) : map.parentOf n = none := by
  rw [← contains_iff h, contains, Option.not_isSome_iff_eq_none] at hn
  exact hn

/-- The walk of a tree ends, and it gives each node under the root once. -/
theorem preOrder_of_build {root : G.Node} {map : ParentMap G} (h : build root = .ok map) :
    Yields PreOrder.next (G.preOrder root) (.start root) ∧ (G.preOrder root).Nodup ∧
      ∀ n, n ∈ G.preOrder root ↔ G.Reaches root n := by
  have htree := isTree_of_build h
  obtain ⟨t, ht, rfl⟩ := htree.exists_unfolds
  obtain ⟨hyields, hperm⟩ := (PreOrder.worklist G).yields_drain ht (PreOrder.stack_start t.value)
  exact ⟨hyields, hperm.nodup_iff.mpr (htree.nodup_preorder ht),
    fun n => hperm.mem_iff.trans ht.mem_preorder_iff⟩

/-- The build succeeds exactly on a tree. The map then has an entry for each node under the root and for
no other node, each entry names the only parent, and there is one for each node of the walk but the
root. -/
theorem build_ok_iff_isTree (root : G.Node) :
    ((∃ map, build root = .ok map) ↔ G.IsTree root) ∧
    ∀ map, build root = .ok map →
      map.root = root ∧
      (∀ n, map.contains n ↔ G.Reaches root n ∧ n ≠ root) ∧
      (∀ n, G.Reaches root n → n ≠ root →
        ∃ p, map.parentOf n = some p ∧ ∀ q, G.Reaches root q ∧ n ∈ G.children q ↔ q = p) ∧
      map.parentOf root = none ∧
      (∀ n, ¬G.Reaches root n → map.parentOf n = none) ∧
      Yields PreOrder.next (G.preOrder root) (.start root) ∧
      map.length + 1 = (G.preOrder root).length := by
  refine ⟨⟨fun ⟨map, h⟩ => isTree_of_build h, exists_build_of_isTree⟩, fun map h => ?_⟩
  refine ⟨root_eq_of_build h, fun n => contains_iff h, fun n hn hne => ?_,
    parentOf_eq_none h fun hroot => hroot.2 rfl, fun n hn => parentOf_eq_none h fun hbelow => hn hbelow.1,
    (preOrder_of_build h).1, length_add_one_of_yields h (preOrder_of_build h).1⟩
  obtain ⟨p, hp⟩ := Option.isSome_iff_exists.mp ((contains_iff h).mpr ⟨hn, hne⟩)
  refine ⟨p, hp, fun q => ?_⟩
  rw [← parentOf_eq_some_iff h, hp, Option.some.injEq, eq_comm]

/-- A tree of four nodes beside a node that is not under its root and shares a child with it. -/
def orchard : Graph Unit :=
  .ofRows #[⟨(), [1, 2], .row⟩, ⟨(), [3], .halves⟩, ⟨(), [], .row⟩, ⟨(), [], .sequence⟩,
    ⟨(), [3], .row⟩]

def orchardRoot : orchard.Node := ⟨0, by decide⟩

theorem exists_build_of_isOk {root : G.Node} (h : (build root).isOk = true) : ∃ map, build root = .ok map := by
  cases hbuild : build root with
  | ok map => exact ⟨map, rfl⟩
  | error duplicate =>
      rw [hbuild] at h
      cases h

theorem isTree_of_isOk {root : G.Node} (h : (build root).isOk = true) : G.IsTree root := by
  obtain ⟨map, hmap⟩ := exists_build_of_isOk h
  exact isTree_of_build hmap

theorem exists_build_orchard : ∃ map, build orchardRoot = .ok map := exists_build_of_isOk (by decide +kernel)

theorem build_ok_orchard :
    ∃ map, build orchardRoot = .ok map ∧ orchard.IsTree orchardRoot ∧
      map.length + 1 = (orchard.preOrder orchardRoot).length := by
  obtain ⟨hiff, hbuilt⟩ := build_ok_iff_isTree orchardRoot
  obtain ⟨map, hmap⟩ := exists_build_orchard
  obtain ⟨-, -, -, -, -, -, hlength⟩ := hbuilt map hmap
  exact ⟨map, hmap, hiff.mp ⟨map, hmap⟩, hlength⟩

end TreeWalk.ParentMap
