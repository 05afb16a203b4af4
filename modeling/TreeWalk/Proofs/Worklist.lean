import TreeWalk.Proofs.Unfolding

/-!
Walks with a worklist. Such a walk keeps the nodes still to give; it gives one of them and puts the
children of that node in its place. Which one it gives, and where the children go, is what tells the
orders apart. Whether the walk ends and how often it gives a node do not depend on that: it ends exactly
if every pending node has a tree, and then it gives the nodes of these trees.
-/

namespace TreeWalk

open Source (Yields)

variable {α σ : Type} {G : Graph α}

/-- The steps of a walk over the nodes that `pending` lists. -/
structure Worklist (G : Graph α) (next : σ → Option G.Node × σ) (pending : σ → List G.Node) :
    Prop where
  dry_iff : ∀ s, (next s).1 = none ↔ pending s = []
  rests : Source.Rests next
  step : ∀ {s n t}, next s = (some n, t) →
    ∃ rest, (pending s).Perm (n :: rest) ∧ (pending t).Perm (G.children n ++ rest)

namespace Worklist

variable {next : σ → Option G.Node × σ} {pending : σ → List G.Node}

/-- A walk that ends has only nodes with trees pending. -/
theorem exists_unfolds_of_yields (W : Worklist G next pending) {items : List G.Node} {s : σ}
    (h : Yields next items s) {n : G.Node} (hn : n ∈ pending s) : ∃ t, G.Unfolds t ∧ t.value = n := by
  induction items generalizing s n with
  | nil =>
      rw [(W.dry_iff s).mp h] at hn
      cases hn
  | cons m items ih =>
      obtain ⟨t, hnext, hrest⟩ := h
      obtain ⟨rest, hbefore, hafter⟩ := W.step hnext
      have hlater : ∀ c ∈ G.children m ++ rest, ∃ t, G.Unfolds t ∧ t.value = c :=
        fun c hc => ih hrest (hafter.mem_iff.mpr hc)
      rcases List.mem_cons.mp (hbefore.mem_iff.mp hn) with rfl | hn
      · exact Graph.exists_unfolds_of_children fun c hc => hlater c (List.mem_append_left rest hc)
      · exact hlater n (List.mem_append_right _ hn)

/-- One step takes a tree from the pending ones and puts those right below its root in its place. -/
theorem step_forest (W : Worklist G next pending) {s t : σ} {n : G.Node} (hnext : next s = (some n, t))
    {ts : List (Tree G.Node)} (hts : ∀ u ∈ ts, G.Unfolds u)
    (hpending : (pending s).Perm (ts.map Tree.value)) :
    ∃ below others, ts.Perm (.node n below :: others) ∧ (∀ u ∈ below ++ others, G.Unfolds u) ∧
      (pending t).Perm ((below ++ others).map Tree.value) := by
  obtain ⟨rest, hbefore, hafter⟩ := W.step hnext
  have hvalues : (n :: rest).Perm (ts.map Tree.value) := hbefore.symm.trans hpending
  obtain ⟨u, hu, hvalue⟩ := List.mem_map.mp (hvalues.mem_iff.mp List.mem_cons_self)
  obtain ⟨front, back, rfl⟩ := List.append_of_mem hu
  have hmoved : (front ++ u :: back).Perm (u :: (front ++ back)) := List.perm_middle
  obtain ⟨m, below⟩ := u
  obtain rfl : m = n := hvalue
  have hunfolds : G.Unfolds (.node m below) := hts _ hu
  have hrest : rest.Perm ((front ++ back).map Tree.value) :=
    (hvalues.trans (hmoved.map Tree.value)).cons_inv
  refine ⟨below, front ++ back, hmoved, fun v hv => ?_, ?_⟩
  · rcases List.mem_append.mp hv with hv | hv
    · exact hunfolds.subtree hv
    · exact hts v (hmoved.mem_iff.mpr (List.mem_cons_of_mem _ hv))
  · rw [List.map_append, hunfolds.values]
    exact hafter.trans (hrest.append_left _)

/-- A walk whose pending nodes have trees gives the nodes of these trees and ends, since each step takes one place
from the trees. -/
theorem exists_yields (W : Worklist G next pending) {s : σ} {ts : List (Tree G.Node)}
    (hts : ∀ u ∈ ts, G.Unfolds u) (hpending : (pending s).Perm (ts.map Tree.value)) :
    ∃ items, Yields next items s ∧ items.Perm (Tree.preorderAll ts) := by
  generalize hsize : Tree.sizeAll ts = size
  induction size generalizing s ts with
  | zero =>
      cases ts with
      | nil => exact ⟨[], (W.dry_iff s).mpr hpending.eq_nil, List.Perm.nil⟩
      | cons u ts =>
          obtain ⟨n, below⟩ := u
          simp only [Tree.sizeAll, Tree.size] at hsize
          omega
  | succ size ih =>
      rcases hnext : next s with ⟨_ | n, t⟩
      · rw [(W.dry_iff s).mp (by rw [hnext])] at hpending
        rw [List.map_eq_nil_iff.mp hpending.nil_eq.symm] at hsize
        cases hsize
      · obtain ⟨below, others, hperm, hunfolds, hafter⟩ := W.step_forest hnext hts hpending
        have hless : Tree.sizeAll (below ++ others) = size := by
          rw [Tree.sizeAll_perm hperm, Tree.sizeAll, Tree.size] at hsize
          rw [Tree.sizeAll_append]
          omega
        obtain ⟨items, hyields, hitems⟩ := ih hunfolds hafter hless
        refine ⟨n :: items, ⟨t, hnext, hyields⟩, ?_⟩
        refine List.Perm.trans ?_ (Tree.preorderAll_perm hperm).symm
        rw [Tree.preorderAll_append] at hitems
        exact hitems.cons n

/-- What a walk has given and what is pending is what was pending at first and the children of what it
has given. -/
theorem emit_append_pending (W : Worklist G next pending) (k : Nat) (s : σ) :
    (Source.emit next k s ++ pending (Source.advance next k s)).Perm
      (pending s ++ (Source.emit next k s).flatMap G.children) := by
  induction k generalizing s with
  | zero => simp
  | succ k ih =>
      rcases hnext : next s with ⟨_ | n, t⟩
      · have hdry : (next s).1 = none := by rw [hnext]
        rw [Source.emit_of_dry hdry, W.rests.advance_of_dry hdry]
        simp
      · rw [Source.emit_succ hnext, Source.advance_succ hnext]
        obtain ⟨rest, hbefore, hafter⟩ := W.step hnext
        refine List.perm_iff_count.mpr fun m => ?_
        have hlater := (ih t).count_eq m
        have hgiven := hbefore.count_eq m
        have hchildren := hafter.count_eq m
        simp only [List.flatMap_cons, List.count_append, List.count_cons] at hlater hgiven hchildren ⊢
        omega

/-- A walk that ends gives the root and the children of what it gives. -/
theorem perm_of_yields (W : Worklist G next pending) {s : σ} {root : G.Node} (hstart : pending s = [root])
    {items : List G.Node} (h : Yields next items s) : items.Perm (root :: items.flatMap G.children) := by
  have hperm := W.emit_append_pending items.length s
  rw [h.emit_eq (Nat.le_refl _), (W.dry_iff _).mp h.advance_dry, hstart, List.append_nil] at hperm
  exact hperm

/-- A walk gives a node other than the root only behind one of its parents. -/
theorem exists_parent_before (W : Worklist G next pending) {s : σ} {root : G.Node}
    (hstart : pending s = [root]) {front back : List G.Node} {n : G.Node}
    (h : Yields next (front ++ n :: back) s) : n = root ∨ ∃ p ∈ front, n ∈ G.children p := by
  have hperm := W.emit_append_pending front.length s
  obtain ⟨t, hnext, -⟩ := h.advance_append
  obtain ⟨rest, hbefore, -⟩ := W.step hnext
  rw [h.emit_eq_take, List.take_left, hstart] at hperm
  have hmem : n ∈ front ++ pending (Source.advance next front.length s) :=
    List.mem_append_right _ (hbefore.mem_iff.mpr List.mem_cons_self)
  rcases List.mem_cons.mp (hperm.mem_iff.mp hmem) with hroot | hchild
  · exact Or.inl hroot
  · exact Or.inr (List.mem_flatMap.mp hchild)

/-- A walk that finds at most `k` children has ended after one step more. -/
theorem dry_of_length_flatMap_le (W : Worklist G next pending) {s : σ} {root : G.Node}
    (hstart : pending s = [root]) {k : Nat}
    (hfew : ((Source.emit next (k + 1) s).flatMap G.children).length ≤ k) :
    (next (Source.advance next (k + 1) s)).1 = none := by
  by_cases short : (Source.emit next (k + 1) s).length < k + 1
  · exact W.rests.dry_of_length_emit_lt short
  · have hlength := (W.emit_append_pending (k + 1) s).length_eq
    rw [hstart, List.length_append, List.length_append, List.length_singleton] at hlength
    rw [W.dry_iff, ← List.length_eq_zero_iff]
    omega

/-- A walk that finds no node twice as a child has ended after one step more than there are nodes. -/
theorem yields_of_nodup (W : Worklist G next pending) {s : σ} {root : G.Node}
    (hstart : pending s = [root])
    (hnodup : ((Source.emit next (G.size + 1) s).flatMap G.children).Nodup) :
    Yields next (Source.emit next (G.size + 1) s) s := by
  apply Source.yields_emit_of_dry
  apply W.dry_of_length_flatMap_le hstart
  simpa using hnodup.length_le_card

/-- A walk gives only nodes that lie under its root. -/
theorem reaches_of_mem_emit (W : Worklist G next pending) {s : σ} {root n : G.Node}
    (hpending : ∀ m ∈ pending s, G.Reaches root m) {k : Nat} (hn : n ∈ Source.emit next k s) :
    G.Reaches root n := by
  induction k generalizing s with
  | zero => cases hn
  | succ k ih =>
      rcases hnext : next s with ⟨_ | m, t⟩
      · rw [Source.emit_of_dry (by rw [hnext])] at hn
        cases hn
      · rw [Source.emit_succ hnext] at hn
        obtain ⟨rest, hbefore, hafter⟩ := W.step hnext
        have hm : G.Reaches root m := hpending m (hbefore.mem_iff.mpr List.mem_cons_self)
        rcases List.mem_cons.mp hn with rfl | hn
        · exact hm
        · refine ih (fun c hc => ?_) hn
          rcases List.mem_append.mp (hafter.mem_iff.mp hc) with hc | hc
          · exact hm.child hc
          · exact hpending c (hbefore.mem_iff.mpr (List.mem_cons_of_mem m hc))

theorem exists_yields_preorder (W : Worklist G next pending) {s : σ} {t : Tree G.Node}
    (ht : G.Unfolds t) (hstart : pending s = [t.value]) :
    ∃ items, Yields next items s ∧ items.Perm t.preorder := by
  have hpending : (pending s).Perm ([t].map Tree.value) := by
    rw [hstart]
    exact List.Perm.refl _
  obtain ⟨items, hitems, hperm⟩ :=
    W.exists_yields (fun u hu => List.mem_singleton.mp hu ▸ ht) hpending
  rw [Tree.preorderAll, Tree.preorderAll, List.append_nil] at hperm
  exact ⟨items, hitems, hperm⟩

/-- The walk from a root ends exactly if no cycle is reached from it. -/
theorem ends_iff_acyclicFrom (W : Worklist G next pending) {s : σ} {root : G.Node}
    (hstart : pending s = [root]) :
    (∃ k, pending (Source.advance next k s) = []) ↔ G.AcyclicFrom root := by
  have hdry : (∃ k, pending (Source.advance next k s) = []) ↔ ∃ items, Yields next items s := by
    simp only [Source.exists_yields_iff, W.dry_iff]
  rw [hdry, Graph.acyclicFrom_iff_exists_unfolds]
  constructor
  · rintro ⟨items, hitems⟩
    exact W.exists_unfolds_of_yields hitems (hstart ▸ List.mem_singleton_self root)
  · rintro ⟨t, ht, rfl⟩
    obtain ⟨items, hitems, -⟩ := W.exists_yields_preorder ht hstart
    exact ⟨items, hitems⟩

/-- Within the bound on the number of paths, the walk from the root of a tree gives all its nodes. -/
theorem yields_drain (W : Worklist G next pending) {s : σ} {t : Tree G.Node} (ht : G.Unfolds t)
    (hstart : pending s = [t.value]) :
    Yields next (Source.drain next G.pathBound s) s ∧
      (Source.drain next G.pathBound s).Perm t.preorder := by
  obtain ⟨items, hitems, hperm⟩ := W.exists_yields_preorder ht hstart
  have hlength : items.length ≤ G.pathBound := by
    rw [hperm.length_eq, Tree.length_preorder]
    exact ht.size_le_pathBound
  rw [hitems.drain_eq hlength]
  exact ⟨hitems, hperm⟩

end Worklist

end TreeWalk
