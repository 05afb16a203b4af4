import TreeWalk.Proofs.Worklist
import TreeWalk.Walk

/-!
The three walks as worklists. Pre-order puts the children of a node on top of its stack, the discovery
behind post-order does so in reverse, and level order puts them at the end of its queue. All three end
exactly if no cycle is reached from the root, and then they give the same nodes, each as often as ways
lead to it.
-/

namespace TreeWalk

open Source (Yields)

variable {α : Type} {G : Graph α}

/-! ### Steps -/

theorem foldl_push_eq_reverse_append {β : Type} (items stack : List β) :
    items.foldl (fun stack child => child :: stack) stack = items.reverse ++ stack := by
  induction items generalizing stack with
  | nil => rfl
  | cons a items ih => rw [List.foldl_cons, ih, List.reverse_cons, List.append_assoc]; rfl

theorem Queue.toList_foldl_push {β : Type} (q : Queue β) (items : List β) :
    (items.foldl Queue.push q).toList = q.toList ++ items := by
  induction items generalizing q with
  | nil => simp
  | cons a items ih => rw [List.foldl_cons, ih, toList_push, List.append_assoc]; rfl

namespace PreOrder

theorem stack_start (root : G.Node) : (start root).stack = [root] := rfl

theorem next_cons (n : G.Node) (rest : List G.Node) :
    (⟨n :: rest⟩ : PreOrder G).next = (some n, ⟨G.children n ++ rest⟩) := by
  simp only [next, foldl_push_eq_reverse_append, ChildView.toList_backward, List.reverse_reverse]
  rfl

theorem worklist (G : Graph α) : Worklist G (PreOrder.next (G := G)) PreOrder.stack where
  dry_iff := by
    rintro ⟨stack⟩
    cases stack with
    | nil => simp [next]
    | cons n rest => simp [next_cons]
  rests := by
    rintro ⟨stack⟩ hdry
    cases stack with
    | nil => rfl
    | cons n rest => cases hdry
  step := by
    rintro ⟨stack⟩ n t hnext
    cases stack with
    | nil => cases hnext
    | cons m rest =>
        rw [next_cons] at hnext
        cases hnext
        exact ⟨rest, List.Perm.refl _, List.Perm.refl _⟩

end PreOrder

namespace Discovery

theorem next_cons (n : G.Node) (rest : List G.Node) :
    (⟨n :: rest⟩ : Discovery G).next = (some n, ⟨(G.children n).reverse ++ rest⟩) := by
  simp only [next, foldl_push_eq_reverse_append, ChildView.toList_forward]
  rfl

theorem worklist (G : Graph α) : Worklist G (Discovery.next (G := G)) Discovery.waiting where
  dry_iff := by
    rintro ⟨waiting⟩
    cases waiting with
    | nil => simp [next]
    | cons n rest => simp [next_cons]
  rests := by
    rintro ⟨waiting⟩ hdry
    cases waiting with
    | nil => rfl
    | cons n rest => cases hdry
  step := by
    rintro ⟨waiting⟩ n t hnext
    cases waiting with
    | nil => cases hnext
    | cons m rest =>
        rw [next_cons] at hnext
        cases hnext
        exact ⟨rest, List.Perm.refl _, (List.reverse_perm _).append_right rest⟩

end Discovery

namespace LevelOrder

/-- The nodes still to give, the next one first. -/
def pending (walk : LevelOrder G) : List G.Node := walk.queue.toList

theorem pending_start (root : G.Node) : (start root).pending = [root] := rfl

theorem next_of_pending_nil {walk : LevelOrder G} (h : walk.pending = []) : walk.next = (none, walk) := by
  have hpop := walk.queue.pop?_eq
  rw [show walk.queue.toList = [] from h] at hpop
  rw [next, Option.map_eq_none_iff.mp hpop]

theorem next_of_pending_cons {walk : LevelOrder G} {n : G.Node} {rest : List G.Node}
    (h : walk.pending = n :: rest) :
    ∃ walk', walk.next = (some n, walk') ∧ walk'.pending = rest ++ G.children n := by
  have hpop := walk.queue.pop?_eq
  rw [show walk.queue.toList = n :: rest from h] at hpop
  obtain ⟨⟨m, q⟩, hq, hpair⟩ := Option.map_eq_some_iff.mp hpop
  obtain ⟨rfl, hrest⟩ := Prod.mk.inj hpair
  refine ⟨⟨(G.view m).forward.toList.foldl Queue.push q⟩, by rw [next, hq], ?_⟩
  rw [pending, Queue.toList_foldl_push, hrest, ChildView.toList_forward]
  rfl

theorem worklist (G : Graph α) : Worklist G (LevelOrder.next (G := G)) LevelOrder.pending where
  dry_iff := by
    intro walk
    cases hpending : walk.pending with
    | nil => simp [next_of_pending_nil hpending]
    | cons n rest =>
        obtain ⟨walk', hnext, -⟩ := next_of_pending_cons hpending
        simp [hnext]
  rests := by
    intro walk hdry
    cases hpending : walk.pending with
    | nil => rw [next_of_pending_nil hpending]
    | cons n rest =>
        obtain ⟨walk', hnext, -⟩ := next_of_pending_cons hpending
        rw [hnext] at hdry
        cases hdry
  step := by
    intro walk n t hnext
    cases hpending : walk.pending with
    | nil =>
        rw [next_of_pending_nil hpending] at hnext
        cases hnext
    | cons m rest =>
        obtain ⟨walk', hnext', hafter⟩ := next_of_pending_cons hpending
        rw [hnext] at hnext'
        cases hnext'
        exact ⟨rest, List.Perm.refl _, hafter ▸ List.perm_append_comm⟩

end LevelOrder

/-! ### Reading what was discovered -/

namespace PostOrder

/-- The nodes still to give, the next one first. -/
def pending (walk : PostOrder G) : List G.Node :=
  ((walk.found.toList.take walk.last).drop walk.first).reverse

theorem yields_pending {walk : PostOrder G} (h : walk.last ≤ walk.found.size) :
    Yields next walk.pending walk := by
  obtain ⟨found, first, last⟩ := walk
  induction last with
  | zero => simp [pending, Yields, next]
  | succ last ih =>
      by_cases hfirst : first ≤ last
      · have hlast : last < found.toList.length := h
        have hlength : (found.toList.take last).length = last := by
          rw [List.length_take, Nat.min_eq_left (Nat.le_of_lt hlast)]
        have hpending : (⟨found, first, last + 1⟩ : PostOrder G).pending =
            found.toList[last] :: (⟨found, first, last⟩ : PostOrder G).pending := by
          rw [pending, List.take_succ_eq_append_getElem hlast,
            List.drop_append_of_le_length (hfirst.trans_eq hlength.symm), List.reverse_append]
          rfl
        rw [hpending]
        refine ⟨⟨found, first, last⟩, ?_, ih (Nat.le_of_succ_le h)⟩
        simp [next, Nat.lt_succ_of_le hfirst, Array.getElem?_eq_getElem h]
      · have hempty : (⟨found, first, last + 1⟩ : PostOrder G).pending = [] := by
          rw [pending, List.reverse_eq_nil_iff, List.drop_eq_nil_iff, List.length_take]
          show min (last + 1) _ ≤ first
          omega
        rw [hempty]
        have hmet : ¬first < last + 1 := by omega
        simp [Yields, next, hmet]

theorem length_pending {walk : PostOrder G} (h : walk.last ≤ walk.found.size) :
    walk.pending.length = walk.length := by
  rw [pending, List.length_reverse, List.length_drop, List.length_take, Array.length_toList,
    Nat.min_eq_left h, length]

theorem pending_start (root : G.Node) :
    (start root).pending = (Source.drain Discovery.next G.pathBound (.start root)).reverse := by
  simp [pending, start]

end PostOrder

namespace Graph

/-- The whole post-order walk gives the discovered nodes from their end. -/
theorem yields_postOrder (G : Graph α) (root : G.Node) :
    Yields PostOrder.next (G.postOrder root) (.start root) ∧
      G.postOrder root = (Source.drain Discovery.next G.pathBound (.start root)).reverse := by
  have hyields : Yields PostOrder.next (PostOrder.start root).pending (.start root) :=
    PostOrder.yields_pending (Nat.le_refl _)
  have hlength : (PostOrder.start root).pending.length = (PostOrder.start root).length :=
    PostOrder.length_pending (Nat.le_refl _)
  have hpost : G.postOrder root = (PostOrder.start root).pending :=
    hyields.emit_eq (Nat.le_of_eq hlength)
  exact ⟨hpost ▸ hyields, by rw [hpost, PostOrder.pending_start]⟩

/-! ### The end of a walk and what it has given by then -/

/-- Each worklist runs empty exactly if no cycle is reached from the root. The three walks then give the
same nodes, each as often as there are ways to it. -/
theorem walks_end_iff_acyclicFrom (G : Graph α) (root : G.Node) :
    ((∃ k, (Source.advance PreOrder.next k (.start root)).stack = []) ↔ G.AcyclicFrom root) ∧
    ((∃ k, (Source.advance Discovery.next k (.start root)).waiting = []) ↔ G.AcyclicFrom root) ∧
    ((∃ k, (Source.advance LevelOrder.next k (.start root)).queue.toList = []) ↔
      G.AcyclicFrom root) ∧
    (G.AcyclicFrom root →
      Yields PreOrder.next (G.preOrder root) (.start root) ∧
      Yields Discovery.next (G.postOrder root).reverse (.start root) ∧
      Yields PostOrder.next (G.postOrder root) (.start root) ∧
      Yields LevelOrder.next (G.levelOrder root) (.start root) ∧
      (G.postOrder root).Perm (G.preOrder root) ∧
      (G.levelOrder root).Perm (G.preOrder root) ∧
      ∀ n, ((G.preOrder root).count n : ℕ∞) =
        {address | G.follow root address = some n}.encard) := by
  refine ⟨(PreOrder.worklist G).ends_iff_acyclicFrom rfl, (Discovery.worklist G).ends_iff_acyclicFrom rfl,
    (LevelOrder.worklist G).ends_iff_acyclicFrom (LevelOrder.pending_start root), fun hacyclic => ?_⟩
  obtain ⟨t, ht, rfl⟩ := acyclicFrom_iff_exists_unfolds.mp hacyclic
  obtain ⟨hpre, hpreorder⟩ := (PreOrder.worklist G).yields_drain ht rfl
  obtain ⟨hfound, hdiscovered⟩ := (Discovery.worklist G).yields_drain ht rfl
  obtain ⟨hlevel, hlevels⟩ := (LevelOrder.worklist G).yields_drain ht (LevelOrder.pending_start t.value)
  obtain ⟨hpost, hreversed⟩ := G.yields_postOrder t.value
  refine ⟨hpre, ?_, hpost, hlevel, ?_, hlevels.trans hpreorder.symm, fun n => ?_⟩
  · rw [hreversed, List.reverse_reverse]
    exact hfound
  · rw [hreversed]
    exact (List.reverse_perm _).trans (hdiscovered.trans hpreorder.symm)
  · rw [← ht.count_preorder n]
    exact congrArg _ (hpreorder.count_eq n)

/-- A graph in which two ways lead to the last node, with a view of each kind. -/
def diamond : Graph Unit :=
  .ofRows #[⟨(), [1, 2], .row⟩, ⟨(), [3], .halves⟩, ⟨(), [3], .sequence⟩, ⟨(), [], .row⟩]

theorem acyclicFrom_diamond : diamond.AcyclicFrom ⟨0, by decide⟩ := acyclicFrom_of_lt (by decide +kernel) _

theorem walks_end_diamond :
    diamond.AcyclicFrom ⟨0, by decide⟩ ∧
      (diamond.postOrder ⟨0, by decide⟩).Perm (diamond.preOrder ⟨0, by decide⟩) ∧
      ((diamond.preOrder ⟨0, by decide⟩).count ⟨3, by decide⟩ : ℕ∞) =
        {address | diamond.follow ⟨0, by decide⟩ address = some ⟨3, by decide⟩}.encard := by
  have hacyclic : diamond.AcyclicFrom ⟨0, by decide⟩ := acyclicFrom_of_lt (by decide +kernel) _
  obtain ⟨-, -, -, -, hperm, -, hcount⟩ :=
    (walks_end_iff_acyclicFrom diamond ⟨0, by decide⟩).2.2.2 hacyclic
  exact ⟨hacyclic, hperm, hcount _⟩

end Graph

end TreeWalk
