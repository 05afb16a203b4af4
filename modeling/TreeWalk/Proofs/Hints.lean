import TreeWalk.Proofs.Children
import TreeWalk.Proofs.Walks
import TreeWalk.Walk

/-!
Size hints. A walk with a worklist gives at least the nodes that are pending, whatever their children are: a
call takes one node from the worklist and never more. Post-order and the readers of child views know how
many items they have ahead. The hints are borne out in every state that a source comes to, also along a walk
that never ends.
-/

namespace TreeWalk

namespace Source

variable {σ τ α : Type} {next : σ → Option α × σ} {sizeHint : σ → SizeHint} {s : σ}

/-- The answer to the call that comes behind `i` others, whatever those gave. -/
def answer (next : σ → Option α × σ) (s : σ) (i : Nat) : Option α := (next (advance next i s)).1

/-- The later calls bear out the hint of a state. The first `low` of them give an item, and `low` is 0 exactly
if the next call gives nothing. Where `high` is known it is `low`, and no other call gives an item. Behind a
call that gives nothing all calls give nothing. -/
structure Honest (next : σ → Option α × σ) (sizeHint : σ → SizeHint) (s : σ) : Prop where
  low : ∀ i < (sizeHint s).low, (answer next s i).isSome
  low_eq_zero_iff : (sizeHint s).low = 0 ↔ answer next s 0 = none
  high : ∀ h, (sizeHint s).high = some h → h = (sizeHint s).low ∧ ∀ i, (answer next s i).isSome ↔ i < h
  fused : ∀ i j, i ≤ j → answer next s i = none → answer next s j = none

/-- A call that gives nothing leaves a source to the later calls as it was. -/
theorem Rests.fused (hrests : Rests next) {i j : Nat} (hij : i ≤ j) (h : answer next s i = none) :
    answer next s j = none := by
  obtain ⟨k, rfl⟩ := Nat.exists_eq_add_of_le hij
  rw [answer, advance_add, hrests.advance_of_dry h]
  exact h

/-! ### Sources that know their items -/

theorem Yields.answer_eq (hrests : Rests next) {items : List α} (h : Yields next items s) (i : Nat) :
    answer next s i = items[i]? := by
  induction items generalizing s i with
  | nil => exact hrests.fused (Nat.zero_le i) h
  | cons a items ih =>
      obtain ⟨t, hnext, hrest⟩ := h
      cases i with
      | zero => rw [answer, advance_zero, hnext]; rfl
      | succ i =>
          rw [answer, advance_succ hnext]
          exact ih hrest i

theorem Yields.isSome_answer_iff (hrests : Rests next) {items : List α} (h : Yields next items s) {i : Nat} :
    (answer next s i).isSome ↔ i < items.length := by
  rw [h.answer_eq hrests]
  simp

theorem Yields.honest (hrests : Rests next) {items : List α} (h : Yields next items s)
    (hhint : sizeHint s = .exact items.length) : Honest next sizeHint s where
  low := by
    intro i hi
    rw [hhint] at hi
    exact (h.isSome_answer_iff hrests).mpr hi
  low_eq_zero_iff := by
    rw [hhint, h.answer_eq hrests, List.getElem?_eq_none_iff, Nat.le_zero]
    rfl
  high := by
    intro high hhigh
    rw [hhint] at hhigh ⊢
    obtain rfl : items.length = high := Option.some.inj hhigh
    exact ⟨rfl, fun i => h.isSome_answer_iff hrests⟩
  fused := fun _ _ => hrests.fused

/-! ### Sources behind others -/

theorem advance_map {next' : τ → Option α × τ} {f : σ → τ} (step : ∀ s, next' (f s) = (next s).map id f)
    (k : Nat) (s : σ) : advance next' k (f s) = f (advance next k s) := by
  induction k generalizing s with
  | zero => rfl
  | succ k ih =>
      rw [advance, step]
      exact ih (next s).2

theorem answer_map {next' : τ → Option α × τ} {f : σ → τ} (step : ∀ s, next' (f s) = (next s).map id f)
    (s : σ) : answer next' (f s) = answer next s := by
  funext i
  rw [answer, answer, advance_map step, step]
  rfl

theorem Honest.map {next' : τ → Option α × τ} {sizeHint' : τ → SizeHint} {f : σ → τ}
    (step : ∀ s, next' (f s) = (next s).map id f) (hhint : sizeHint' (f s) = sizeHint s)
    (h : Honest next sizeHint s) : Honest next' sizeHint' (f s) := by
  refine ⟨?_, ?_, ?_, ?_⟩
  · rw [hhint, answer_map step]
    exact h.low
  · rw [hhint, answer_map step]
    exact h.low_eq_zero_iff
  · rw [hhint, answer_map step]
    exact h.high
  · rw [answer_map step]
    exact h.fused

end Source

variable {α : Type} {G : Graph α}

/-! ### Walks with a worklist -/

namespace Worklist

variable {σ : Type} {next : σ → Option G.Node × σ} {pending : σ → List G.Node}

/-- A walk has not ended before it has given as many nodes as were pending. -/
theorem isSome_answer (W : Worklist G next pending) {s : σ} {i : Nat} (hi : i < (pending s).length) :
    (Source.answer next s i).isSome := by
  rw [Option.isSome_iff_ne_none, Ne, Source.answer, W.dry_iff]
  intro hempty
  have hlength := (W.emit_append_pending i s).length_eq
  have hgiven := Source.length_emit_le next i s
  rw [hempty, List.append_nil, List.length_append] at hlength
  omega

theorem honest (W : Worklist G next pending) {sizeHint : σ → SizeHint} {s : σ}
    (hhint : sizeHint s = ⟨(pending s).length, none⟩) : Source.Honest next sizeHint s where
  low := by
    rw [hhint]
    exact fun i hi => W.isSome_answer hi
  low_eq_zero_iff := by
    rw [hhint, Source.answer, Source.advance_zero, W.dry_iff]
    exact List.length_eq_zero_iff
  high := by
    intro high hhigh
    rw [hhint] at hhigh
    cases hhigh
  fused := fun _ _ => W.rests.fused

end Worklist

theorem PreOrder.honest (walk : PreOrder G) : Source.Honest next sizeHint walk := (worklist G).honest rfl

theorem LevelOrder.honest (walk : LevelOrder G) : Source.Honest next sizeHint walk :=
  (worklist G).honest (by rw [sizeHint, pending, Queue.length_toList])

/-! ### Walks and readers that know their length -/

namespace PostOrder

theorem rests : Source.Rests (next (G := G)) := by
  intro walk hdry
  unfold next at hdry ⊢
  split
  · rfl
  · rename_i hfound
    rw [hfound] at hdry
    cases hdry

theorem last_le_of_next {walk : PostOrder G} (h : walk.last ≤ walk.found.size) :
    walk.next.2.last ≤ walk.next.2.found.size := by
  unfold next
  split
  · exact h
  · exact (Nat.sub_le walk.last 1).trans h

theorem honest {walk : PostOrder G} (h : walk.last ≤ walk.found.size) : Source.Honest next sizeHint walk :=
  (yields_pending h).honest rests (by rw [length_pending h, sizeHint])

end PostOrder

theorem ForwardReader.honest {ν : Type} (reader : ForwardReader ν) : Source.Honest next sizeHint reader :=
  reader.yields_ahead.honest rests (by rw [length_ahead, sizeHint])

namespace BackwardReader

variable {ν : Type}

theorem inRange_of_next {reader : BackwardReader ν} (h : reader.InRange) : reader.next.2.InRange := by
  fun_cases next reader with
  | case3 items remaining child hget => exact Nat.le_of_succ_le h
  | _ => exact h

theorem honest {reader : BackwardReader ν} (h : reader.InRange) : Source.Honest next sizeHint reader :=
  (yields_ahead h).honest rests (by rw [length_ahead h, sizeHint])

end BackwardReader

/-! ### All sources -/

theorem PostOrder.honest_advance (root : G.Node) (k : Nat) :
    Source.Honest next sizeHint (Source.advance next k (start root)) :=
  honest (Source.advance_invariant (fun walk : PostOrder G => walk.last ≤ walk.found.size) last_le_of_next
    (Nat.le_refl (start root).found.size) k)

theorem BackwardReader.honest_advance {ν : Type} (view : ChildView ν) (k : Nat) :
    Source.Honest next sizeHint (Source.advance next k view.backward) :=
  honest (Source.advance_invariant InRange inRange_of_next view.inRange_backward k)

/-- A walk in a given order is the walk of that order at each step. -/
theorem Walk.honest_advance (order : Order) (root : G.Node) (k : Nat) :
    Source.Honest next sizeHint (Source.advance next k (start order root)) := by
  cases order with
  | pre =>
      rw [start, Source.advance_map (f := pre) fun _ => rfl]
      exact (PreOrder.honest _).map (fun _ => rfl) rfl
  | post =>
      rw [start, Source.advance_map (f := post) fun _ => rfl]
      exact (PostOrder.honest_advance root k).map (fun _ => rfl) rfl
  | level =>
      rw [start, Source.advance_map (f := level) fun _ => rfl]
      exact (LevelOrder.honest _).map (fun _ => rfl) rfl

namespace Graph

/-- In every state that a walk or a reader of children comes to, the later calls bear out its hint, on a
cycle too. Post-order and the readers always know an exact one. -/
theorem sizeHint_honest (G : Graph α) :
    (∀ (root : G.Node) (k : Nat),
      Source.Honest PreOrder.next PreOrder.sizeHint (Source.advance PreOrder.next k (.start root)) ∧
      Source.Honest LevelOrder.next LevelOrder.sizeHint (Source.advance LevelOrder.next k (.start root)) ∧
      Source.Honest PostOrder.next PostOrder.sizeHint (Source.advance PostOrder.next k (.start root)) ∧
      ∃ left, (Source.advance PostOrder.next k (.start root)).sizeHint = .exact left) ∧
    (∀ (order : Order) (root : G.Node) (k : Nat),
      Source.Honest Walk.next Walk.sizeHint (Source.advance Walk.next k (.start order root))) ∧
    ∀ (view : ChildView G.Node) (k : Nat),
      (Source.Honest ForwardReader.next ForwardReader.sizeHint
          (Source.advance ForwardReader.next k view.forward) ∧
        ∃ left, (Source.advance ForwardReader.next k view.forward).sizeHint = .exact left) ∧
      Source.Honest BackwardReader.next BackwardReader.sizeHint
          (Source.advance BackwardReader.next k view.backward) ∧
        ∃ left, (Source.advance BackwardReader.next k view.backward).sizeHint = .exact left := by
  refine ⟨fun root k => ?_, Walk.honest_advance, fun view k => ?_⟩
  · exact ⟨PreOrder.honest _, LevelOrder.honest _, PostOrder.honest_advance root k, _, rfl⟩
  · exact ⟨⟨ForwardReader.honest _, _, rfl⟩, BackwardReader.honest_advance view k, _, rfl⟩

end Graph

end TreeWalk
