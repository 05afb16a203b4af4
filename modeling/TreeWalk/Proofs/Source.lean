import TreeWalk.Source

/-!
Sources that end. A source yields a list when it gives exactly the items of the list, in their order, and
then has run dry. What a source yields is unique, and any bound on the steps that is large enough shows
all of it. Whether a source that has run dry stays so is a matter of its step: it does if a call that gives
nothing changes nothing.
-/

namespace TreeWalk.Source

variable {σ α : Type} {next : σ → Option α × σ} {s : σ}

/-- The source gives exactly the listed items and then has run dry. -/
def Yields (next : σ → Option α × σ) : List α → σ → Prop
  | [], s => (next s).1 = none
  | a :: items, s => ∃ t, next s = (some a, t) ∧ Yields next items t

/-- Of a source that yields a list, `k` steps show the first `k` items. -/
theorem Yields.emit_eq_take {items : List α} (h : Yields next items s) (k : Nat) :
    emit next k s = items.take k := by
  induction k generalizing items s with
  | zero => simp
  | succ k ih =>
      cases items with
      | nil => rw [emit_of_dry h, List.take_nil]
      | cons a items =>
          obtain ⟨t, hnext, hrest⟩ := h
          rw [emit_succ hnext, List.take_succ_cons]
          exact congrArg (a :: ·) (ih hrest)

theorem Yields.emit_eq {items : List α} (h : Yields next items s) {k : Nat} (hk : items.length ≤ k) :
    emit next k s = items := by
  rw [h.emit_eq_take, List.take_of_length_le hk]

theorem Yields.drain_eq {items : List α} (h : Yields next items s) {k : Nat} (hk : items.length ≤ k) :
    drain next k s = items := by
  rw [drain_eq_emit]
  exact h.emit_eq (Nat.le_trans hk (Nat.le_mul_of_pos_right k (by decide)))

theorem Yields.unique {items items' : List α} (h : Yields next items s) (h' : Yields next items' s) :
    items = items' := by
  have hmax := h.emit_eq (Nat.le_max_left items.length items'.length)
  rw [← hmax, h'.emit_eq (Nat.le_max_right _ _)]

/-- A source behind another one yields what the other one yields. -/
theorem Yields.map {τ : Type} {next' : τ → Option α × τ} {f : σ → τ}
    (step : ∀ s, next' (f s) = (next s).map id f) {items : List α} (h : Yields next items s) :
    Yields next' items (f s) := by
  induction items generalizing s with
  | nil =>
      have hdry : (next s).1 = none := h
      show (next' (f s)).1 = none
      rw [step]
      exact hdry
  | cons a items ih =>
      obtain ⟨t, hnext, hrest⟩ := h
      refine ⟨f t, ?_, ih hrest⟩
      rw [step, hnext]
      rfl

/-- Behind the first of its items, a source yields the others. -/
theorem Yields.advance_append {front back : List α} (h : Yields next (front ++ back) s) :
    Yields next back (advance next front.length s) := by
  induction front generalizing s with
  | nil => exact h
  | cons a front ih =>
      obtain ⟨t, hnext, hrest⟩ := h
      rw [List.length_cons, advance_succ hnext]
      exact ih hrest

/-- Behind its items the source is dry. -/
theorem Yields.advance_dry {items : List α} (h : Yields next items s) :
    (next (advance next items.length s)).1 = none := by
  rw [← List.append_nil items] at h
  exact h.advance_append

/-- A source that is dry after `k` steps yields what it has given up to then. -/
theorem yields_emit_of_dry {k : Nat} (hdry : (next (advance next k s)).1 = none) :
    Yields next (emit next k s) s := by
  induction k generalizing s with
  | zero => exact hdry
  | succ k ih =>
      rcases hnext : next s with ⟨_ | a, t⟩
      · have hnone : (next s).1 = none := by rw [hnext]
        rw [emit_of_dry hnone]
        exact hnone
      · rw [advance_succ hnext] at hdry
        rw [emit_succ hnext]
        exact ⟨t, hnext, ih hdry⟩

/-- A source yields a list exactly when it runs dry after finitely many steps. -/
theorem exists_yields_iff :
    (∃ items, Yields next items s) ↔ ∃ k, (next (advance next k s)).1 = none :=
  ⟨fun ⟨items, h⟩ => ⟨items.length, h.advance_dry⟩, fun ⟨k, h⟩ => ⟨emit next k s, yields_emit_of_dry h⟩⟩

theorem advance_add (next : σ → Option α × σ) (j k : Nat) (s : σ) :
    advance next (j + k) s = advance next k (advance next j s) := by
  induction j generalizing s with
  | zero => simp
  | succ j ih =>
      rw [Nat.succ_add, advance, advance]
      exact ih (next s).2

/-- What one call keeps, every run keeps. -/
theorem advance_invariant (Inv : σ → Prop) (step : ∀ {s}, Inv s → Inv (next s).2) (hs : Inv s) (k : Nat) :
    Inv (advance next k s) := by
  induction k generalizing s with
  | zero => exact hs
  | succ k ih => exact ih (step hs)

/-! ### Sources at rest -/

/-- A call that gives nothing changes nothing. -/
def Rests (next : σ → Option α × σ) : Prop := ∀ s, (next s).1 = none → (next s).2 = s

theorem Rests.advance_of_dry (hrests : Rests next) (h : (next s).1 = none) (k : Nat) :
    advance next k s = s := by
  induction k with
  | zero => rfl
  | succ k ih => rw [advance, hrests s h, ih]

/-- Items asked for in two portions. -/
theorem Rests.emit_add (hrests : Rests next) (j k : Nat) (s : σ) :
    emit next (j + k) s = emit next j s ++ emit next k (advance next j s) := by
  induction j generalizing s with
  | zero => simp
  | succ j ih =>
      rw [Nat.succ_add]
      rcases hnext : next s with ⟨_ | a, t⟩
      · have hdry : (next s).1 = none := by rw [hnext]
        rw [hrests.advance_of_dry hdry, emit_of_dry hdry, emit_of_dry hdry, emit_of_dry hdry]
        rfl
      · rw [emit_succ hnext, emit_succ hnext, advance_succ hnext, ih]
        rfl

/-- A source that gives less than was asked for has run dry. -/
theorem Rests.dry_of_length_emit_lt (hrests : Rests next) {k : Nat} (short : (emit next k s).length < k) :
    (next (advance next k s)).1 = none := by
  induction k generalizing s with
  | zero => exact absurd short (Nat.not_lt_zero _)
  | succ k ih =>
      rcases hnext : next s with ⟨_ | a, t⟩
      · have hdry : (next s).1 = none := by rw [hnext]
        rw [hrests.advance_of_dry hdry]
        exact hdry
      · rw [emit_succ hnext] at short
        rw [advance_succ hnext]
        exact ih (Nat.lt_of_succ_lt_succ short)

end TreeWalk.Source
