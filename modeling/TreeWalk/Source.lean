/-!
Lazy sources. A source is a state together with a step, a call that gives the next item or nothing and in
both cases the state that it leaves behind. Every walk, child reader and ancestor chain is one, and whatever
asks several items of a source goes through `Source.take`.
-/

namespace TreeWalk

/-- What a source promises about the items still to come: at least `low` of them, and no more than
`high` when that is known. -/
structure SizeHint where
  low : Nat
  high : Option Nat
deriving DecidableEq, Repr

/-- A source that knows exactly how many items are left. -/
def SizeHint.exact (n : Nat) : SizeHint := ⟨n, some n⟩

namespace Source

variable {σ α : Type}

private def takeOnto (next : σ → Option α × σ) : Nat → σ → List α → List α × σ
  | 0, s, out => (out, s)
  | k + 1, s, out =>
      match next s with
      | (none, t) => (out, t)
      | (some a, t) => takeOnto next k t (a :: out)

/-- The first `k` items, and the state after them; if the source runs dry before, the items up to then, and
the state after the call that gave nothing. -/
def take (next : σ → Option α × σ) (k : Nat) (s : σ) : List α × σ :=
  let taken := takeOnto next k s []
  (taken.1.reverse, taken.2)

/-- The first `k` items, fewer if the source runs dry. -/
def emit (next : σ → Option α × σ) (k : Nat) (s : σ) : List α := (take next k s).1

/-- The state after `k` calls, whatever they give. -/
def advance (next : σ → Option α × σ) : Nat → σ → σ
  | 0, s => s
  | k + 1, s => advance next k (next s).2

/-- The steps in a round. -/
def round : Nat := 65536

/-- The items of the first `k` rounds. A bound counted in rounds may be very large: it costs one step of
counting per round, and the count ends with the source. -/
def drain (next : σ → Option α × σ) : Nat → σ → List α
  | 0, _ => []
  | k + 1, s =>
      let taken := take next round s
      if taken.1.length < round then taken.1 else taken.1 ++ drain next k taken.2

private theorem takeOnto_eq (next : σ → Option α × σ) (k : Nat) (s : σ) (out : List α) :
    takeOnto next k s out
      = ((takeOnto next k s []).1 ++ out, (takeOnto next k s []).2) := by
  induction k generalizing s out with
  | zero => rfl
  | succ k ih =>
      simp only [takeOnto]
      rcases next s with ⟨_ | a, t⟩
      · rfl
      · simp only []
        rw [ih _ (a :: out), ih _ [a]]
        simp

@[simp] theorem emit_zero (next : σ → Option α × σ) (s : σ) : emit next 0 s = [] := rfl

@[simp] theorem advance_zero (next : σ → Option α × σ) (s : σ) : advance next 0 s = s := rfl

section Steps

variable {next : σ → Option α × σ} {s t : σ} {a : α}

theorem take_of_dry (h : next s = (none, t)) (k : Nat) : take next (k + 1) s = ([], t) := by
  simp [take, takeOnto, h]

theorem take_succ (h : next s = (some a, t)) (k : Nat) :
    take next (k + 1) s = (a :: (take next k t).1, (take next k t).2) := by
  simp only [take, takeOnto, h]
  rw [takeOnto_eq]
  simp

theorem exists_eq_of_dry (h : (next s).1 = none) : ∃ t, next s = (none, t) := ⟨(next s).2, by rw [← h]⟩

/-- A source that gives nothing has no items. -/
theorem emit_of_dry (h : (next s).1 = none) (k : Nat) : emit next k s = [] := by
  cases k with
  | zero => rfl
  | succ k =>
      obtain ⟨t, ht⟩ := exists_eq_of_dry h
      rw [emit, take_of_dry ht]

/-- One more item is the next item, and then the items of the state after it. -/
theorem emit_succ (h : next s = (some a, t)) (k : Nat) : emit next (k + 1) s = a :: emit next k t := by
  rw [emit, take_succ h]
  rfl

theorem advance_succ (h : next s = (some a, t)) (k : Nat) : advance next (k + 1) s = advance next k t := by
  rw [advance, h]

end Steps

theorem length_emit_le (next : σ → Option α × σ) (k : Nat) (s : σ) : (emit next k s).length ≤ k := by
  induction k generalizing s with
  | zero => exact Nat.le_refl 0
  | succ k ih =>
      rcases hnext : next s with ⟨_ | a, t⟩
      · rw [emit_of_dry (by rw [hnext])]
        exact Nat.zero_le _
      · rw [emit_succ hnext]
        exact Nat.succ_le_succ (ih t)

/-- A source that gives less than was asked for gives no more if it is asked for more. -/
theorem emit_of_length_lt {next : σ → Option α × σ} {j : Nat} {s : σ} (short : (emit next j s).length < j)
    (k : Nat) : emit next (j + k) s = emit next j s := by
  induction j generalizing s with
  | zero => exact absurd short (Nat.not_lt_zero _)
  | succ j ih =>
      rw [Nat.succ_add]
      rcases hnext : next s with ⟨_ | a, t⟩
      · have hdry : (next s).1 = none := by rw [hnext]
        rw [emit_of_dry hdry, emit_of_dry hdry]
      · rw [emit_succ hnext] at short ⊢
        rw [emit_succ hnext, ih (Nat.lt_of_succ_lt_succ short)]

/-- A source that gives what was asked for goes on behind it. -/
theorem emit_of_length_eq {next : σ → Option α × σ} {j : Nat} {s : σ} (full : (emit next j s).length = j)
    (k : Nat) : emit next (j + k) s = emit next j s ++ emit next k (take next j s).2 := by
  induction j generalizing s with
  | zero =>
      rw [Nat.zero_add]
      rfl
  | succ j ih =>
      rw [Nat.succ_add]
      rcases hnext : next s with ⟨_ | a, t⟩
      · rw [emit_of_dry (by rw [hnext])] at full
        cases full
      · rw [emit_succ hnext] at full ⊢
        rw [emit_succ hnext, take_succ hnext, ih (Nat.succ.inj full)]
        rfl

/-- Rounds are only a way to count. -/
theorem drain_eq_emit (next : σ → Option α × σ) (k : Nat) (s : σ) :
    drain next k s = emit next (k * round) s := by
  induction k generalizing s with
  | zero => simp [drain]
  | succ k ih =>
      rw [drain, Nat.succ_mul, Nat.add_comm]
      split
      · rename_i short
        rw [emit_of_length_lt short]
        rfl
      · rename_i full
        rw [emit_of_length_eq (Nat.le_antisymm (length_emit_le next round s) (Nat.le_of_not_lt full)), ih]
        rfl

end Source

end TreeWalk
