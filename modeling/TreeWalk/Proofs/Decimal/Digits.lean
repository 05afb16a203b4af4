import Mathlib.Algebra.Group.Nat.Defs
import Mathlib.Data.List.Basic
import Mathlib.Data.List.Induction
import TreeWalk.Decimal

/-!
Rows of decimal digits and the numbers that they write. The digits of a number start with a zero only for zero
itself, a row without a zero in front is the digits of its number, and of two rows of the same length only equal
ones write the same number.
-/

namespace TreeWalk.Decimal

/-! ### Digits -/

theorem isDigit_bounds {c : Char} (h : c.isDigit) : 48 ≤ c.toNat ∧ c.toNat ≤ 57 := by
  simp only [Char.isDigit, Bool.and_eq_true, decide_eq_true_eq] at h
  exact ⟨h.1, h.2⟩

theorem digitChar_toNat_sub {c : Char} (h : c.isDigit) : Nat.digitChar (c.toNat - 48) = c := by
  have hbounds := isDigit_bounds h
  apply Char.toNat_inj.mp
  rw [Nat.toNat_digitChar_of_lt_ten (by omega)]
  omega

theorem char_eq_of_digit_eq {c d : Char} (hc : c.isDigit) (hd : d.isDigit) (h : c.toNat - 48 = d.toNat - 48) :
    c = d := by
  rw [← digitChar_toNat_sub hc, h, digitChar_toNat_sub hd]

theorem digitChar_ne_zero : ∀ d < 10, d ≠ 0 → Nat.digitChar d ≠ '0' := by decide

/-! ### The digits of a number -/

theorem isDigit_of_mem_toDigits (n : Nat) : ∀ c ∈ Nat.toDigits 10 n, c.isDigit := fun _ hc =>
  Nat.isDigit_of_mem_toDigits (by decide) (by decide) hc

/-- The decimal digits of a number start with a zero only if the number is zero. -/
theorem head?_toDigits_ne {n : Nat} (hn : n ≠ 0) : (Nat.toDigits 10 n).head? ≠ some '0' := by
  induction n using Nat.strongRecOn with
  | ind n ih =>
      rcases Nat.lt_or_ge n 10 with hsmall | hlarge
      · rw [Nat.toDigits_of_lt_base hsmall, List.head?_cons]
        exact fun h => digitChar_ne_zero n hsmall hn (Option.some.inj h)
      · rw [Nat.toDigits_of_base_le (by decide) hlarge, List.head?_append_of_ne_nil _ Nat.toDigits_ne_nil]
        exact ih (n / 10) (by omega) (by omega)

theorem exists_toDigits_concat (n : Nat) : ∃ front, Nat.toDigits 10 n = front ++ [Nat.digitChar (n % 10)] := by
  by_cases hsmall : n < 10
  · exact ⟨[], by rw [Nat.toDigits_of_lt_base hsmall, Nat.mod_eq_of_lt hsmall, List.nil_append]⟩
  · exact ⟨_, Nat.toDigits_of_base_le (by decide) (Nat.le_of_not_lt hsmall)⟩

theorem getLast?_toDigits_ne {n : Nat} (hn : n % 10 ≠ 0) : (Nat.toDigits 10 n).getLast? ≠ some '0' := by
  obtain ⟨front, hfront⟩ := exists_toDigits_concat n
  rw [hfront, List.getLast?_concat]
  exact fun h => digitChar_ne_zero (n % 10) (Nat.mod_lt n (by decide)) hn (Option.some.inj h)

/-! ### The number of a row of digits -/

theorem digitsToNat_append (front back : List Char) :
    digitsToNat (front ++ back) = 10 ^ back.length * digitsToNat front + digitsToNat back := by
  have heq : ∀ cs, digitsToNat cs = Nat.ofDigitChars 10 cs 0 := fun cs => Nat.ofDigitChars_eq_foldl.symm
  rw [heq, heq, heq, Nat.ofDigitChars_append, Nat.ofDigitChars_eq_ofDigitChars_zero]

theorem digitsToNat_concat (front : List Char) (c : Char) :
    digitsToNat (front ++ [c]) = 10 * digitsToNat front + (c.toNat - 48) := by
  rw [digitsToNat_append]
  simp [digitsToNat]

theorem digitsToNat_replicate (n : Nat) : digitsToNat (List.replicate n '0') = 0 := by
  induction n with
  | zero => rfl
  | succ n ih => rw [List.replicate_succ', digitsToNat_concat, ih]; rfl

theorem digitsToNat_toDigits (n : Nat) : digitsToNat (Nat.toDigits 10 n) = n := Nat.ofDigitChars_ten_toDigits

theorem digitsToNat_lt {cs : List Char} (h : ∀ c ∈ cs, c.isDigit) : digitsToNat cs < 10 ^ cs.length := by
  induction cs using List.reverseRecOn with
  | nil => decide
  | append_singleton cs c ih =>
      have hc := isDigit_bounds (h c (by simp))
      have hcs := ih fun d hd => h d (List.mem_append_left _ hd)
      rw [digitsToNat_concat, List.length_append, List.length_singleton, Nat.pow_succ]
      omega

/-- Of two rows of the same length only equal ones write the same number. -/
theorem eq_of_digitsToNat_eq {cs ds : List Char} (hcs : ∀ c ∈ cs, c.isDigit) (hds : ∀ d ∈ ds, d.isDigit)
    (hlength : cs.length = ds.length) (h : digitsToNat cs = digitsToNat ds) : cs = ds := by
  induction cs using List.reverseRecOn generalizing ds with
  | nil => exact (List.length_eq_zero_iff.mp hlength.symm).symm
  | append_singleton cs c ih =>
      obtain ⟨ds, d, rfl⟩ := (List.eq_nil_or_concat' ds).resolve_left (by rintro rfl; simp at hlength)
      have hc := isDigit_bounds (hcs c (by simp))
      have hd := isDigit_bounds (hds d (by simp))
      rw [digitsToNat_concat, digitsToNat_concat] at h
      have hfront : cs = ds := by
        refine ih (fun x hx => hcs x ?_) (fun x hx => hds x ?_) ?_ (by omega)
        · exact List.mem_append_left _ hx
        · exact List.mem_append_left _ hx
        · simpa using hlength
      have hlast : c = d := char_eq_of_digit_eq (hcs c (by simp)) (hds d (by simp)) (by omega)
      rw [hfront, hlast]

/-- Digits without a zero in front are those of the number that they write. -/
theorem toDigits_digitsToNat {cs : List Char} (hcs : ∀ c ∈ cs, c.isDigit) (hne : cs ≠ [])
    (hhead : cs.head? = some '0' → cs = ['0']) : Nat.toDigits 10 (digitsToNat cs) = cs := by
  induction cs using List.reverseRecOn with
  | nil => exact absurd rfl hne
  | append_singleton cs c ih =>
      have hbounds := isDigit_bounds (hcs c (by simp))
      have hc : Nat.toDigits 10 (c.toNat - 48) = [c] := by
        rw [Nat.toDigits_of_lt_base (by omega), digitChar_toNat_sub (hcs c (by simp))]
      rw [digitsToNat_concat]
      by_cases hcs' : cs = []
      · subst hcs'
        simpa [digitsToNat] using hc
      have hhead' : cs.head? ≠ some '0' := by
        intro h
        have hlength := congrArg List.length (hhead (by rw [List.head?_append_of_ne_nil _ hcs', h]))
        simp only [List.length_append, List.length_singleton, Nat.add_eq_right] at hlength
        exact hcs' (List.length_eq_zero_iff.mp hlength)
      have hfront := ih (fun d hd => hcs d (List.mem_append_left _ hd)) hcs' fun h => absurd h hhead'
      have hpos : 0 < digitsToNat cs := by
        refine Nat.pos_of_ne_zero fun hzero => hhead' ?_
        rw [← hfront, hzero]
        rfl
      rw [← Nat.toDigits_append_toDigits (by decide) hpos (by omega), hfront, hc]

end TreeWalk.Decimal
