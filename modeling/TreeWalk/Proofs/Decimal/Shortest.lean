import Mathlib
import TreeWalk.Decimal
import TreeWalk.Proofs.Decimal.Digits
import TreeWalk.Proofs.Decimal.Rounding

/-!
The shortest decimal of a floating-point number. On each grid the two neighbours of the number decide: what is read
as the number and is not one of them lies behind one that is read as it as well. Coarser grids are tried first, and
seventeen digits are always enough. So the decimal that is found has the fewest significant digits of all that are
read as the number, and none with as many is nearer to it.
-/

namespace TreeWalk

/-! ### Nearness -/

/-- A number is nearer to `x` than another one, or as near and not less. -/
def Nearer (x a b : ℚ) : Prop := |a - x| < |b - x| ∨ |a - x| = |b - x| ∧ b ≤ a

namespace Nearer

variable {x a b c : ℚ}

theorem of_le_of_le (hba : b ≤ a) (hax : a ≤ x) : Nearer x a b := by
  rw [Nearer, abs_of_nonpos (by linarith), abs_of_nonpos (by linarith)]
  rcases hba.lt_or_eq with hlt | rfl
  · exact Or.inl (by linarith)
  · exact Or.inr ⟨rfl, le_rfl⟩

theorem of_ge_of_ge (hxa : x ≤ a) (hab : a ≤ b) : Nearer x a b := by
  rw [Nearer, abs_of_nonneg (by linarith), abs_of_nonneg (by linarith)]
  rcases hab.lt_or_eq with hlt | rfl
  · exact Or.inl (by linarith)
  · exact Or.inr ⟨rfl, le_rfl⟩

/-- Of a number below and one above, the one below has to be really nearer. -/
theorem below_of_lt (hax : a ≤ x) (h : x - a < b - x) : Nearer x a b := by
  rw [Nearer, abs_of_nonpos (by linarith), abs_of_nonneg (by linarith)]
  exact Or.inl (by linarith)

theorem above_of_le (hax : a ≤ x) (hxb : x ≤ b) (h : b - x ≤ x - a) : Nearer x b a := by
  rw [Nearer, abs_of_nonneg (by linarith), abs_of_nonpos (by linarith)]
  rcases h.lt_or_eq with hlt | heq
  · exact Or.inl (by linarith)
  · exact Or.inr ⟨by linarith, by linarith⟩

theorem trans (hab : Nearer x a b) (hbc : Nearer x b c) : Nearer x a c := by
  rcases hab with hab | ⟨hab, hba⟩ <;> rcases hbc with hbc | ⟨hbc, hcb⟩
  · exact Or.inl (hab.trans hbc)
  · exact Or.inl (hab.trans_eq hbc)
  · exact Or.inl (hab.trans_lt hbc)
  · exact Or.inr ⟨hab.trans hbc, hcb.trans hba⟩

theorem antisymm (hab : Nearer x a b) (hba : Nearer x b a) : a = b := by
  rcases hab with hab | ⟨hab, hle⟩ <;> rcases hba with hba | ⟨hba, hge⟩ <;> linarith

end Nearer

theorem Between.convex {closed : Prop} {low high a b c : ℚ} (ha : Between closed low high a)
    (hc : Between closed low high c) (hab : a ≤ b) (hbc : b ≤ c) : Between closed low high b := by
  obtain ⟨ha1, -, ha3⟩ := ha
  obtain ⟨-, hc2, hc3⟩ := hc
  refine ⟨ha1.trans hab, hbc.trans hc2, ?_⟩
  rcases ha3 with hclosed | ⟨ha3, -⟩
  · exact Or.inl hclosed
  · exact hc3.imp_right fun hc3 => ⟨ha3.trans_le hab, hbc.trans_lt hc3.2⟩

namespace Double

/-- The exact size of a finite number. -/
def size (mantissa : Nat) (exponent : Int) : ℚ := mantissa * 2 ^ exponent

variable {mantissa : Nat} {exponent : Int}

theorem RoundsTo.convex {a b c : ℚ} (ha : RoundsTo mantissa exponent a) (hc : RoundsTo mantissa exponent c)
    (hab : a ≤ b) (hbc : b ≤ c) : RoundsTo mantissa exponent b :=
  Between.convex ha hc (by gcongr) (by gcongr)

theorem roundsTo_size (mantissa : Nat) (exponent : Int) : RoundsTo mantissa exponent (size mantissa exponent) := by
  have hroom := roomBelow_pos mantissa exponent
  have hdiv : size mantissa exponent / 2 ^ exponent = mantissa := by
    rw [size, mul_div_assoc, div_self (by positivity), mul_one]
  rw [RoundsTo, hdiv]
  exact ⟨by linarith, by linarith, Or.inr ⟨by linarith, by linarith⟩⟩

theorem RoundsTo.pos {q : ℚ} (hmantissa : mantissa ≠ 0) (h : RoundsTo mantissa exponent q) : 0 < q := by
  have hone : (1 : ℚ) ≤ mantissa := by exact_mod_cast Nat.pos_of_ne_zero hmantissa
  have hlow := h.bounds.1
  rw [le_div_iff₀ (by positivity)] at hlow
  have hunit : (0 : ℚ) < 2 ^ exponent := by positivity
  nlinarith

/-! ### The interval -/

theorem cast_pow_toNat (base : Nat) (hbase : base ≠ 0) (k : Int) :
    ((base ^ k.toNat : Nat) : ℚ) = base ^ k * (base ^ (-k).toNat : Nat) := by
  have hne : (base : ℚ) ≠ 0 := by exact_mod_cast hbase
  push_cast
  rw [← zpow_natCast, ← zpow_natCast, ← zpow_add₀ hne]
  congr 1
  omega

/-- What makes a decimal and a binary number whole together. -/
def wholeFactor (exponent grid : Int) : ℚ :=
  2 ^ exponent * (2 ^ (2 - exponent).toNat : Nat) * (10 ^ (-grid).toNat : Nat)

theorem wholeFactor_pos (exponent grid : Int) : 0 < wholeFactor exponent grid := by
  rw [wholeFactor]
  positivity

theorem cast_quarters (quarters : Nat) (exponent grid : Int) :
    ((quarters * Nat.pow 2 (exponent - 2).toNat * Nat.pow 10 (-grid).toNat : Nat) : ℚ) =
      quarters / 4 * wholeFactor exponent grid := by
  have htwo := cast_pow_toNat 2 (by decide) (exponent - 2)
  rw [neg_sub, zpow_sub₀ (by norm_num)] at htwo
  rw [Nat.pow_eq, Nat.pow_eq, Nat.cast_mul, Nat.cast_mul, htwo, wholeFactor]
  push_cast
  ring

theorem cast_decimal (digits : Nat) (exponent grid : Int) :
    ((digits * Nat.pow 10 grid.toNat * Nat.pow 2 (2 - exponent).toNat : Nat) : ℚ) =
      digits * 10 ^ grid / 2 ^ exponent * wholeFactor exponent grid := by
  have hten := cast_pow_toNat 10 (by decide) grid
  rw [Nat.pow_eq, Nat.pow_eq, Nat.cast_mul, Nat.cast_mul, hten, wholeFactor]
  push_cast
  field_simp

theorem cast_compare {a b : Nat} {q r factor : ℚ} (hpos : 0 < factor) (ha : (a : ℚ) = q * factor)
    (hb : (b : ℚ) = r * factor) : (a ≤ b ↔ q ≤ r) ∧ (a < b ↔ q < r) := by
  constructor
  · rw [← Nat.cast_le (α := ℚ), ha, hb, mul_le_mul_iff_left₀ hpos]
  · rw [← Nat.cast_lt (α := ℚ), ha, hb, mul_lt_mul_iff_left₀ hpos]

theorem cast_quartersBelow (hmantissa : mantissa ≠ 0) (exponent : Int) :
    ((4 * mantissa - quartersBelow mantissa exponent : Nat) : ℚ) / 4 = mantissa - roomBelow mantissa exponent := by
  rw [quartersBelow, roomBelow]
  simp only [Bool.and_eq_true, decide_eq_true_eq]
  split_ifs
  · rw [Nat.cast_sub (by omega)]
    push_cast
    ring
  · rw [Nat.cast_sub (by omega)]
    push_cast
    ring

/-- The interval of a number holds the decimals that are read as it. -/
theorem contains_interval_iff (hmantissa : mantissa ≠ 0) (exponent : Int) (digits : Nat) (grid : Int) :
    (interval mantissa exponent).contains digits grid = true ↔ RoundsTo mantissa exponent (digits * 10 ^ grid) := by
  have hfactor := wholeFactor_pos exponent grid
  have hdecimal := cast_decimal digits exponent grid
  have hhigh : ((4 * mantissa + 2 : Nat) : ℚ) / 4 = mantissa + 1 / 2 := by
    push_cast
    ring
  obtain ⟨hle1, hlt1⟩ := cast_compare hfactor
    (cast_quarters (4 * mantissa - quartersBelow mantissa exponent) exponent grid) hdecimal
  obtain ⟨hle2, hlt2⟩ := cast_compare hfactor hdecimal (cast_quarters (4 * mantissa + 2) exponent grid)
  rw [cast_quartersBelow hmantissa] at hle1 hlt1
  rw [hhigh] at hle2 hlt2
  simp only [Interval.contains, interval, RoundsTo, Between]
  by_cases heven : mantissa % 2 = 0
  · simp only [heven, beq_self_eq_true, if_true, Bool.and_eq_true, decide_eq_true_eq, hle1, hle2, true_or, and_true]
  · simp only [heven, beq_eq_false_iff_ne.mpr heven, Bool.false_eq_true, if_false, Bool.and_eq_true,
      decide_eq_true_eq, hlt1, hlt2, false_or]
    constructor
    · intro h
      exact ⟨h.1.le, h.2.le, h⟩
    · intro h
      exact h.2.2

/-! ### One grid -/

theorem quotient_on_grid {num den : Nat} {x step factor : ℚ} (hden : 0 < den) (hfactor : 0 < factor)
    (hnum : (num : ℚ) = x * factor) (hstep : (den : ℚ) = step * factor) :
    (num / den : Nat) * step ≤ x ∧ x < (num / den + 1 : Nat) * step ∧
      (2 * (num % den) < den ↔ 2 * (x - (num / den : Nat) * step) < step) := by
  have hsum : (den : ℚ) * (num / den : Nat) + (num % den : Nat) = num := by exact_mod_cast Nat.div_add_mod num den
  have hrest : ((num % den : Nat) : ℚ) < den := by exact_mod_cast Nat.mod_lt num hden
  have hnonneg : (0 : ℚ) ≤ (num % den : Nat) := by positivity
  have hover : (x - (num / den : Nat) * step) * factor = (num % den : Nat) := by
    rw [hstep, hnum] at hsum
    linarith
  refine ⟨?_, ?_, ?_⟩
  · have hpos : 0 ≤ x - (num / den : Nat) * step := nonneg_of_mul_nonneg_left (hover ▸ hnonneg) hfactor
    linarith
  · rw [← hover, hstep, mul_lt_mul_iff_left₀ hfactor] at hrest
    push_cast
    linarith
  · rw [← Nat.cast_lt (α := ℚ)]
    push_cast
    rw [← hover, hstep, ← mul_assoc, mul_lt_mul_iff_left₀ hfactor]

/-- The best decimal of a grid: it is read as the number, and none of the grid that is read as it is nearer. -/
structure IsBest (mantissa : Nat) (exponent grid : Int) (digits : Nat) : Prop where
  roundsTo : RoundsTo mantissa exponent (digits * 10 ^ grid)
  nearer : ∀ other : Nat, RoundsTo mantissa exponent (other * 10 ^ grid) →
    Nearer (size mantissa exponent) (digits * 10 ^ grid) (other * 10 ^ grid)

/-- What is read as the number is not nearer than one of the two neighbours of the number on the grid. -/
theorem neighbour_of_roundsTo {down : Nat} {grid : Int} (hdown : down * 10 ^ grid ≤ size mantissa exponent)
    (hup : size mantissa exponent < (down + 1 : Nat) * 10 ^ grid) {other : Nat}
    (h : RoundsTo mantissa exponent (other * 10 ^ grid)) :
    RoundsTo mantissa exponent (down * 10 ^ grid) ∧
        Nearer (size mantissa exponent) (down * 10 ^ grid) (other * 10 ^ grid) ∨
      RoundsTo mantissa exponent ((down + 1 : Nat) * 10 ^ grid) ∧
        Nearer (size mantissa exponent) ((down + 1 : Nat) * 10 ^ grid) (other * 10 ^ grid) := by
  have hself := roundsTo_size mantissa exponent
  by_cases hother : other ≤ down
  · have hle : (other : ℚ) * 10 ^ grid ≤ down * 10 ^ grid := by gcongr
    exact Or.inl ⟨h.convex hself hle hdown, .of_le_of_le hle hdown⟩
  · have hle : ((down + 1 : Nat) : ℚ) * 10 ^ grid ≤ other * 10 ^ grid := by
      gcongr
      omega
    exact Or.inr ⟨hself.convex h hup.le hle, .of_ge_of_ge hup.le hle⟩

section Neighbours

variable {down : Nat} {grid : Int} (hdown : down * 10 ^ grid ≤ size mantissa exponent)
  (hup : size mantissa exponent < (down + 1 : Nat) * 10 ^ grid)

include hdown hup

theorem isBest_down (hread : RoundsTo mantissa exponent (down * 10 ^ grid))
    (hnearer : RoundsTo mantissa exponent ((down + 1 : Nat) * 10 ^ grid) →
      Nearer (size mantissa exponent) (down * 10 ^ grid) ((down + 1 : Nat) * 10 ^ grid)) :
    IsBest mantissa exponent grid down := by
  refine ⟨hread, fun other h => ?_⟩
  rcases neighbour_of_roundsTo hdown hup h with ⟨-, hother⟩ | ⟨hread', hother⟩
  · exact hother
  · exact (hnearer hread').trans hother

theorem isBest_up (hread : RoundsTo mantissa exponent ((down + 1 : Nat) * 10 ^ grid))
    (hnearer : RoundsTo mantissa exponent (down * 10 ^ grid) →
      Nearer (size mantissa exponent) ((down + 1 : Nat) * 10 ^ grid) (down * 10 ^ grid)) :
    IsBest mantissa exponent grid (down + 1) := by
  refine ⟨hread, fun other h => ?_⟩
  rcases neighbour_of_roundsTo hdown hup h with ⟨hread', hother⟩ | ⟨-, hother⟩
  · exact (hnearer hread').trans hother
  · exact hother

end Neighbours

/-- The neighbours of the number on a grid, by the division that the search makes. -/
theorem interval_on_grid (mantissa : Nat) (exponent grid : Int) {num den : Nat}
    (hnum : (interval mantissa exponent).value * Nat.pow 10 (-grid).toNat = num)
    (hden : (interval mantissa exponent).denominator * Nat.pow 10 grid.toNat = den) :
    (num / den : Nat) * 10 ^ grid ≤ size mantissa exponent ∧
      size mantissa exponent < (num / den + 1 : Nat) * 10 ^ grid ∧
      (2 * (num % den) < den ↔ 2 * (size mantissa exponent - (num / den : Nat) * 10 ^ grid) < 10 ^ grid) := by
  subst hnum hden
  have hfactor : 0 < wholeFactor exponent grid / 2 ^ exponent := div_pos (wholeFactor_pos exponent grid) (by positivity)
  refine quotient_on_grid ?_ hfactor ?_ ?_
  · exact Nat.mul_pos (Nat.pow_pos (by decide)) (Nat.pow_pos (by decide))
  · rw [interval, cast_quarters, size]
    push_cast
    field_simp
  · have hone := cast_decimal 1 exponent grid
    rw [one_mul, mul_comm] at hone
    rw [interval, hone]
    push_cast
    ring

/-- The search on a grid finds its best decimal, if there is one that is read as the number. Only the two
neighbours of the number on the grid come into question. -/
theorem onGrid_interval (hmantissa : mantissa ≠ 0) (exponent grid : Int) :
    match (interval mantissa exponent).onGrid grid with
    | none => ∀ other : Nat, ¬ RoundsTo mantissa exponent (other * 10 ^ grid)
    | some digits => IsBest mantissa exponent grid digits := by
  rw [Interval.onGrid]
  generalize hnum : (interval mantissa exponent).value * Nat.pow 10 (-grid).toNat = num
  generalize hden : (interval mantissa exponent).denominator * Nat.pow 10 grid.toNat = den
  obtain ⟨hdown, hup, hhalf⟩ := interval_on_grid mantissa exponent grid hnum hden
  have hd := contains_interval_iff hmantissa exponent (num / den) grid
  have hu := contains_interval_iff hmantissa exponent (num / den + 1) grid
  cases hdcase : (interval mantissa exponent).contains (num / den) grid <;>
    cases hucase : (interval mantissa exponent).contains (num / den + 1) grid <;>
    simp only [hdcase, hucase, Bool.false_eq_true, false_iff, true_iff] at hd hu ⊢
  · intro other h
    rcases neighbour_of_roundsTo hdown hup h with ⟨hread, -⟩ | ⟨hread, -⟩
    · exact hd hread
    · exact hu hread
  · exact isBest_up hdown hup hu fun h => absurd h hd
  · exact isBest_down hdown hup hd fun h => absurd h hu
  · split_ifs with hless
    · refine isBest_down hdown hup hd fun _ => .below_of_lt hdown ?_
      push_cast
      linarith [hhalf.mp hless]
    · have hle := not_lt.mp fun h => hless (hhalf.mpr h)
      refine isBest_up hdown hup hu fun _ => .above_of_le hdown hup.le ?_
      push_cast
      linarith

/-! ### All grids -/

theorem leadingExponent_bounds {num den : Nat} (hnum : 0 < num) (hden : 0 < den) :
    (10 : ℚ) ^ leadingExponent num den ≤ num / den ∧ (num : ℚ) / den < 10 ^ (leadingExponent num den + 1) := by
  have hnumpos : (0 : ℚ) < num := by exact_mod_cast hnum
  have hdenpos : (0 : ℚ) < den := by exact_mod_cast hden
  rw [leadingExponent]
  split_ifs with h
  · have hquotient : num / den ≠ 0 := (Nat.div_pos h hden).ne'
    have hlow := zpow_digitCount_le_cast hquotient
    have hhigh := digitCount_le_iff.mp (le_refl (digitCount (num / den)))
    constructor
    · exact hlow.trans Nat.cast_div_le
    · rw [sub_add_cancel, div_lt_iff₀ hdenpos, zpow_natCast]
      exact_mod_cast (Nat.div_lt_iff_lt_mul hden).mp hhigh
  · have hceil : (den + num - 1) / num - 1 = (den - 1) / num := by
      rw [show den + num - 1 = den - 1 + num by omega, Nat.add_div_right _ hnum, Nat.add_sub_cancel]
    have hquotient : (den - 1) / num ≠ 0 := (Nat.div_pos (by omega) hnum).ne'
    have hlow := zpow_digitCount_le_cast hquotient
    have hhigh := digitCount_le_iff.mp (le_refl (digitCount ((den - 1) / num)))
    rw [hceil]
    constructor
    · have hle : den ≤ 10 ^ digitCount ((den - 1) / num) * num := by
        have := (Nat.div_lt_iff_lt_mul hnum).mp hhigh
        omega
      rw [zpow_neg, inv_le_comm₀ (by positivity) (by positivity), inv_div, div_le_iff₀ hnumpos, zpow_natCast]
      exact_mod_cast hle
    · have hlt : (den - 1) / num * num < den := by
        have := Nat.div_mul_le_self (den - 1) num
        omega
      have hlt' : (((den - 1) / num : Nat) : ℚ) * num < den := by exact_mod_cast hlt
      rw [show -(digitCount ((den - 1) / num) : Int) + 1 = -((digitCount ((den - 1) / num) : Int) - 1) by ring,
        zpow_neg, lt_inv_comm₀ (by positivity) (by positivity), inv_div, lt_div_iff₀ hnumpos]
      calc (10 : ℚ) ^ ((digitCount ((den - 1) / num) : Int) - 1) * num ≤ ((den - 1) / num : Nat) * num := by gcongr
        _ < den := hlt'

theorem roundsTo_of_lt {q : ℚ} (hlow : size mantissa exponent - roomBelow mantissa exponent * 2 ^ exponent < q)
    (hhigh : q < size mantissa exponent + 1 / 2 * 2 ^ exponent) : RoundsTo mantissa exponent q := by
  have hlow' : (mantissa : ℚ) - roomBelow mantissa exponent < q / 2 ^ exponent := by
    rw [lt_div_iff₀ (by positivity), sub_mul]
    exact hlow
  have hhigh' : q / 2 ^ exponent < mantissa + 1 / 2 := by
    rw [div_lt_iff₀ (by positivity), add_mul]
    exact hhigh
  exact ⟨hlow'.le, hhigh'.le, Or.inr ⟨hlow', hhigh'⟩⟩

/-- Seventeen digits are enough for a decimal that is read as the number, since their grid is finer than the range
of what is read as it. -/
theorem exists_roundsTo_grid (hnormal : IsNormal mantissa exponent) {leading : Int}
    (hleading : 10 ^ leading ≤ size mantissa exponent) :
    ∃ digits : Nat, RoundsTo mantissa exponent (digits * 10 ^ (leading - 16)) := by
  have hunit : (0 : ℚ) < 2 ^ exponent := by positivity
  have hstep : (0 : ℚ) < 10 ^ (leading - 16) := by positivity
  have hroom := roomBelow_pos mantissa exponent
  have hfine : (10 : ℚ) ^ (leading - 16) < (roomBelow mantissa exponent + 1 / 2) * 2 ^ exponent := by
    have hle : (10 : ℚ) ^ (leading - 16) * 10 ^ (16 : Int) ≤ mantissa * 2 ^ exponent := by
      rw [← zpow_add₀ (by norm_num), sub_add_cancel]
      exact hleading
    rw [roomBelow]
    split_ifs with hpower
    · rw [hpower.1] at hle
      norm_num [leastNormal] at hle ⊢
      linarith
    · have hcast := hnormal.cast_le
      norm_num [leastNormal] at hle hcast ⊢
      nlinarith
  generalize (10 : ℚ) ^ (leading - 16) = step at *
  have hpos : 0 ≤ size mantissa exponent / step := by
    rw [size]
    positivity
  have hdown : (⌊size mantissa exponent / step⌋₊ : ℚ) * step ≤ size mantissa exponent :=
    (le_div_iff₀ hstep).mp (Nat.floor_le hpos)
  have hup : size mantissa exponent < (⌊size mantissa exponent / step⌋₊ + 1 : Nat) * step := by
    rw [← div_lt_iff₀ hstep]
    exact_mod_cast Nat.lt_floor_add_one (size mantissa exponent / step)
  by_cases hnear : size mantissa exponent - roomBelow mantissa exponent * 2 ^ exponent <
      ⌊size mantissa exponent / step⌋₊ * step
  · exact ⟨_, roundsTo_of_lt hnear (by linarith)⟩
  · refine ⟨_, roundsTo_of_lt (lt_of_lt_of_le ?_ hup.le) ?_⟩
    · have : 0 < roomBelow mantissa exponent * 2 ^ exponent := by positivity
      linarith
    · push_cast
      linarith

theorem findSome?_range_eq_some {β : Type} {f : Nat → Option β} {n : Nat} {b : β}
    (h : (List.range n).findSome? f = some b) : ∃ k < n, f k = some b ∧ ∀ j < k, f j = none := by
  induction n with
  | zero => simp at h
  | succ n ih =>
      rw [List.range_succ, List.findSome?_append, Option.or_eq_some_iff] at h
      rcases h with h | ⟨hnone, h⟩
      · obtain ⟨k, hk, hfirst⟩ := ih h
        exact ⟨k, by omega, hfirst⟩
      · refine ⟨n, by omega, by simpa using h, fun j hj => ?_⟩
        exact List.findSome?_eq_none_iff.mp hnone j (List.mem_range.mpr hj)

/-! ### Significant digits -/

/-- The number of digits without the zeros at the end, none for zero. -/
def significant (n : Nat) : Nat := ((Nat.toDigits 10 n).rdropWhile (· = '0')).length

theorem significant_ten_mul (n : Nat) : significant (10 * n) = significant n := by
  by_cases hn : n = 0
  · rw [hn]
  · have hdigits := Nat.toDigits_append_toDigits (b := 10) (by decide) (Nat.pos_of_ne_zero hn) (show 0 < 10 by decide)
    rw [significant, ← Nat.add_zero (10 * n), ← hdigits, Nat.toDigits_zero,
      List.rdropWhile_concat_pos _ _ _ (by decide), significant]

theorem significant_mul_pow (n k : Nat) : significant (n * 10 ^ k) = significant n := by
  induction k with
  | zero => rw [pow_zero, mul_one]
  | succ k ih => rw [pow_succ, ← mul_assoc, mul_comm, significant_ten_mul, ih]

theorem significant_of_mod_ne {n : Nat} (hn : n % 10 ≠ 0) : significant n = digitCount n := by
  obtain ⟨front, hfront⟩ := Decimal.exists_toDigits_concat n
  have hne := Decimal.digitChar_ne_zero (n % 10) (Nat.mod_lt n (by decide)) hn
  rw [significant, digitCount, if_neg (by omega), hfront, List.rdropWhile_concat_neg _ _ _ (by simpa using hne)]

theorem digitCount_eq_one {n : Nat} (hn : n ≠ 0) (hless : n < 10) : digitCount n = 1 := by
  have hle : digitCount n ≤ 1 := digitCount_le_iff.mpr (by simpa using hless)
  have hpos := digitCount_pos hn
  omega

/-- A decimal without zeros at its end. -/
theorem exists_stripped {digits : Nat} (hdigits : digits ≠ 0) (grid : Int) :
    ∃ (stripped : Nat) (grid' : Int), stripped % 10 ≠ 0 ∧ significant digits = digitCount stripped ∧
      (digits : ℚ) * 10 ^ grid = stripped * 10 ^ grid' := by
  obtain ⟨zeros, stripped, hstripped, rfl⟩ := Nat.exists_eq_pow_mul_and_not_dvd hdigits 10 (by decide)
  have hmod : stripped % 10 ≠ 0 := fun h => hstripped (Nat.dvd_of_mod_eq_zero h)
  refine ⟨stripped, grid + zeros, hmod, ?_, ?_⟩
  · rw [mul_comm, significant_mul_pow, significant_of_mod_ne hmod]
  · rw [zpow_add₀ (by norm_num)]
    push_cast
    rw [zpow_natCast]
    ring

theorem digitCount_eq_of_bounds {digits : Nat} {grid leading : Int} (hlow : (10 : ℚ) ^ leading ≤ digits * 10 ^ grid)
    (hhigh : (digits : ℚ) * 10 ^ grid < 10 ^ (leading + 1)) : (digitCount digits : Int) = leading - grid + 1 := by
  have hdigits : digits ≠ 0 := by
    rintro rfl
    have : (0 : ℚ) < 10 ^ leading := by positivity
    simp at hlow
    linarith
  have hcount1 := zpow_digitCount_le_cast hdigits
  have hcount2 := cast_lt_zpow_digitCount digits
  have h1 : (10 : ℚ) ^ leading < 10 ^ ((digitCount digits : Int) + grid) := by
    rw [zpow_add₀ (by norm_num)]
    exact hlow.trans_lt (by gcongr)
  have h2 : (10 : ℚ) ^ ((digitCount digits : Int) - 1 + grid) < 10 ^ (leading + 1) := by
    rw [zpow_add₀ (by norm_num)]
    exact lt_of_le_of_lt (by gcongr) hhigh
  have h1' := (zpow_lt_zpow_iff_right₀ (by norm_num)).mp h1
  have h2' := (zpow_lt_zpow_iff_right₀ (by norm_num)).mp h2
  omega

/-- One decimal comes before another as the text of `x`: it has fewer significant digits, or as many and it is
nearer. -/
def Precedes (x : ℚ) (digits : Nat) (grid : Int) (digits' : Nat) (grid' : Int) : Prop :=
  significant digits < significant digits' ∨
    significant digits = significant digits' ∧ Nearer x (digits * 10 ^ grid) (digits' * 10 ^ grid')

/-! ### The shortest decimal -/

theorem ten_mul_zpow (grid : Int) : ((10 : Nat) : ℚ) * 10 ^ grid = 10 ^ (grid + 1) := by
  rw [zpow_add_one₀ (by norm_num), mul_comm]
  norm_num

section Found

variable {leading : Int} (hmantissa : mantissa ≠ 0) (hlow : 10 ^ leading ≤ size mantissa exponent)
  (hhigh : size mantissa exponent < 10 ^ (leading + 1))

include hlow in
/-- What is read as the number and has fewer places before the point brings the power of ten below the number. -/
theorem roundsTo_one_of_lt {q : ℚ} (h : RoundsTo mantissa exponent q) (hq : q < 10 ^ leading) :
    RoundsTo mantissa exponent ((1 : Nat) * 10 ^ leading) := by
  rw [Nat.cast_one, one_mul]
  exact h.convex (roundsTo_size mantissa exponent) hq.le hlow

include hhigh in
theorem roundsTo_ten_of_le {q : ℚ} (h : RoundsTo mantissa exponent q) (hq : 10 ^ (leading + 1) ≤ q) :
    RoundsTo mantissa exponent ((10 : Nat) * 10 ^ leading) := by
  rw [ten_mul_zpow]
  exact (roundsTo_size mantissa exponent).convex h hhigh.le hq

include hmantissa in
theorem digits_ne_zero_of_roundsTo {digits : Nat} {grid : Int} (h : RoundsTo mantissa exponent (digits * 10 ^ grid)) :
    digits ≠ 0 := by
  rintro rfl
  simpa using h.pos hmantissa

include hmantissa hlow hhigh in
/-- On the coarsest grid one digit is enough. -/
theorem IsBest.precedes_of_leading {found digits : Nat} {grid : Int} (hbest : IsBest mantissa exponent leading found)
    (hvalue : (digits : ℚ) * 10 ^ grid = found * 10 ^ leading) (hone : significant digits = 1) (digits' : Nat)
    (grid' : Int) (h : RoundsTo mantissa exponent (digits' * 10 ^ grid')) :
    Precedes (size mantissa exponent) digits grid digits' grid' := by
  obtain ⟨stripped, place, hmod, hcount, hstripped⟩ := exists_stripped (digits_ne_zero_of_roundsTo hmantissa h) grid'
  have hnonzero : stripped ≠ 0 := by omega
  rw [Precedes, hvalue, hstripped, hone, hcount]
  rw [hstripped] at h
  by_cases hmore : 1 < digitCount stripped
  · exact Or.inl hmore
  have hsmall : stripped < 10 := by simpa using digitCount_le_iff.mp (Nat.le_of_not_lt hmore)
  refine Or.inr ⟨(digitCount_eq_one hnonzero hsmall).symm, ?_⟩
  rcases lt_trichotomy place leading with hless | rfl | hgreater
  · have hq : (stripped : ℚ) * 10 ^ place < 10 ^ leading := by
      calc (stripped : ℚ) * 10 ^ place < 10 * 10 ^ place := by
            gcongr
            exact_mod_cast hsmall
        _ = 10 ^ (place + 1) := by rw [zpow_add_one₀ (by norm_num), mul_comm]
        _ ≤ 10 ^ leading := zpow_le_zpow_right₀ (by norm_num) (by omega)
    refine (hbest.nearer 1 (roundsTo_one_of_lt hlow h hq)).trans (.of_le_of_le ?_ ?_)
    · rw [Nat.cast_one, one_mul]
      exact hq.le
    · rw [Nat.cast_one, one_mul]
      exact hlow
  · exact hbest.nearer stripped h
  · have hq : (10 : ℚ) ^ (leading + 1) ≤ stripped * 10 ^ place := by
      calc (10 : ℚ) ^ (leading + 1) ≤ 10 ^ place := zpow_le_zpow_right₀ (by norm_num) (by omega)
        _ ≤ stripped * 10 ^ place := by
            apply le_mul_of_one_le_left (by positivity)
            exact_mod_cast Nat.pos_of_ne_zero hnonzero
    refine (hbest.nearer 10 (roundsTo_ten_of_le hhigh h hq)).trans (.of_ge_of_ge ?_ ?_)
    · rw [ten_mul_zpow]
      exact hhigh.le
    · rw [ten_mul_zpow]
      exact hq

include hlow hhigh in
/-- Where no decimal of one digit is read as the number, all that are read as it have as many places before the
point. -/
theorem bounds_of_roundsTo (hnone : ∀ other : Nat, ¬ RoundsTo mantissa exponent (other * 10 ^ leading)) {q : ℚ}
    (h : RoundsTo mantissa exponent q) : 10 ^ leading ≤ q ∧ q < 10 ^ (leading + 1) := by
  constructor
  · by_contra hq
    exact hnone 1 (roundsTo_one_of_lt hlow h (not_le.mp hq))
  · by_contra hq
    exact hnone 10 (roundsTo_ten_of_le hhigh h (not_lt.mp hq))

/-- What no coarser grid has does not end in a zero. -/
theorem IsBest.mod_ne {found more : Nat} (hbest : IsBest mantissa exponent (leading - (more + 1 : Nat)) found)
    (hfirst : ∀ other : Nat, ¬ RoundsTo mantissa exponent (other * 10 ^ (leading - more))) : found % 10 ≠ 0 := by
  intro hmod
  obtain ⟨other, rfl⟩ := Nat.dvd_of_mod_eq_zero hmod
  refine hfirst other ?_
  have hvalue : ((10 * other : Nat) : ℚ) * 10 ^ (leading - (more + 1 : Nat)) = other * 10 ^ (leading - more) := by
    rw [show leading - more = leading - (more + 1 : Nat) + 1 by push_cast; ring, ← ten_mul_zpow]
    push_cast
    ring
  rw [← hvalue]
  exact hbest.roundsTo

include hmantissa hlow hhigh in
/-- The first grid that has a decimal has the shortest one, since a coarser grid would have been taken. -/
theorem IsBest.precedes_of_first {found more : Nat}
    (hbest : IsBest mantissa exponent (leading - (more + 1 : Nat)) found)
    (hfirst : ∀ j ≤ more, ∀ other : Nat, ¬ RoundsTo mantissa exponent (other * 10 ^ (leading - j))) (digits' : Nat)
    (grid' : Int) (h : RoundsTo mantissa exponent (digits' * 10 ^ grid')) :
    Precedes (size mantissa exponent) found (leading - (more + 1 : Nat)) digits' grid' := by
  have hnone : ∀ other : Nat, ¬ RoundsTo mantissa exponent (other * 10 ^ leading) := by
    simpa using hfirst 0 (Nat.zero_le more)
  obtain ⟨stripped, place, hmod, hcount, hstripped⟩ := exists_stripped (digits_ne_zero_of_roundsTo hmantissa h) grid'
  rw [hstripped] at h
  rw [Precedes, hstripped, hcount, significant_of_mod_ne (hbest.mod_ne (hfirst more le_rfl))]
  obtain ⟨hfound1, hfound2⟩ := bounds_of_roundsTo hlow hhigh hnone hbest.roundsTo
  obtain ⟨hother1, hother2⟩ := bounds_of_roundsTo hlow hhigh hnone h
  have hcountfound := digitCount_eq_of_bounds hfound1 hfound2
  have hcountother := digitCount_eq_of_bounds hother1 hother2
  rcases lt_trichotomy place (leading - (more + 1 : Nat)) with hless | heq | hgreater
  · exact Or.inl (by omega)
  · subst heq
    exact Or.inr ⟨by omega, hbest.nearer stripped h⟩
  · have hpositive : 0 < digitCount stripped := digitCount_pos (by omega)
    refine absurd h (?_ : ¬ _)
    rw [show place = leading - ((leading - place).toNat : Nat) by omega]
    exact hfirst (leading - place).toNat (by omega) stripped

end Found

theorem interval_value_div (mantissa : Nat) (exponent : Int) :
    ((interval mantissa exponent).value : ℚ) / (interval mantissa exponent).denominator = size mantissa exponent := by
  have htwo := cast_pow_toNat 2 (by decide) (exponent - 2)
  rw [neg_sub, zpow_sub₀ (by norm_num)] at htwo
  simp only [interval, Nat.pow_eq, Nat.cast_mul, htwo, size]
  push_cast
  field_simp

/-- The search takes the first grid that has a decimal, and there is one. -/
theorem shortest_eq (hnormal : IsNormal mantissa exponent) (hmantissa : mantissa ≠ 0) :
    ∃ (leading : Int) (found more : Nat), 10 ^ leading ≤ size mantissa exponent ∧
      size mantissa exponent < 10 ^ (leading + 1) ∧ IsBest mantissa exponent (leading - more) found ∧
      (∀ j < more, ∀ other : Nat, ¬ RoundsTo mantissa exponent (other * 10 ^ (leading - j))) ∧
      shortest mantissa exponent = if found = 10 then (1, leading - more + 1) else (found, leading - more) := by
  have hvalue : 0 < (interval mantissa exponent).value :=
    Nat.mul_pos (by omega) (Nat.pow_pos (by decide))
  have hdenominator : 0 < (interval mantissa exponent).denominator := Nat.pow_pos (by decide)
  obtain ⟨hlow, hhigh⟩ := leadingExponent_bounds hvalue hdenominator
  rw [interval_value_div] at hlow hhigh
  rw [shortest]
  generalize leadingExponent (interval mantissa exponent).value (interval mantissa exponent).denominator = leading at *
  cases hfound : (List.range 17).findSome? fun more : Nat =>
      ((interval mantissa exponent).onGrid (leading - more)).map fun digits => (digits, leading - more) with
  | none =>
      obtain ⟨digits, hdigits⟩ := exists_roundsTo_grid hnormal hlow
      have hnone := List.findSome?_eq_none_iff.mp hfound 16 (by decide)
      have hgrid := onGrid_interval hmantissa exponent (leading - (16 : Nat))
      rw [Option.map_eq_none_iff.mp hnone] at hgrid
      exact absurd hdigits (hgrid digits)
  | some decimal =>
      obtain ⟨more, -, hmore, hfirst⟩ := findSome?_range_eq_some hfound
      obtain ⟨found, hgrid, rfl⟩ := Option.map_eq_some_iff.mp hmore
      refine ⟨leading, found, more, hlow, hhigh, ?_, fun j hj => ?_, ?_⟩
      · have hbest := onGrid_interval hmantissa exponent (leading - more)
        rwa [hgrid] at hbest
      · have hnone := onGrid_interval hmantissa exponent (leading - j)
        rwa [Option.map_eq_none_iff.mp (hfirst j hj)] at hnone
      · split_ifs with hten
        · subst hten
          rfl
        · split
          · rename_i heq
            cases heq
            exact absurd rfl hten
          · rename_i heq
            cases heq
            rfl
          · rename_i heq
            cases heq

/-- The shortest decimal does not end in a zero, it is read as the number, and it comes before all others that are. -/
theorem shortest_precedes (hnormal : IsNormal mantissa exponent) (hmantissa : mantissa ≠ 0) {digits : Nat} {grid : Int}
    (hshortest : shortest mantissa exponent = (digits, grid)) :
    digits % 10 ≠ 0 ∧ RoundsTo mantissa exponent (digits * 10 ^ grid) ∧
      ∀ (digits' : Nat) (grid' : Int), RoundsTo mantissa exponent (digits' * 10 ^ grid') →
        Precedes (size mantissa exponent) digits grid digits' grid' := by
  obtain ⟨leading, found, more, hlow, hhigh, hbest, hfirst, heq⟩ := shortest_eq hnormal hmantissa
  rw [heq] at hshortest
  cases more with
  | zero =>
      rw [Nat.cast_zero, sub_zero] at hbest hshortest
      have hpos := digits_ne_zero_of_roundsTo hmantissa hbest.roundsTo
      split_ifs at hshortest with hten
      · cases hshortest
        have hvalue : ((1 : Nat) : ℚ) * 10 ^ (leading + 1) = found * 10 ^ leading := by
          rw [hten, ten_mul_zpow, Nat.cast_one, one_mul]
        refine ⟨by decide, ?_, hbest.precedes_of_leading hmantissa hlow hhigh hvalue (by decide)⟩
        rw [hvalue]
        exact hbest.roundsTo
      · obtain ⟨rfl, rfl⟩ := Prod.mk.inj hshortest
        have hless : found < 10 := by
          by_contra hmany
          have hle : ((10 : Nat) : ℚ) * 10 ^ leading ≤ found * 10 ^ leading := by
            gcongr
            omega
          have hten' : RoundsTo mantissa exponent ((10 : Nat) * 10 ^ leading) := by
            apply roundsTo_ten_of_le hhigh hbest.roundsTo
            rwa [← ten_mul_zpow]
          have hsame := (hbest.nearer 10 hten').antisymm (.of_ge_of_ge (by rw [ten_mul_zpow]; exact hhigh.le) hle)
          have hcancel := mul_right_cancel₀ (by positivity) hsame
          exact hten (by exact_mod_cast hcancel)
        have hmod : found % 10 ≠ 0 := by omega
        have hone : significant found = 1 := by
          rw [significant_of_mod_ne hmod, digitCount_eq_one hpos hless]
        exact ⟨hmod, hbest.roundsTo, hbest.precedes_of_leading hmantissa hlow hhigh rfl hone⟩
  | succ more =>
      have hmod := hbest.mod_ne (hfirst more (Nat.lt_succ_self more))
      rw [if_neg (by rintro rfl; exact hmod rfl)] at hshortest
      cases hshortest
      exact ⟨hmod, hbest.roundsTo,
        hbest.precedes_of_first hmantissa hlow hhigh fun j hj => hfirst j (Nat.lt_succ_of_le hj)⟩

end Double

end TreeWalk
