import Mathlib
import TreeWalk.Decimal

/-!
Reading decimals as floating-point numbers. Measured in units of its last place, what is read as m · 2^e lies
around m: up to one half above it, and down to one half below it, or to one quarter at a power of two, whose
neighbour below is nearer. The ends belong to it if m is even. What is read depends on the exact number alone and
not on the digits and the exponent that write it.
-/

namespace TreeWalk

/-- A number between two ends, which count as well if `closed`. -/
def Between (closed : Prop) (low high q : ℚ) : Prop :=
  low ≤ q ∧ q ≤ high ∧ (closed ∨ low < q ∧ q < high)

theorem Between.mono {closed : Prop} {low high low' high' q : ℚ} (h : Between closed low high q) (hlow : low' ≤ low)
    (hhigh : high ≤ high') : Between closed low' high' q := by
  obtain ⟨hl, hh, hc⟩ := h
  exact ⟨by linarith, by linarith, hc.imp_right fun ⟨hl, hh⟩ => ⟨by linarith, by linarith⟩⟩

theorem between_half_iff {num den k : Nat} (hden : 0 < den) :
    Between (k % 2 = 0) (k - 1 / 2) (k + 1 / 2) (num / den) ↔
      2 * (k * den) ≤ 2 * num + den ∧ 2 * num ≤ 2 * (k * den) + den ∧
        (k % 2 = 0 ∨ 2 * (k * den) < 2 * num + den ∧ 2 * num < 2 * (k * den) + den) := by
  have hden' : (0 : ℚ) < den := by exact_mod_cast hden
  have hlow : (k : ℚ) - 1 / 2 ≤ num / den ↔ 2 * (k * den) ≤ 2 * num + den := by
    rw [le_div_iff₀ hden', ← Nat.cast_le (α := ℚ)]
    push_cast
    constructor <;> intro h <;> linarith
  have hhigh : (num : ℚ) / den ≤ k + 1 / 2 ↔ 2 * num ≤ 2 * (k * den) + den := by
    rw [div_le_iff₀ hden', ← Nat.cast_le (α := ℚ)]
    push_cast
    constructor <;> intro h <;> linarith
  have hlow' : (k : ℚ) - 1 / 2 < num / den ↔ 2 * (k * den) < 2 * num + den := by
    rw [lt_div_iff₀ hden', ← Nat.cast_lt (α := ℚ)]
    push_cast
    constructor <;> intro h <;> linarith
  have hhigh' : (num : ℚ) / den < k + 1 / 2 ↔ 2 * num < 2 * (k * den) + den := by
    rw [div_lt_iff₀ hden', ← Nat.cast_lt (α := ℚ)]
    push_cast
    constructor <;> intro h <;> linarith
  rw [Between, hlow, hhigh, hlow', hhigh']

theorem roundDiv_eq_iff {num den k : Nat} (hden : 0 < den) :
    roundDiv num den = k ↔ Between (k % 2 = 0) (k - 1 / 2) (k + 1 / 2) (num / den) := by
  rw [between_half_iff hden, roundDiv]
  have hsum := Nat.div_add_mod' num den
  have hrest := Nat.mod_lt num hden
  generalize num / den = quotient at *
  generalize num % den = rest at *
  have hnext : (quotient + 1) * den = quotient * den + den := Nat.succ_mul quotient den
  constructor
  · intro h
    split at h
    · rename_i hdown
      simp only [Bool.or_eq_true, Bool.and_eq_true, decide_eq_true_eq, beq_iff_eq] at hdown
      subst h
      omega
    · rename_i hup
      simp only [Bool.or_eq_true, Bool.and_eq_true, decide_eq_true_eq, beq_iff_eq] at hup
      subst h
      omega
  · intro h
    have hlow : quotient ≤ k := by
      by_contra hk
      have := Nat.mul_le_mul_right den (show k + 1 ≤ quotient by omega)
      rw [Nat.succ_mul] at this
      omega
    have hhigh : k ≤ quotient + 1 := by
      by_contra hk
      have := Nat.mul_le_mul_right den (show quotient + 2 ≤ k by omega)
      rw [Nat.add_mul] at this
      omega
    obtain rfl | rfl : k = quotient ∨ k = quotient + 1 := by omega
    · rw [if_pos]
      simp only [Bool.or_eq_true, Bool.and_eq_true, decide_eq_true_eq, beq_iff_eq]
      omega
    · rw [if_neg]
      simp only [Bool.or_eq_true, Bool.and_eq_true, decide_eq_true_eq, beq_iff_eq]
      omega

namespace Double

/-- The mantissa and the exponent that a finite number has. -/
structure IsNormal (mantissa : Nat) (exponent : Int) : Prop where
  mantissa_lt : mantissa < 2 * leastNormal
  le_exponent : minExponent ≤ exponent
  exponent_le : exponent ≤ maxExponent
  least_or_le : exponent = minExponent ∨ leastNormal ≤ mantissa

/-- How far the numbers that are read as a finite number go below it, in units of its last place. -/
def roomBelow (mantissa : Nat) (exponent : Int) : ℚ :=
  if mantissa = leastNormal ∧ minExponent < exponent then 1 / 4 else 1 / 2

theorem roomBelow_le (mantissa : Nat) (exponent : Int) : roomBelow mantissa exponent ≤ 1 / 2 := by
  rw [roomBelow]
  split_ifs <;> norm_num

theorem roomBelow_pos (mantissa : Nat) (exponent : Int) : 0 < roomBelow mantissa exponent := by
  rw [roomBelow]
  split_ifs <;> norm_num

/-- The numbers that are read as a finite number. -/
def RoundsTo (mantissa : Nat) (exponent : Int) (q : ℚ) : Prop :=
  Between (mantissa % 2 = 0) (mantissa - roomBelow mantissa exponent) (mantissa + 1 / 2) (q / 2 ^ exponent)

/-- The exponent at which a number is rounded: the least one at which the mantissa is not too large. -/
structure IsScale (q : ℚ) (exponent : Int) : Prop where
  le_exponent : minExponent ≤ exponent
  lt : q / 2 ^ exponent < 2 * leastNormal
  least_or_le : exponent = minExponent ∨ leastNormal ≤ q / 2 ^ exponent

theorem leastNormal_eq_zpow : (leastNormal : ℚ) = 2 ^ (52 : Int) := by
  norm_num [leastNormal]

theorem div_zpow_add (q : ℚ) (exponent more : Int) : q / 2 ^ (exponent + more) = q / 2 ^ exponent / 2 ^ more := by
  rw [zpow_add₀ two_ne_zero, div_div]

/-! ### Quotients -/

theorem scaled_pos (num : Nat) {den : Nat} (hden : 0 < den) (exponent : Int) : 0 < (scaled num den exponent).2 := by
  rw [scaled]
  split_ifs
  · exact Nat.mul_pos hden (Nat.pow_pos (by decide))
  · exact hden

theorem scaled_div (num den : Nat) (exponent : Int) :
    ((scaled num den exponent).1 : ℚ) / (scaled num den exponent).2 = num / den / 2 ^ exponent := by
  rw [scaled]
  split_ifs with h
  · obtain ⟨n, rfl⟩ := Int.eq_ofNat_of_zero_le h
    simp [div_div]
  · obtain ⟨n, rfl⟩ : ∃ n : Nat, exponent = -n := ⟨(-exponent).toNat, by omega⟩
    simp
    ring

theorem two_zpow_log2_le {n : Nat} (hn : 0 < n) :
    (2 : ℚ) ^ (n.log2 : Int) ≤ n ∧ (n : ℚ) < 2 ^ ((n.log2 : Int) + 1) := by
  constructor
  · exact_mod_cast Nat.log2_self_le hn.ne'
  · exact_mod_cast Nat.lt_log2_self

/-- A quotient lies within a factor of two of the quotient of the two powers. -/
theorem zpow_log2_sub_bounds {num den : Nat} (hnum : 0 < num) (hden : 0 < den) :
    (2 : ℚ) ^ ((num.log2 : Int) - den.log2 - 1) < num / den ∧
      (num : ℚ) / den < 2 ^ ((num.log2 : Int) - den.log2 + 1) := by
  obtain ⟨hnum1, hnum2⟩ := two_zpow_log2_le hnum
  obtain ⟨hden1, hden2⟩ := two_zpow_log2_le hden
  have hdenpos : (0 : ℚ) < den := by exact_mod_cast hden
  constructor
  · rw [lt_div_iff₀ hdenpos]
    calc (2 : ℚ) ^ ((num.log2 : Int) - den.log2 - 1) * den
        < 2 ^ ((num.log2 : Int) - den.log2 - 1) * 2 ^ ((den.log2 : Int) + 1) := by gcongr
      _ = 2 ^ (num.log2 : Int) := by
        rw [← zpow_add₀ two_ne_zero]
        congr 1
        omega
      _ ≤ num := hnum1
  · rw [div_lt_iff₀ hdenpos]
    calc (num : ℚ) < 2 ^ ((num.log2 : Int) + 1) := hnum2
      _ = 2 ^ ((num.log2 : Int) - den.log2 + 1) * 2 ^ (den.log2 : Int) := by
        rw [← zpow_add₀ two_ne_zero]
        congr 1
        omega
      _ ≤ 2 ^ ((num.log2 : Int) - den.log2 + 1) * den := by gcongr

theorem scaled_lt_iff (num : Nat) {den : Nat} (hden : 0 < den) (exponent : Int) :
    (scaled num den exponent).1 < (scaled num den exponent).2 * leastNormal ↔
      (num : ℚ) / den / 2 ^ exponent < leastNormal := by
  have hpos : (0 : ℚ) < (scaled num den exponent).2 := by exact_mod_cast scaled_pos num hden exponent
  rw [← scaled_div, div_lt_iff₀ hpos, mul_comm]
  exact_mod_cast Iff.rfl

theorem isScale_roundingExponent {num den : Nat} (hnum : 0 < num) (hden : 0 < den) :
    IsScale (num / den) (roundingExponent num den) := by
  obtain ⟨hbelow, habove⟩ := zpow_log2_sub_bounds hnum hden
  simp only [roundingExponent, Bool.and_eq_true, decide_eq_true_eq, scaled_lt_iff num hden]
  generalize hguess : max ((num.log2 : Int) - den.log2 - 52) minExponent = guess
  split_ifs with h
  · refine ⟨by omega, ?_, Or.inr ?_⟩
    · rw [sub_eq_add_neg, div_zpow_add]
      norm_num
      linarith [h.1]
    · rw [leastNormal_eq_zpow, le_div_iff₀ (by positivity), ← zpow_add₀ two_ne_zero]
      convert hbelow.le using 2
      omega
  · refine ⟨by omega, ?_, ?_⟩
    · rw [div_lt_iff₀ (by positivity)]
      calc (num : ℚ) / den < 2 ^ ((num.log2 : Int) - den.log2 + 1) := habove
        _ ≤ 2 ^ (53 + guess) := zpow_le_zpow_right₀ one_le_two (by omega)
        _ = 2 * leastNormal * 2 ^ guess := by
          rw [zpow_add₀ two_ne_zero]
          norm_num [leastNormal]
    · by_cases hleast : guess = minExponent
      · exact Or.inl hleast
      · right
        by_contra hlt
        exact h ⟨lt_of_not_ge hlt, by omega⟩

theorem ofRounded_of_lt {negative : Bool} {mantissa : Nat} {exponent : Int} (h : mantissa ≠ 2 * leastNormal)
    (hexponent : exponent ≤ maxExponent) :
    ofRounded negative mantissa exponent = finite negative mantissa exponent := by
  simp [ofRounded, h, not_lt.mpr hexponent]

theorem ofRounded_carry {negative : Bool} {exponent : Int} (hexponent : exponent + 1 ≤ maxExponent) :
    ofRounded negative (2 * leastNormal) exponent = finite negative leastNormal (exponent + 1) := by
  simp [ofRounded, not_lt.mpr hexponent]

theorem ofRounded_eq_finite {negative negative' : Bool} {m mantissa : Nat} {e exponent : Int}
    (h : ofRounded negative m e = finite negative' mantissa exponent) :
    negative' = negative ∧ exponent ≤ maxExponent ∧
      (m = 2 * leastNormal ∧ mantissa = leastNormal ∧ exponent = e + 1 ∨
        m ≠ 2 * leastNormal ∧ mantissa = m ∧ exponent = e) := by
  simp only [ofRounded] at h
  by_cases hm : m = 2 * leastNormal
  · simp only [if_pos hm] at h
    split_ifs at h with hmax
    cases h
    exact ⟨rfl, not_lt.mp hmax, Or.inl ⟨hm, rfl, rfl⟩⟩
  · simp only [if_neg hm] at h
    split_ifs at h with hmax
    cases h
    exact ⟨rfl, not_lt.mp hmax, Or.inr ⟨hm, rfl, rfl⟩⟩

theorem RoundsTo.bounds {mantissa : Nat} {exponent : Int} {q : ℚ} (h : RoundsTo mantissa exponent q) :
    (mantissa : ℚ) - 1 / 2 ≤ q / 2 ^ exponent ∧ q / 2 ^ exponent ≤ mantissa + 1 / 2 :=
  ⟨by linarith [h.1, roomBelow_le mantissa exponent], h.2.1⟩

theorem IsNormal.cast_le {mantissa : Nat} {exponent : Int} (h : IsNormal mantissa exponent) :
    (mantissa : ℚ) + 1 ≤ 2 * leastNormal := by
  exact_mod_cast h.mantissa_lt

/-- A number is read as the finite one that it is rounded to. If the mantissa was carried, the number lies right
below a power of two. -/
theorem roundsTo_of_ofRounded {negative negative' : Bool} {m mantissa : Nat} {e exponent : Int} {q : ℚ}
    (hscale : IsScale q e) (hround : Between (m % 2 = 0) (m - 1 / 2) (m + 1 / 2) (q / 2 ^ e))
    (h : ofRounded negative m e = finite negative' mantissa exponent) :
    negative' = negative ∧ IsNormal mantissa exponent ∧ RoundsTo mantissa exponent q := by
  have hlt := hscale.lt
  have hle := hscale.le_exponent
  have hlow := hround.1
  have hhigh := hround.2.1
  obtain ⟨rfl, hmax, ⟨rfl, rfl, rfl⟩ | ⟨hne, rfl, rfl⟩⟩ := ofRounded_eq_finite h
  · refine ⟨rfl, ⟨by decide, by omega, hmax, Or.inr le_rfl⟩, ?_⟩
    have hroom : roomBelow leastNormal (e + 1) = 1 / 4 := if_pos ⟨rfl, by omega⟩
    push_cast at hlow
    rw [RoundsTo, hroom, div_zpow_add, zpow_one]
    exact ⟨by linarith, by linarith, Or.inl (by decide)⟩
  · have hmantissa : mantissa < 2 * leastNormal := by
      have hcast : (mantissa : ℚ) < 2 * leastNormal + 1 := by linarith
      have hcast' : mantissa < 2 * leastNormal + 1 := by exact_mod_cast hcast
      omega
    refine ⟨rfl, ⟨hmantissa, hle, hmax, hscale.least_or_le.imp_right fun hleast => ?_⟩, ?_⟩
    · have hcast : (leastNormal : ℚ) < mantissa + 1 := by linarith
      have hcast' : leastNormal < mantissa + 1 := by exact_mod_cast hcast
      omega
    · rw [RoundsTo, roomBelow]
      split_ifs with hpower
      · obtain ⟨rfl, hmin⟩ := hpower
        have hleast := hscale.least_or_le.resolve_left (by omega)
        exact ⟨by linarith, hhigh, Or.inl (by decide)⟩
      · exact hround

/-- A number that is read as a finite one is rounded at its exponent, or one below if it lies right below a power of
two. -/
theorem exponent_cases_of_roundsTo {mantissa : Nat} {e exponent : Int} {q : ℚ} (hscale : IsScale q e)
    (hnormal : IsNormal mantissa exponent) (h : RoundsTo mantissa exponent q) :
    exponent = e ∨ exponent = e + 1 ∧ mantissa = leastNormal ∧ 2 * (leastNormal : ℚ) - 1 / 2 ≤ q / 2 ^ e := by
  have hlarge : (1 : ℚ) < leastNormal := by norm_num [leastNormal]
  have hlt := hscale.lt
  have hcast := hnormal.cast_le
  obtain ⟨hlow, hhigh⟩ := h.bounds
  rcases lt_trichotomy exponent e with hless | heq | hmore
  · exfalso
    have hleast := hscale.least_or_le.resolve_left (by have := hnormal.le_exponent; omega)
    obtain ⟨n, rfl⟩ : ∃ n : Nat, e = exponent + (n + 1) := ⟨(e - exponent - 1).toNat, by omega⟩
    have htwo : (2 : ℚ) ≤ 2 ^ ((n : Int) + 1) := by
      exact_mod_cast Nat.pow_le_pow_right (n := 2) (by decide) (show 1 ≤ n + 1 by omega)
    rw [div_zpow_add, le_div_iff₀ (by positivity)] at hleast
    nlinarith
  · exact Or.inl heq
  · obtain ⟨n, rfl⟩ : ∃ n : Nat, exponent = e + (n + 1) := ⟨(exponent - e - 1).toNat, by omega⟩
    have hleast : (leastNormal : ℚ) ≤ mantissa := by
      exact_mod_cast hnormal.least_or_le.resolve_left (by have := hscale.le_exponent; omega)
    rw [div_zpow_add, le_div_iff₀ (by positivity)] at hlow
    obtain rfl : n = 0 := by
      by_contra hn
      have hfour : (4 : ℚ) ≤ 2 ^ ((n : Int) + 1) := by
        exact_mod_cast Nat.pow_le_pow_right (n := 2) (by decide) (show 2 ≤ n + 1 by omega)
      nlinarith
    norm_num at hlow
    have hmantissa : mantissa = leastNormal := by
      have hless : (mantissa : ℚ) < leastNormal + 1 := by linarith
      have hless' : mantissa < leastNormal + 1 := by exact_mod_cast hless
      have hleast' : leastNormal ≤ mantissa := by exact_mod_cast hleast
      omega
    have hroom : roomBelow mantissa (e + ((0 : Nat) + 1)) = 1 / 4 := by
      have := hscale.le_exponent
      exact if_pos ⟨hmantissa, by omega⟩
    have hstart := h.1
    rw [hroom, div_zpow_add, hmantissa] at hstart
    norm_num at hstart
    exact Or.inr ⟨by simp, hmantissa, by linarith⟩

theorem ofRounded_roundDiv_eq_finite_iff {negative negative' : Bool} {num den mantissa : Nat} {e exponent : Int}
    (hden : 0 < den) (hscale : IsScale (num / den) e) :
    ofRounded negative (roundDiv (scaled num den e).1 (scaled num den e).2) e = finite negative' mantissa exponent ↔
      negative' = negative ∧ IsNormal mantissa exponent ∧ RoundsTo mantissa exponent (num / den) := by
  have hpos := scaled_pos num hden e
  have hdiv := scaled_div num den e
  constructor
  · intro h
    refine roundsTo_of_ofRounded hscale ?_ h
    rw [← hdiv]
    exact (roundDiv_eq_iff hpos).mp rfl
  · rintro ⟨rfl, hnormal, h⟩
    have hmax := hnormal.exponent_le
    rcases exponent_cases_of_roundsTo hscale hnormal h with rfl | ⟨rfl, rfl, hcarry⟩
    · have hround : roundDiv (scaled num den exponent).1 (scaled num den exponent).2 = mantissa := by
        rw [roundDiv_eq_iff hpos, hdiv]
        exact h.mono (by linarith [roomBelow_le mantissa exponent]) le_rfl
      rw [hround, ofRounded_of_lt hnormal.mantissa_lt.ne hmax]
    · have hround : roundDiv (scaled num den e).1 (scaled num den e).2 = 2 * leastNormal := by
        rw [roundDiv_eq_iff hpos, hdiv]
        push_cast
        exact ⟨hcarry, by linarith [hscale.lt], Or.inl (by decide)⟩
      rw [hround, ofRounded_carry hmax]

/-- A quotient of two positive numbers is read as a finite number exactly if it lies in the range of that number. -/
theorem ofQuotient_eq_finite_iff {negative negative' : Bool} {num den mantissa : Nat} {exponent : Int}
    (hnum : 0 < num) (hden : 0 < den) :
    ofQuotient negative num den = finite negative' mantissa exponent ↔
      negative' = negative ∧ IsNormal mantissa exponent ∧ RoundsTo mantissa exponent (num / den) := by
  rw [ofQuotient]
  exact ofRounded_roundDiv_eq_finite_iff hden (isScale_roundingExponent hnum hden)

/-! ### Decimals -/

theorem digitCount_le_iff {n k : Nat} : digitCount n ≤ k ↔ n < 10 ^ k := by
  rw [digitCount]
  split_ifs with hn
  · simp [hn]
  · by_cases hk : k = 0
    · have hpos := Nat.length_toDigits_pos (b := 10) (n := n)
      simp only [hk, pow_zero]
      omega
    · exact Nat.length_toDigits_le_iff (by decide) (Nat.pos_of_ne_zero hk)

theorem cast_lt_zpow_digitCount (n : Nat) : (n : ℚ) < 10 ^ (digitCount n : Int) := by
  exact_mod_cast digitCount_le_iff.mp le_rfl

theorem digitCount_pos {n : Nat} (hn : n ≠ 0) : 0 < digitCount n := by
  by_contra hzero
  have := digitCount_le_iff.mp (Nat.le_of_not_lt hzero)
  omega

theorem zpow_digitCount_le_cast {n : Nat} (hn : n ≠ 0) : (10 : ℚ) ^ ((digitCount n : Int) - 1) ≤ n := by
  have hpos := digitCount_pos hn
  obtain ⟨k, hk⟩ : ∃ k, digitCount n = k + 1 := ⟨digitCount n - 1, by omega⟩
  have hle : ¬ n < 10 ^ k := by
    rw [← digitCount_le_iff]
    omega
  rw [hk]
  push_cast
  rw [add_sub_cancel_right]
  exact_mod_cast Nat.le_of_not_lt hle

/-- Next to zero everything is read as zero. -/
theorem roundsTo_small_iff {mantissa : Nat} {exponent : Int} {q : ℚ} (hpos : 0 ≤ q)
    (hsmall : q / 2 ^ minExponent < 1 / 2) :
    IsNormal mantissa exponent ∧ RoundsTo mantissa exponent q ↔ mantissa = 0 ∧ exponent = minExponent := by
  constructor
  · rintro ⟨hnormal, h⟩
    have hle : q / 2 ^ exponent ≤ q / 2 ^ minExponent := by
      apply div_le_div_of_nonneg_left hpos (by positivity)
      exact zpow_le_zpow_right₀ one_le_two hnormal.le_exponent
    have hzero : mantissa = 0 := by
      have hcast : (mantissa : ℚ) < 1 := by linarith [h.bounds.1]
      have hcast' : mantissa < 1 := by exact_mod_cast hcast
      omega
    refine ⟨hzero, hnormal.least_or_le.resolve_right ?_⟩
    rw [hzero]
    decide
  · rintro ⟨rfl, rfl⟩
    refine ⟨⟨by decide, le_rfl, by decide, Or.inl rfl⟩, ?_⟩
    have hnonneg : 0 ≤ q / 2 ^ minExponent := by positivity
    have hroom := roomBelow_pos 0 minExponent
    exact ⟨by push_cast; linarith, by push_cast; linarith, Or.inl rfl⟩

theorem not_roundsTo_of_le {mantissa : Nat} {exponent : Int} {q : ℚ} (hq : 2 ^ (1024 : Int) ≤ q)
    (hnormal : IsNormal mantissa exponent) : ¬ RoundsTo mantissa exponent q := by
  intro h
  have hcast := hnormal.cast_le
  have hhigh := h.bounds.2
  rw [div_le_iff₀ (by positivity)] at hhigh
  have hlt : q < 2 ^ (1024 : Int) := by
    calc q ≤ ((mantissa : ℚ) + 1 / 2) * 2 ^ exponent := hhigh
      _ < 2 * leastNormal * 2 ^ exponent := by gcongr; linarith
      _ = 2 ^ (53 + exponent) := by
        rw [zpow_add₀ two_ne_zero]
        norm_num [leastNormal]
      _ ≤ 2 ^ (1024 : Int) := by
        apply zpow_le_zpow_right₀ one_le_two
        have := hnormal.exponent_le
        simp only [maxExponent] at this
        omega
  linarith

theorem two_pow_lt_ten_pow : (2 : Nat) ^ 1024 < 10 ^ 310 ∧ (2 : Nat) ^ 1076 < 10 ^ 331 := by
  decide +kernel

/-- A decimal that is read as zero because its first digit stands too low. -/
theorem decimal_lt_of_magnitude {digits : Nat} {grid : Int} (h : (digitCount digits : Int) + grid < -330) :
    (digits : ℚ) * 10 ^ grid / 2 ^ minExponent < 1 / 2 := by
  have hhigh := cast_lt_zpow_digitCount digits
  rw [div_lt_iff₀ (by positivity)]
  calc (digits : ℚ) * 10 ^ grid < 10 ^ (digitCount digits : Int) * 10 ^ grid := by gcongr
    _ = 10 ^ ((digitCount digits : Int) + grid) := (zpow_add₀ (by norm_num) _ _).symm
    _ ≤ 10 ^ (-331 : Int) := zpow_le_zpow_right₀ (by norm_num) (by omega)
    _ < 2 ^ (-1076 : Int) := by
      rw [zpow_neg, zpow_neg, inv_lt_inv₀ (by positivity) (by positivity)]
      exact_mod_cast two_pow_lt_ten_pow.2
    _ = 1 / 4 * 2 ^ minExponent := by
      rw [show (-1076 : Int) = -2 + minExponent by decide, zpow_add₀ two_ne_zero]
      norm_num
    _ < 1 / 2 * 2 ^ minExponent := by
      gcongr
      norm_num

/-- A decimal that is read as infinite because its first digit stands too high. -/
theorem le_decimal_of_magnitude {digits : Nat} {grid : Int} (hdigits : digits ≠ 0)
    (h : 310 < (digitCount digits : Int) + grid) : (2 : ℚ) ^ (1024 : Int) ≤ digits * 10 ^ grid := by
  have hlow := zpow_digitCount_le_cast hdigits
  calc (2 : ℚ) ^ (1024 : Int) ≤ 10 ^ (310 : Int) := by exact_mod_cast two_pow_lt_ten_pow.1.le
    _ ≤ 10 ^ ((digitCount digits : Int) - 1 + grid) := zpow_le_zpow_right₀ (by norm_num) (by omega)
    _ = 10 ^ ((digitCount digits : Int) - 1) * 10 ^ grid := zpow_add₀ (by norm_num) _ _
    _ ≤ digits * 10 ^ grid := by gcongr

theorem finite_zero_eq_iff {negative negative' : Bool} {mantissa : Nat} {exponent : Int} {q : ℚ} (hpos : 0 ≤ q)
    (hsmall : q / 2 ^ minExponent < 1 / 2) :
    finite negative 0 minExponent = finite negative' mantissa exponent ↔
      negative' = negative ∧ IsNormal mantissa exponent ∧ RoundsTo mantissa exponent q := by
  rw [roundsTo_small_iff hpos hsmall, finite.injEq]
  constructor
  · rintro ⟨rfl, rfl, rfl⟩
    exact ⟨rfl, rfl, rfl⟩
  · rintro ⟨rfl, rfl, rfl⟩
    exact ⟨rfl, rfl, rfl⟩

/-- A decimal is read as a finite number exactly if it lies in the range of that number. -/
theorem ofDecimal_eq_finite_iff {negative negative' : Bool} {digits mantissa : Nat} {grid exponent : Int} :
    ofDecimal negative digits grid = finite negative' mantissa exponent ↔
      negative' = negative ∧ IsNormal mantissa exponent ∧ RoundsTo mantissa exponent (digits * 10 ^ grid) := by
  simp only [ofDecimal, Bool.or_eq_true, decide_eq_true_eq]
  by_cases hdigits : digits = 0
  · rw [if_pos (Or.inl hdigits)]
    apply finite_zero_eq_iff (by positivity)
    simp [hdigits]
  split_ifs with hunder hover hgrid
  · exact finite_zero_eq_iff (by positivity) (decimal_lt_of_magnitude (hunder.resolve_left hdigits))
  · constructor
    · intro h
      cases h
    · rintro ⟨-, hnormal, h⟩
      exact absurd h (not_roundsTo_of_le (le_decimal_of_magnitude hdigits hover) hnormal)
  · have hpos : 0 < digits * Nat.pow 10 grid.toNat :=
      Nat.mul_pos (Nat.pos_of_ne_zero hdigits) (Nat.pow_pos (by decide))
    obtain ⟨n, rfl⟩ := Int.eq_ofNat_of_zero_le hgrid
    rw [ofQuotient_eq_finite_iff hpos Nat.one_pos]
    simp
  · obtain ⟨n, rfl⟩ : ∃ n : Nat, grid = -n := ⟨(-grid).toNat, by omega⟩
    have hpos : 0 < Nat.pow 10 (- -(n : Int)).toNat := Nat.pow_pos (by decide)
    rw [ofQuotient_eq_finite_iff (Nat.pos_of_ne_zero hdigits) hpos]
    simp [div_eq_mul_inv]

end Double

end TreeWalk
