import Mathlib
import TreeWalk.Decimal
import TreeWalk.Proofs.Decimal.Digits
import TreeWalk.Proofs.Decimal.Shortest

/-!
Decimals as text. A plain decimal has digits around at most one point, no zero in front of other digits and none at
the end behind the point, so a number has one at most. The text of a floating-point number is a plain decimal, and
one that is read as the number is its text exactly if none that is read as the same is shorter, or as short and
nearer.
-/

namespace TreeWalk.Decimal

/-! ### Plain decimals -/

/-- Digits before and behind a point, with no zero in front of others and none at the end behind the point. -/
structure IsPlain (whole fraction : List Char) : Prop where
  whole_isDigit : ∀ c ∈ whole, c.isDigit
  fraction_isDigit : ∀ c ∈ fraction, c.isDigit
  whole_ne : whole ≠ []
  head_ne : whole.head? = some '0' → whole = ['0']
  last_ne : fraction.getLast? ≠ some '0'

/-- The digits around their point, which stands there only with a digit behind it. -/
def pointed (whole fraction : List Char) : List Char :=
  if fraction = [] then whole else whole ++ '.' :: fraction

/-- A decimal as text: a minus if it is negative, and the digits around their point. -/
def spell (negative : Bool) (whole fraction : List Char) : List Char :=
  if negative then '-' :: pointed whole fraction else pointed whole fraction

/-- The size of the number that the digits around a point write. -/
def decimalValue (whole fraction : List Char) : ℚ :=
  digitsToNat (whole ++ fraction) * 10 ^ (-(fraction.length : ℤ))

/-- The same number on a finer grid has zeros at its end. -/
theorem eq_mul_ten_pow {digits digits' k : Nat} {grid : Int}
    (h : (digits : ℚ) * 10 ^ grid = digits' * 10 ^ (grid + k)) : digits = digits' * 10 ^ k := by
  have hne : (10 : ℚ) ^ grid ≠ 0 := by positivity
  rw [zpow_add₀ (by norm_num), zpow_natCast, mul_left_comm, mul_comm] at h
  exact_mod_cast mul_left_cancel₀ hne h

namespace IsPlain

variable {whole fraction whole' fraction' : List Char}

theorem toDigits_whole (h : IsPlain whole fraction) : Nat.toDigits 10 (digitsToNat whole) = whole :=
  toDigits_digitsToNat h.whole_isDigit h.whole_ne h.head_ne

theorem mem_spell (h : IsPlain whole fraction) {negative : Bool} {c : Char}
    (hc : c ∈ spell negative whole fraction) : c.isDigit ∨ c = '-' ∨ c = '.' := by
  have hpointed : c ∈ pointed whole fraction → c.isDigit ∨ c = '-' ∨ c = '.' := by
    rw [pointed]
    split
    · exact fun hmem => Or.inl (h.whole_isDigit c hmem)
    · rw [List.mem_append, List.mem_cons]
      rintro (hmem | hmem | hmem)
      · exact Or.inl (h.whole_isDigit c hmem)
      · exact Or.inr (Or.inr hmem)
      · exact Or.inl (h.fraction_isDigit c hmem)
  rw [spell] at hc
  split at hc
  · rcases List.mem_cons.mp hc with hmem | hmem
    · exact Or.inr (Or.inl hmem)
    · exact hpointed hmem
  · exact hpointed hc

/-- The last digit behind the point is no zero. -/
theorem mod_ne (h : IsPlain whole fraction) (hfraction : fraction ≠ []) :
    digitsToNat (whole ++ fraction) % 10 ≠ 0 := by
  obtain ⟨front, c, rfl⟩ := (List.eq_nil_or_concat' fraction).resolve_left hfraction
  intro hmod
  rw [← List.append_assoc, digitsToNat_concat] at hmod
  have hc := h.fraction_isDigit c (by simp)
  have hbounds := isDigit_bounds hc
  have hzero : c = '0' := char_eq_of_digit_eq hc (by decide) (show c.toNat - 48 = 48 - 48 by omega)
  exact h.last_ne (by simp [hzero])

theorem length_le (h : IsPlain whole fraction) (hvalue : decimalValue whole fraction = decimalValue whole' fraction') :
    fraction.length ≤ fraction'.length := by
  by_contra hless
  obtain ⟨k, hk⟩ := Nat.exists_eq_add_of_lt (Nat.lt_of_not_le hless)
  refine h.mod_ne (by rintro rfl; simp at hk) (Nat.mod_eq_zero_of_dvd ?_)
  have hgrid : -(fraction'.length : ℤ) = -(fraction.length : ℤ) + (k + 1 : Nat) := by omega
  rw [decimalValue, decimalValue, hgrid] at hvalue
  rw [eq_mul_ten_pow hvalue]
  exact Dvd.dvd.mul_left (dvd_pow_self 10 (by omega)) _

/-- A number has one plain decimal. -/
theorem eq_of_decimalValue_eq (h : IsPlain whole fraction) (h' : IsPlain whole' fraction')
    (hvalue : decimalValue whole fraction = decimalValue whole' fraction') :
    whole = whole' ∧ fraction = fraction' := by
  have hlength := (h.length_le hvalue).antisymm (h'.length_le hvalue.symm)
  have hdigits : digitsToNat (whole ++ fraction) = digitsToNat (whole' ++ fraction') := by
    have hne : (10 : ℚ) ^ (-(fraction'.length : ℤ)) ≠ 0 := by positivity
    rw [decimalValue, decimalValue, hlength] at hvalue
    exact_mod_cast mul_right_cancel₀ hne hvalue
  rw [digitsToNat_append, digitsToNat_append, hlength] at hdigits
  have hless := digitsToNat_lt h.fraction_isDigit
  have hless' := digitsToNat_lt h'.fraction_isDigit
  rw [hlength] at hless
  have hwhole : digitsToNat whole = digitsToNat whole' := by
    have hdiv := congrArg (· / 10 ^ fraction'.length) hdigits
    simpa [Nat.mul_add_div, Nat.div_eq_of_lt, hless, hless'] using hdiv
  have hfraction : digitsToNat fraction = digitsToNat fraction' := by
    rw [hwhole] at hdigits
    exact Nat.add_left_cancel hdigits
  refine ⟨?_, eq_of_digitsToNat_eq h.fraction_isDigit h'.fraction_isDigit hlength hfraction⟩
  rw [← h.toDigits_whole, hwhole, h'.toDigits_whole]

end IsPlain

/-- Digits with no zero at either end. -/
structure IsStripped (text : List Char) : Prop where
  isDigit : ∀ c ∈ text, c.isDigit
  ne_nil : text ≠ []
  head_ne : text.head? ≠ some '0'
  last_ne : text.getLast? ≠ some '0'

theorem isStripped_toDigits {n : Nat} (hn : n % 10 ≠ 0) : IsStripped (Nat.toDigits 10 n) where
  isDigit := isDigit_of_mem_toDigits n
  ne_nil := Nat.toDigits_ne_nil
  head_ne := head?_toDigits_ne (by rintro rfl; exact hn rfl)
  last_ne := getLast?_toDigits_ne hn

theorem isDigit_of_mem_zeros {n : Nat} {c : Char} (hc : c ∈ List.replicate n '0') : c.isDigit := by
  rw [List.eq_of_mem_replicate hc]
  rfl

namespace IsStripped

variable {text : List Char} (h : IsStripped text)

include h

theorem isPlain_append_zeros (zeros : Nat) : IsPlain (text ++ List.replicate zeros '0') [] where
  whole_isDigit := List.forall_mem_append.mpr ⟨h.isDigit, fun _ => isDigit_of_mem_zeros⟩
  fraction_isDigit := by simp
  whole_ne := by simp [h.ne_nil]
  head_ne := by
    rw [List.head?_append_of_ne_nil _ h.ne_nil]
    exact fun hhead => absurd hhead h.head_ne
  last_ne := by simp

theorem isPlain_cut {cut : Nat} (hpos : 0 < cut) (hlength : cut < text.length) :
    IsPlain (text.take cut) (text.drop cut) where
  whole_isDigit := fun c hc => h.isDigit c (List.mem_of_mem_take hc)
  fraction_isDigit := fun c hc => h.isDigit c (List.mem_of_mem_drop hc)
  whole_ne := by simp [List.take_eq_nil_iff, h.ne_nil, hpos.ne']
  head_ne := by
    rw [List.head?_take, if_neg hpos.ne']
    exact fun hhead => absurd hhead h.head_ne
  last_ne := by
    rw [List.getLast?_drop, if_neg (by omega)]
    exact h.last_ne

theorem isPlain_zeros_append (zeros : Nat) : IsPlain ['0'] (List.replicate zeros '0' ++ text) where
  whole_isDigit := by simp
  fraction_isDigit := List.forall_mem_append.mpr ⟨fun _ => isDigit_of_mem_zeros, h.isDigit⟩
  whole_ne := by simp
  head_ne := fun _ => rfl
  last_ne := by
    rw [List.getLast?_append_of_ne_nil _ h.ne_nil]
    exact h.last_ne

end IsStripped

/-- The digits of a decimal that does not end with a zero are laid out plainly. -/
theorem exists_plain_positional {digits : Nat} (hdigits : digits % 10 ≠ 0) (grid : Int) :
    ∃ whole fraction, IsPlain whole fraction ∧ Double.positional digits grid = pointed whole fraction ∧
      decimalValue whole fraction = digits * 10 ^ grid := by
  have hstripped := isStripped_toDigits hdigits
  have hvalue := digitsToNat_toDigits digits
  simp only [Double.positional]
  generalize Nat.toDigits 10 digits = text at *
  split
  · refine ⟨text ++ List.replicate grid.toNat '0', [], hstripped.isPlain_append_zeros _, rfl, ?_⟩
    have hpow : (10 : ℚ) ^ grid = 10 ^ grid.toNat := by
      rw [← zpow_natCast, Int.toNat_of_nonneg ‹0 ≤ grid›]
    rw [decimalValue, List.append_nil, digitsToNat_append, digitsToNat_replicate, hvalue, List.length_replicate, hpow]
    push_cast
    simp [mul_comm]
  split
  · have hlength : ((text.length : Int) + grid).toNat < text.length := by omega
    generalize hcut : ((text.length : Int) + grid).toNat = cut at *
    refine ⟨text.take cut, text.drop cut, hstripped.isPlain_cut (by omega) hlength, ?_, ?_⟩
    · rw [pointed, if_neg (by rw [List.drop_eq_nil_iff]; omega)]
    · rw [decimalValue, List.take_append_drop, hvalue, List.length_drop]
      congr 2
      omega
  · generalize hzeros : (-((text.length : Int) + grid)).toNat = zeros
    refine ⟨['0'], List.replicate zeros '0' ++ text, hstripped.isPlain_zeros_append zeros, ?_, ?_⟩
    · rw [pointed, if_neg (by simp [hstripped.ne_nil])]
      rfl
    · have hnumber : digitsToNat (['0'] ++ (List.replicate zeros '0' ++ text)) = digits := by
        rw [digitsToNat_append, digitsToNat_append, digitsToNat_replicate, hvalue]
        simp [digitsToNat]
      rw [decimalValue, hnumber, List.length_append, List.length_replicate]
      congr 2
      omega

/-! ### Reading plain decimals -/

theorem toLower_of_isDigit {c : Char} (hc : c.isDigit) : c.toLower = c := by
  apply Char.toLower_eq_of_not_isUpper
  rw [Char.isUpper, decide_eq_true_eq, not_and]
  intro hupper
  have hletter : 65 ≤ c.toNat := hupper
  have hdigit := (isDigit_bounds hc).2
  omega

namespace IsPlain

variable {whole fraction : List Char} (h : IsPlain whole fraction)

include h

theorem exists_pointed_cons : ∃ c rest, pointed whole fraction = c :: rest ∧ c.isDigit := by
  obtain ⟨c, rest, rfl⟩ := List.exists_cons_of_ne_nil h.whole_ne
  have hc := h.whole_isDigit c List.mem_cons_self
  rw [pointed]
  split
  · exact ⟨c, rest, rfl, hc⟩
  · exact ⟨c, rest ++ '.' :: fraction, rfl, hc⟩

theorem splitSign_spell (negative : Bool) :
    splitSign (spell negative whole fraction) = (negative, pointed whole fraction) := by
  cases negative with
  | true => rfl
  | false =>
      obtain ⟨c, rest, heq, hc⟩ := h.exists_pointed_cons
      rw [spell, if_neg (by decide), heq]
      unfold splitSign
      split
      · rename_i hminus
        cases hminus
        exact absurd hc (by decide)
      · rename_i hplus
        cases hplus
        exact absurd hc (by decide)
      · rfl

theorem parseUnsigned?_pointed (negative : Bool) :
    parseUnsigned? negative (pointed whole fraction) =
      some (.ofDecimal negative (digitsToNat (whole ++ fraction)) (-fraction.length)) := by
  have hwhole : whole.takeWhile Char.isDigit = whole := List.takeWhile_eq_self_iff.mpr h.whole_isDigit
  have hfraction : fraction.takeWhile Char.isDigit = fraction := List.takeWhile_eq_self_iff.mpr h.fraction_isDigit
  have hwhole' : whole.dropWhile Char.isDigit = [] := List.dropWhile_eq_nil_iff.mpr h.whole_isDigit
  have hfraction' : fraction.dropWhile Char.isDigit = [] := List.dropWhile_eq_nil_iff.mpr h.fraction_isDigit
  rw [pointed]
  split
  · rename_i hnil
    simp [parseUnsigned?, hwhole, hwhole', hnil, h.whole_ne, parseExponent?]
  · have htake : (whole ++ '.' :: fraction).takeWhile Char.isDigit = whole := by
      rw [List.takeWhile_append_of_pos h.whole_isDigit, List.takeWhile_cons_of_neg (by decide), List.append_nil]
    have hdrop : (whole ++ '.' :: fraction).dropWhile Char.isDigit = '.' :: fraction := by
      rw [List.dropWhile_append_of_pos h.whole_isDigit, List.dropWhile_cons_of_neg (by decide)]
    simp [parseUnsigned?, htake, hdrop, hfraction, hfraction', h.whole_ne, parseExponent?]

theorem parseDouble?_spell (negative : Bool) :
    parseDouble? (spell negative whole fraction) =
      some (.ofDecimal negative (digitsToNat (whole ++ fraction)) (-fraction.length)) := by
  obtain ⟨c, rest, heq, hc⟩ := h.exists_pointed_cons
  have hword : ∀ word : String, word.toList.head?.any (fun d => !d.isDigit) →
      String.ofList ((pointed whole fraction).map Char.toLower) ≠ word := by
    rintro word hletter rfl
    simp [heq, toLower_of_isDigit hc, hc] at hletter
  simp only [parseDouble?, h.splitSign_spell, h.parseUnsigned?_pointed]
  simp [hword]

end IsPlain

theorem exists_of_parseUnsigned? {negative : Bool} {s : List Char} {x : Double}
    (h : parseUnsigned? negative s = some x) : ∃ digits grid, x = .ofDecimal negative digits grid := by
  simp only [parseUnsigned?] at h
  split at h <;> split at h
  case isTrue => cases h
  case isTrue => cases h
  all_goals
    obtain ⟨exponent, -, heq⟩ := Option.map_eq_some_iff.mp h
    exact ⟨_, _, heq.symm⟩

/-- What is read from a text is no number, infinite, or the number nearest to a decimal. -/
theorem parseDouble?_cases {s : List Char} {x : Double} (h : parseDouble? s = some x) :
    x = .nan ∨ (∃ negative, x = .infinity negative) ∨ ∃ negative digits grid, x = .ofDecimal negative digits grid := by
  simp only [parseDouble?] at h
  split at h
  · exact Or.inr (Or.inl ⟨_, (Option.some.inj h).symm⟩)
  split at h
  · exact Or.inl (Option.some.inj h).symm
  · exact Or.inr (Or.inr ⟨_, exists_of_parseUnsigned? h⟩)

/-! ### Integers as text -/

theorem isPlain_toDigits (n : Nat) : IsPlain (Nat.toDigits 10 n) [] where
  whole_isDigit := isDigit_of_mem_toDigits n
  fraction_isDigit := by simp
  whole_ne := Nat.toDigits_ne_nil
  head_ne := by
    by_cases hn : n = 0
    · subst hn
      exact fun _ => rfl
    · exact fun hhead => absurd hhead (head?_toDigits_ne hn)
  last_ne := by simp

theorem toList_toString_int (n : Int) : (toString n).toList = spell (n < 0) (Nat.toDigits 10 n.natAbs) [] := by
  cases n with
  | ofNat n =>
      show (toString n).toList = _
      rw [Nat.toString_eq_repr, Nat.toList_repr]
      simp [spell, pointed]
  | negSucc n =>
      show ("-" ++ toString (n + 1)).toList = _
      rw [Nat.toString_eq_repr, String.toList_append, Nat.toList_repr]
      simp [spell, pointed]

theorem parseInt?_spell {whole : List Char} (h : IsPlain whole []) (negative : Bool) :
    parseInt? (spell negative whole []) =
      some (if negative then -(digitsToNat whole : Int) else digitsToNat whole) := by
  have hdigits : whole.all Char.isDigit := List.all_eq_true.mpr h.whole_isDigit
  simp [parseInt?, h.splitSign_spell, pointed, h.whole_ne, hdigits]

/-- The text of an integer: digits without a zero in front, with a minus in front of them for what is below zero. -/
def IsIntegerText (text : List Char) : Prop :=
  ∃ negative whole, IsPlain whole [] ∧ text = spell negative whole [] ∧ (negative → whole ≠ ['0'])

theorem digitsToNat_eq_zero_iff {whole : List Char} (h : IsPlain whole []) : digitsToNat whole = 0 ↔ whole = ['0'] := by
  constructor
  · intro hzero
    rw [← h.toDigits_whole, hzero]
    rfl
  · rintro rfl
    rfl

theorem toString_eq_iff_isIntegerText {text : List Char} {n : Int} (h : parseInt? text = some n) :
    (toString n).toList = text ↔ IsIntegerText text := by
  rw [toList_toString_int]
  constructor
  · intro heq
    refine ⟨n < 0, Nat.toDigits 10 n.natAbs, isPlain_toDigits _, heq.symm, fun hnegative hzero => ?_⟩
    have hvalue := (digitsToNat_eq_zero_iff (isPlain_toDigits _)).mpr hzero
    rw [digitsToNat_toDigits] at hvalue
    simp only [decide_eq_true_eq] at hnegative
    omega
  · rintro ⟨negative, whole, hplain, rfl, hminus⟩
    rw [parseInt?_spell hplain, Option.some.injEq] at h
    have hzero := digitsToNat_eq_zero_iff hplain
    have habs : n.natAbs = digitsToNat whole := by
      subst h
      split <;> omega
    have hsign : decide (n < 0) = negative := by
      subst h
      cases negative with
      | true =>
          have hpos := Nat.pos_of_ne_zero (hzero.not.mpr (hminus rfl))
          simpa using hpos
      | false => simp
    rw [habs, hsign, hplain.toDigits_whole]

end TreeWalk.Decimal

namespace TreeWalk.Double

open Decimal

variable {mantissa : Nat} {exponent : Int}

/-! ### Shortest decimals as text -/

/-- How many significant digits a decimal has depends on its value alone. -/
theorem significant_eq_of_eq {digits digits' : Nat} {grid grid' : Int}
    (h : (digits : ℚ) * 10 ^ grid = digits' * 10 ^ grid') : significant digits = significant digits' := by
  rcases le_total grid grid' with hgrid | hgrid
  · obtain ⟨k, rfl⟩ := Int.le.dest hgrid
    rw [eq_mul_ten_pow h, significant_mul_pow]
  · obtain ⟨k, rfl⟩ := Int.le.dest hgrid
    rw [eq_mul_ten_pow h.symm, significant_mul_pow]

theorem Precedes.of_eq {x : ℚ} {digits digits' other : Nat} {grid grid' grid'' : Int}
    (heq : (digits : ℚ) * 10 ^ grid = digits' * 10 ^ grid') (h : Precedes x digits grid other grid'') :
    Precedes x digits' grid' other grid'' := by
  rwa [Precedes, ← significant_eq_of_eq heq, ← heq]

/-- Two decimals that precede each other are the same number. -/
theorem Precedes.antisymm {x : ℚ} {digits digits' : Nat} {grid grid' : Int}
    (h : Precedes x digits grid digits' grid') (h' : Precedes x digits' grid' digits grid) :
    (digits : ℚ) * 10 ^ grid = digits' * 10 ^ grid' := by
  rcases h with h | ⟨h, hnearer⟩ <;> rcases h' with h' | ⟨h', hnearer'⟩
  · omega
  · omega
  · omega
  · exact hnearer.antisymm hnearer'

theorem zero_precedes (grid : Int) (digits' : Nat) (grid' : Int) : Precedes 0 0 grid digits' grid' := by
  have hzero : significant 0 = 0 := rfl
  have hnonneg : (0 : ℚ) ≤ digits' * 10 ^ grid' := by positivity
  rcases Nat.eq_zero_or_pos (significant digits') with hnone | hsome
  · refine Or.inr ⟨by rw [hzero, hnone], ?_⟩
    rw [Nat.cast_zero, zero_mul]
    exact Nearer.of_ge_of_ge le_rfl hnonneg
  · exact Or.inl (by rwa [hzero])

theorem toList_toText_zero (negative : Bool) (exponent : Int) :
    (finite negative 0 exponent).toText.toList = spell negative ['0'] [] := by
  cases negative <;> simp [toText, spell, pointed]

theorem toList_toText {digits : Nat} {grid : Int} (negative : Bool) (hmantissa : mantissa ≠ 0)
    (hshortest : shortest mantissa exponent = (digits, grid)) :
    (finite negative mantissa exponent).toText.toList =
      if negative then '-' :: positional digits grid else positional digits grid := by
  cases negative <;> simp [toText, hmantissa, hshortest]

/-- The text of a finite number is the plain decimal that precedes all that are read as the number. -/
theorem exists_plain_toText (hnormal : IsNormal mantissa exponent) (negative : Bool) :
    ∃ whole fraction, IsPlain whole fraction ∧
      (finite negative mantissa exponent).toText.toList = spell negative whole fraction ∧
      RoundsTo mantissa exponent (decimalValue whole fraction) ∧
      ∀ (digits : Nat) (grid : Int), RoundsTo mantissa exponent (digits * 10 ^ grid) →
        Precedes (size mantissa exponent) (digitsToNat (whole ++ fraction)) (-fraction.length) digits grid := by
  by_cases hmantissa : mantissa = 0
  · subst hmantissa
    have hsize : size 0 exponent = 0 := by rw [size, Nat.cast_zero, zero_mul]
    have hdigits : digitsToNat (['0'] ++ []) = 0 := rfl
    refine ⟨['0'], [], ⟨by simp, by simp, by simp, fun _ => rfl, by simp⟩, toList_toText_zero negative exponent, ?_,
      fun digits grid _ => ?_⟩
    · rw [decimalValue, hdigits, Nat.cast_zero, zero_mul, ← hsize]
      exact roundsTo_size 0 exponent
    · rw [hsize, hdigits]
      exact zero_precedes _ _ _
  · rcases hshortest : shortest mantissa exponent with ⟨digits, grid⟩
    obtain ⟨hmod, hrounds, hprecedes⟩ := shortest_precedes hnormal hmantissa hshortest
    obtain ⟨whole, fraction, hplain, hpositional, hvalue⟩ := exists_plain_positional hmod grid
    refine ⟨whole, fraction, hplain, ?_, hvalue ▸ hrounds, fun digits' grid' hread => ?_⟩
    · rw [toList_toText negative hmantissa hshortest, hpositional, spell]
    · exact (hprecedes digits' grid' hread).of_eq hvalue.symm

/-- A decimal that is read as a finite number and precedes all others that are read as the same: it has the fewest
significant digits, and of those with as many it is the nearest to the number, the greater one of two. -/
def IsShortest (negative : Bool) (digits : Nat) (grid : Int) : Prop :=
  ∃ mantissa exponent, ofDecimal negative digits grid = finite negative mantissa exponent ∧
    ∀ digits' grid', ofDecimal negative digits' grid' = finite negative mantissa exponent →
      Precedes (size mantissa exponent) digits grid digits' grid'

/-- A text that is a plain decimal, and the shortest that is read as its number. -/
def IsShortestText (text : List Char) : Prop :=
  ∃ negative whole fraction, IsPlain whole fraction ∧ text = spell negative whole fraction ∧
    IsShortest negative (digitsToNat (whole ++ fraction)) (-fraction.length)

theorem isNormal_of_parseDouble? {text : List Char} {negative : Bool}
    (h : parseDouble? text = some (finite negative mantissa exponent)) : IsNormal mantissa exponent := by
  rcases parseDouble?_cases h with heq | ⟨_, heq⟩ | ⟨_, digits, grid, heq⟩
  · cases heq
  · cases heq
  · exact (ofDecimal_eq_finite_iff.mp heq.symm).2.1

/-- A text that is read as a finite number is written for it exactly if it is its shortest plain decimal. -/
theorem toText_eq_iff_isShortestText {text : List Char} {negative : Bool}
    (h : parseDouble? text = some (finite negative mantissa exponent)) :
    (finite negative mantissa exponent).toText.toList = text ↔ IsShortestText text := by
  have hnormal := isNormal_of_parseDouble? h
  obtain ⟨whole, fraction, hplain, htext, hrounds, hprecedes⟩ := exists_plain_toText hnormal negative
  constructor
  · intro heq
    refine ⟨negative, whole, fraction, hplain, heq.symm.trans htext, mantissa, exponent, ?_, ?_⟩
    · exact ofDecimal_eq_finite_iff.mpr ⟨rfl, hnormal, hrounds⟩
    · intro digits' grid' hread
      exact hprecedes digits' grid' (ofDecimal_eq_finite_iff.mp hread).2.2
  · rintro ⟨negative', whole', fraction', hplain', rfl, mantissa', exponent', hread, hprecedes'⟩
    rw [hplain'.parseDouble?_spell, hread, Option.some.injEq] at h
    cases h
    obtain ⟨-, -, hrounds'⟩ := ofDecimal_eq_finite_iff.mp hread
    have hvalue := (hprecedes _ _ hrounds').antisymm
      (hprecedes' _ _ (ofDecimal_eq_finite_iff.mpr ⟨rfl, hnormal, hrounds⟩))
    obtain ⟨rfl, rfl⟩ := hplain.eq_of_decimalValue_eq hplain' hvalue
    exact htext

/-- The texts of what is not finite. -/
def specialTexts : List String := ["inf", "-inf", "NaN"]

theorem toText_eq_iff {text : String} {x : Double} (h : parseDouble? text.toList = some x) :
    x.toText = text ↔ text ∈ specialTexts ∨ IsShortestText text.toList := by
  constructor
  · rintro rfl
    cases x with
    | finite negative mantissa exponent => exact Or.inr ((toText_eq_iff_isShortestText h).mp rfl)
    | infinity negative => exact Or.inl (by cases negative <;> decide)
    | nan => exact Or.inl (by decide)
  · rintro (hmem | hshortest)
    · have hall : ∀ special ∈ specialTexts, (parseDouble? special.toList).map toText = some special := by decide
      have hspecial := hall text hmem
      rw [h] at hspecial
      exact Option.some.inj hspecial
    · have ⟨negative, whole, fraction, hplain, heq, mantissa, exponent, hread, _⟩ := hshortest
      have hx : x = finite negative mantissa exponent := by
        rw [heq, hplain.parseDouble?_spell, hread] at h
        exact (Option.some.inj h).symm
      subst hx
      exact String.toList_inj.mp ((toText_eq_iff_isShortestText h).mpr hshortest)

end TreeWalk.Double
