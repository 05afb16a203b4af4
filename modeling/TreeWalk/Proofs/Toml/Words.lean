import TreeWalk.Proofs.Decimal.Digits
import TreeWalk.Proofs.Toml.Lines

/-!
Values that are written as words. A word reads back as its value at the end of a line, and the words of
the booleans and of the numbers that fit 64 bits with a sign are the ones that are usually written for
them. A row of digits cannot be taken for a date or a time, which hold a dash or a colon.
-/

namespace TreeWalk.Toml

open Decimal (isDigit_of_mem_toDigits head?_toDigits_ne digitsToNat_toDigits)

/-! ### Words -/

theorem isWordChar_ne {c d : Char} (hc : isWordChar c) (hd : ¬ isWordChar d) : c ≠ d := by
  rintro rfl
  exact hd hc

theorem EndsLine.takeWhile_eq_nil {rest : List Char} (h : EndsLine rest) :
    rest.takeWhile isWordChar = [] := by
  cases h <;> rfl

theorem EndsLine.dropWhile_eq_self {rest : List Char} (h : EndsLine rest) :
    rest.dropWhile isWordChar = rest := by
  cases h <;> rfl

theorem readWord_append {word : List Char} {v : Value} (hchars : ∀ c ∈ word, isWordChar c)
    (hword : Value.ofWord? word = some v) {rest : List Char} (hrest : EndsLine rest) :
    readWord (word ++ rest) = some (v, rest) := by
  have htake : (word ++ rest).takeWhile isWordChar = word := by
    rw [List.takeWhile_append_of_pos hchars, hrest.takeWhile_eq_nil, List.append_nil]
  have hdrop : (word ++ rest).dropWhile isWordChar = rest := by
    rw [List.dropWhile_append_of_pos hchars, hrest.dropWhile_eq_self]
  rw [readWord, htake, hdrop]
  cases hrest <;> simp [hword]

/-- A word writes the value that it is read as. -/
theorem writes_word {word : List Char} {v : Value} (hne : word ≠ []) (hchars : ∀ c ∈ word, isWordChar c)
    (hword : Value.ofWord? word = some v) : Writes word v := by
  obtain ⟨c, tail, rfl⟩ := List.exists_cons_of_ne_nil hne
  have hc : isWordChar c := hchars c List.mem_cons_self
  refine ⟨⟨c, tail, rfl, ?_⟩, fun hmem => absurd (hchars '\r' hmem) (by decide),
    fun fuel depth rest hrest => ?_⟩
  · have hblank := isWordChar_ne hc (d := ' ') (by decide)
    have htab := isWordChar_ne hc (d := '\t') (by decide)
    simp [isSpace, hblank, htab]
  · rw [← readWord_append hchars hword hrest, List.cons_append, readValue]
    all_goals
      intro _ heq
      exact isWordChar_ne hc (by decide) (List.cons.inj heq).1

/-! ### Booleans -/

theorem writes_toString_bool (b : Bool) : Writes (toString b).toList (.boolean b) := by
  cases b <;> exact writes_word (by decide) (List.all_eq_true.mp (by decide)) rfl

/-! ### Numbers -/

theorem mem_of_isDate {s : List Char} (h : isDate s) : '-' ∈ s := by
  unfold isDate at h
  split at h
  · simp
  · contradiction

theorem mem_of_isTime {tail : List Char → Bool} {s : List Char} (h : isTime tail s) : ':' ∈ s := by
  unfold isTime at h
  split at h
  · simp
  · contradiction

section Digits

variable {digits : List Char} (hdigits : ∀ c ∈ digits, c.isDigit)
include hdigits

theorem isDatetime_eq_false : isDatetime digits = false := by
  have hdash : '-' ∉ digits := fun hmem => absurd (hdigits _ hmem) (by decide)
  have hcolon : ':' ∉ digits := fun hmem => absurd (hdigits _ hmem) (by decide)
  have hdate : isDate digits = false := Bool.eq_false_iff.mpr (hdash ∘ mem_of_isDate)
  have htime : isTime List.isEmpty digits = false := Bool.eq_false_iff.mpr (hcolon ∘ mem_of_isTime)
  have hfront : isDate (digits.take 10) = false :=
    Bool.eq_false_iff.mpr (hdash ∘ List.mem_of_mem_take ∘ mem_of_isDate)
  simp [isDatetime, hdate, htime, hfront]

theorem digitRun?_eq_some (hne : digits ≠ []) : digitRun? Char.isDigit digits = some digits := by
  fun_induction digitRun? Char.isDigit digits with
  | case1 => exact absurd rfl hne
  | case2 => rfl
  | case3 c hc => exact absurd (hdigits c List.mem_cons_self) hc
  | case4 => exact absurd (hdigits '_' (by simp)) (by decide)
  | case5 => exact absurd (hdigits '_' (by simp)) (by decide)
  | case6 c rest hrest _ _ ih =>
      rw [ih (fun d hd => hdigits d (List.mem_cons_of_mem c hd)) (fun hnil => hrest hnil)]
      rfl
  | case7 c _ _ _ hc => exact absurd (hdigits c List.mem_cons_self) hc

theorem splitSign_eq : Decimal.splitSign digits = (false, digits) := by
  unfold Decimal.splitSign
  split
  · exact absurd (hdigits '-' List.mem_cons_self) (by decide)
  · exact absurd (hdigits '+' List.mem_cons_self) (by decide)
  · rfl

theorem integer?_eq_some (hwhole : wholeDigits? digits = some digits)
    (hfits : Decimal.fitsInt64 (Decimal.digitsToNat digits)) :
    integer? digits = some (Decimal.digitsToNat digits : Int) := by
  unfold integer?
  split
  · exact absurd (hdigits 'x' (by simp)) (by decide)
  · exact absurd (hdigits 'o' (by simp)) (by decide)
  · exact absurd (hdigits 'b' (by simp)) (by decide)
  · simp [splitSign_eq hdigits, hwhole, Option.filter, hfits]

end Digits

theorem wholeDigits?_toDigits (n : Nat) : wholeDigits? (Nat.toDigits 10 n) = some (Nat.toDigits 10 n) := by
  rw [wholeDigits?, digitRun?_eq_some (isDigit_of_mem_toDigits n) Nat.toDigits_ne_nil]
  by_cases hn : n = 0
  · subst hn
    rfl
  · simp [Option.filter, head?_toDigits_ne hn]

theorem ofWord?_toDigits {n : Nat} (hn : Decimal.fitsInt64 n) :
    Value.ofWord? (Nat.toDigits 10 n) = some (.integer n) := by
  have hdigits := isDigit_of_mem_toDigits n
  have hnumber := digitsToNat_toDigits n
  have htrue : Nat.toDigits 10 n ≠ ['t', 'r', 'u', 'e'] := fun h =>
    absurd (hdigits 't' (by simp [h])) (by decide)
  have hfalse : Nat.toDigits 10 n ≠ ['f', 'a', 'l', 's', 'e'] := fun h =>
    absurd (hdigits 'f' (by simp [h])) (by decide)
  rw [Value.ofWord?, if_neg htrue, if_neg hfalse, isDatetime_eq_false hdigits,
    integer?_eq_some hdigits (wholeDigits?_toDigits n) (by rwa [hnumber]), hnumber]
  rfl

theorem writes_toString_nat {n : Nat} (hn : Decimal.fitsInt64 n) :
    Writes (toString n).toList (.integer n) := by
  rw [Nat.toString_eq_repr, Nat.toList_repr]
  refine writes_word Nat.toDigits_ne_nil (fun c hc => ?_) (ofWord?_toDigits hn)
  simp [isWordChar, Char.isAlphanum, isDigit_of_mem_toDigits n c hc]

end TreeWalk.Toml
