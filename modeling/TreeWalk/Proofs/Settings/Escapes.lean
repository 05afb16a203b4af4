import Mathlib.Data.List.Infix
import TreeWalk.Settings.Environment

/-!
Escapes in a separator. The two replacements in the whole text, line feeds first and tabs after, are one reading
from left to right: a replacement leaves its own character where an escape stood, and that one is neither a
backslash nor the letter of an escape, so no escape comes up that was not there. What comes out holds no escape,
and reading it again changes nothing.
-/

namespace TreeWalk.Environment

/-- An escape stands at the start of a text or in what follows. -/
theorem escape_infix_cons_iff {letter c : Char} {s : List Char} :
    ['\\', letter] <:+: c :: s ↔ (c = '\\' ∧ s.head? = some letter) ∨ ['\\', letter] <:+: s := by
  rw [List.infix_cons_iff, List.cons_prefix_cons]
  cases s with
  | nil => simp
  | cons d s => simp [eq_comm]

/-! ### One replacement -/

section Replacement

variable {letter replacement : Char}

theorem replaceEscape_escape (s : List Char) :
    replaceEscape letter replacement ('\\' :: letter :: s) = replacement :: replaceEscape letter replacement s := by
  simp [replaceEscape]

theorem replaceEscape_cons {c : Char} {s : List Char} (h : ¬ (c = '\\' ∧ s.head? = some letter)) :
    replaceEscape letter replacement (c :: s) = c :: replaceEscape letter replacement s := by
  cases s with
  | nil => rfl
  | cons d s =>
      rw [List.head?_cons, Option.some.injEq] at h
      simp [replaceEscape, h]

/-- A text starts with an escape, or it keeps its first character. -/
theorem replaceEscape_cases (letter replacement c : Char) (s : List Char) :
    (∃ rest, c = '\\' ∧ s = letter :: rest) ∨
      (¬ (c = '\\' ∧ s.head? = some letter) ∧
        replaceEscape letter replacement (c :: s) = c :: replaceEscape letter replacement s) := by
  by_cases h : c = '\\' ∧ s.head? = some letter
  · obtain ⟨rest, hrest⟩ := List.head?_eq_some_iff.mp h.2
    exact Or.inl ⟨rest, h.1, hrest⟩
  · exact Or.inr ⟨h, replaceEscape_cons h⟩

/-- What comes out starts with the replacement or as the text does. -/
theorem head?_of_head?_replaceEscape {s : List Char} {c : Char} (hc : c ≠ replacement)
    (h : (replaceEscape letter replacement s).head? = some c) : s.head? = some c := by
  cases s with
  | nil => exact h
  | cons d s =>
      rcases replaceEscape_cases letter replacement d s with ⟨rest, rfl, rfl⟩ | ⟨-, heq⟩
      · rw [replaceEscape_escape] at h
        exact absurd (Option.some.inj h).symm hc
      · rw [heq] at h
        exact h

/-- What comes out holds no escape of the letter, and none of another letter that was not there. The induction
is on the length, since an escape takes two characters away. -/
theorem not_infix_replaceEscape {other : Char} (hother : other ≠ replacement) (hbackslash : '\\' ≠ replacement)
    {s : List Char} (h : other = letter ∨ ¬ ['\\', other] <:+: s) :
    ¬ ['\\', other] <:+: replaceEscape letter replacement s := by
  induction hlength : s.length using Nat.strong_induction_on generalizing s with
  | _ length ih =>
      subst hlength
      cases s with
      | nil => simp [replaceEscape]
      | cons c s =>
          rcases replaceEscape_cases letter replacement c s with ⟨rest, rfl, rfl⟩ | ⟨hescape, heq⟩
          · rw [replaceEscape_escape, escape_infix_cons_iff, not_or]
            have hshorter : rest.length < ('\\' :: letter :: rest).length := by
              rw [List.length_cons, List.length_cons]
              omega
            refine ⟨fun hstart => hbackslash hstart.1.symm, ih rest.length hshorter ?_ rfl⟩
            exact h.imp_right fun h hinside => h (hinside.trans (List.suffix_append ['\\', letter] rest).isInfix)
          · rw [escape_infix_cons_iff, not_or] at h
            rw [heq, escape_infix_cons_iff, not_or]
            refine ⟨fun hstart => ?_, ih s.length (by simp) (h.imp_right And.right) rfl⟩
            have hhead := head?_of_head?_replaceEscape hother hstart.2
            rcases h with rfl | h
            · exact hescape ⟨hstart.1, hhead⟩
            · exact h.1 ⟨hstart.1, hhead⟩

/-- Where there is no escape, nothing is replaced. -/
theorem replaceEscape_eq_self {s : List Char} (h : ¬ ['\\', letter] <:+: s) :
    replaceEscape letter replacement s = s := by
  induction s with
  | nil => rfl
  | cons c s ih =>
      rw [escape_infix_cons_iff, not_or] at h
      rw [replaceEscape_cons h.1, ih h.2]

end Replacement

/-! ### Both replacements -/

/-- Reads a text from left to right: a backslash with `n` is a line feed, one with `t` is a tab, and every other
character stands for itself. -/
def readEscapes : List Char → List Char
  | [] => []
  | '\\' :: 'n' :: s => '\n' :: readEscapes s
  | '\\' :: 't' :: s => '\t' :: readEscapes s
  | c :: s => c :: readEscapes s

/-- Replacing one escape after the other reads both: a tab could only come up behind the line feed of an
escape. -/
theorem replaceEscape_replaceEscape (s : List Char) :
    replaceEscape 't' '\t' (replaceEscape 'n' '\n' s) = readEscapes s := by
  fun_induction readEscapes s with
  | case1 => rfl
  | case2 s ih => rw [replaceEscape_escape, replaceEscape_cons (by simp), ih]
  | case3 s ih =>
      have hkept : replaceEscape 'n' '\n' ('\\' :: 't' :: s) = '\\' :: 't' :: replaceEscape 'n' '\n' s := by
        rw [replaceEscape_cons (by simp), replaceEscape_cons (by simp)]
      rw [hkept, replaceEscape_escape, ih]
  | case4 c s hfeed htab ih =>
      have hn : ¬ (c = '\\' ∧ s.head? = some 'n') := by
        rintro ⟨rfl, hhead⟩
        obtain ⟨rest, rfl⟩ := List.head?_eq_some_iff.mp hhead
        exact hfeed rest rfl rfl
      have ht : ¬ (c = '\\' ∧ (replaceEscape 'n' '\n' s).head? = some 't') := by
        rintro ⟨rfl, hhead⟩
        obtain ⟨rest, rfl⟩ := List.head?_eq_some_iff.mp (head?_of_head?_replaceEscape (by decide) hhead)
        exact htab rest rfl rfl
      rw [replaceEscape_cons hn, replaceEscape_cons ht, ih]

theorem not_infix_toList_unescape (s : String) :
    ¬ ['\\', 'n'] <:+: (unescape s).toList ∧ ¬ ['\\', 't'] <:+: (unescape s).toList := by
  rw [unescape, String.toList_ofList]
  constructor
  · apply not_infix_replaceEscape (by decide) (by decide)
    exact Or.inr (not_infix_replaceEscape (by decide) (by decide) (Or.inl rfl))
  · exact not_infix_replaceEscape (by decide) (by decide) (Or.inl rfl)

theorem unescape_eq_self {s : String} (hfeed : ¬ ['\\', 'n'] <:+: s.toList) (htab : ¬ ['\\', 't'] <:+: s.toList) :
    unescape s = s := by
  rw [unescape, replaceEscape_eq_self hfeed, replaceEscape_eq_self htab, String.ofList_toList]

/-- Where nothing comes out that an escape stands for, the text is as it was. -/
theorem readEscapes_eq_self {s : List Char} (hfeed : '\n' ∉ readEscapes s) (htab : '\t' ∉ readEscapes s) :
    readEscapes s = s := by
  fun_induction readEscapes s with
  | case1 => rfl
  | case2 s ih => exact absurd List.mem_cons_self hfeed
  | case3 s ih => exact absurd List.mem_cons_self htab
  | case4 c s _ _ ih => rw [ih (List.not_mem_of_not_mem_cons hfeed) (List.not_mem_of_not_mem_cons htab)]

theorem unescape_eq_of_not_mem {s : String} (h : '\\' ∉ s.toList) : unescape s = s :=
  unescape_eq_self (fun hinside => h (hinside.subset (by simp))) fun hinside => h (hinside.subset (by simp))

/-- A text without backslashes, line feeds and tabs comes out for itself alone. -/
theorem unescape_eq_unescape_iff {s s' : String} (hbackslash : '\\' ∉ s.toList) (hfeed : '\n' ∉ s.toList)
    (htab : '\t' ∉ s.toList) : unescape s = unescape s' ↔ s = s' := by
  refine ⟨fun h => ?_, fun h => h ▸ rfl⟩
  rw [unescape_eq_of_not_mem hbackslash, unescape, replaceEscape_replaceEscape] at h
  have htext : s.toList = readEscapes s'.toList := by rw [h, String.toList_ofList]
  rw [htext] at hfeed htab
  rw [h, readEscapes_eq_self hfeed htab, String.ofList_toList]

/-- The two replacements in the whole text are one reading of it from left to right. What comes out holds neither
of the escapes, and the same done to it again changes nothing. -/
theorem unescape_eq_readEscapes (s : String) :
    unescape s = String.ofList (readEscapes s.toList) ∧
      ¬ ['\\', 'n'] <:+: (unescape s).toList ∧ ¬ ['\\', 't'] <:+: (unescape s).toList ∧
      unescape (unescape s) = unescape s := by
  obtain ⟨hfeed, htab⟩ := not_infix_toList_unescape s
  refine ⟨?_, hfeed, htab, unescape_eq_self hfeed htab⟩
  rw [unescape, replaceEscape_replaceEscape]

end TreeWalk.Environment
