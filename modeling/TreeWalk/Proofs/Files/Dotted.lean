import Mathlib.Data.List.TakeWhile
import TreeWalk.Settings.Load

/-!
Paths with a dot in front. Behind `./` a relative path leads to the same place, as long as it is not too
long. Its directory is the directory of the path, again with `./` in front; only a path that is a bare name,
whose directory is empty, and a directory that is the dot itself have the dot as theirs.
-/

namespace TreeWalk

namespace Path

/-! ### Parts -/

theorem parts_ne_nil (path : String) : parts path ≠ [] := by
  simp [parts, Text.splitAt_ne_nil]

theorem parts_slash (path : String) : parts ("/" ++ path) = "" :: parts path := by
  simp [parts, Text.splitAt]

theorem parts_dot_slash (path : String) : parts ("./" ++ path) = "." :: parts path := by
  simp [parts, Text.splitAt]

/-! ### Directories -/

/-- The parts of the directory, nothing if no part leads anywhere. -/
def above? (names : List String) : Option (List String) :=
  match names.reverse.dropWhile isIdle with
  | _ :: above => some (above.dropWhile isIdle).reverse
  | [] => none

theorem parent?_of_splitStart {path start body : String} (h : splitStart path = (start, body)) :
    parent? path =
      match above? (parts body) with
      | some above => some (start ++ "/".intercalate above)
      | none => if start = "." then some "" else none := by
  simp only [parent?, h, above?]
  cases (parts body).reverse.dropWhile isIdle <;> rfl

theorem splitStart_dot_slash (path : String) : splitStart ("./" ++ path) = (".", "/" ++ path) := by
  simp [splitStart]

theorem dropWhile_append_idle {part : String} (hpart : isIdle part) (names : List String) :
    (names ++ [part]).dropWhile isIdle =
      if names.dropWhile isIdle = [] then [] else names.dropWhile isIdle ++ [part] := by
  rw [List.dropWhile_append]
  simp [hpart]

/-- A part in front that leads nowhere stands in front of the directory, unless that is empty. -/
theorem above?_cons_idle {part : String} (hpart : isIdle part) (names : List String) :
    above? (part :: names) = (above? names).map fun above => if above = [] then [] else part :: above := by
  rw [above?, above?, List.reverse_cons, dropWhile_append_idle hpart]
  cases names.reverse.dropWhile isIdle with
  | nil => rfl
  | cons name above =>
      simp only [List.cons_append, reduceCtorEq, if_false, dropWhile_append_idle hpart, Option.map_some]
      cases habove : above.dropWhile isIdle with
      | nil => simp
      | cons last more => simp

theorem prefix_of_above? {names above : List String} (h : above? names = some above) : above <+: names := by
  rw [above?] at h
  split at h
  · rename_i name rest hdrop
    cases h
    have hrest : rest <:+ names.reverse :=
      (List.suffix_cons name rest).trans (hdrop ▸ List.dropWhile_suffix isIdle)
    exact List.reverse_suffix.mp (by simpa using (List.dropWhile_suffix isIdle).trans hrest)
  · cases h

theorem above?_ne_none {names : List String} {name : String} (hname : name ∈ names)
    (hidle : isIdle name = false) : above? names ≠ none := by
  have hdrop : names.reverse.dropWhile isIdle ≠ [] := fun hnil => by
    have hall := List.dropWhile_eq_nil_iff.mp hnil name (List.mem_reverse.mpr hname)
    rw [hidle] at hall
    cases hall
  obtain ⟨last, above, hcons⟩ := List.exists_cons_of_ne_nil hdrop
  simp [above?, hcons]

theorem isIdle_ofList_cons {c : Char} {cs : List Char} (h : c ≠ '.' ∨ cs ≠ []) :
    isIdle (String.ofList (c :: cs)) = false := by
  simp only [isIdle, Bool.or_eq_false_iff, decide_eq_false_iff_not, ← String.toList_inj, String.toList_ofList]
  have hdot : ".".toList = ['.'] := rfl
  refine ⟨by simp, fun heq => ?_⟩
  obtain ⟨rfl, rfl⟩ := List.cons.inj (hdot ▸ heq)
  simp at h

/-- A relative path is the dot, starts with `./`, or starts with a part that leads somewhere. -/
theorem relative_cases {path : String} (hne : path ≠ "") (hrelative : isAbsolute path = false) :
    path = "." ∨ (∃ rest, path = "./" ++ rest) ∨
      splitStart path = ("", path) ∧ ∃ c cs more, parts path = String.ofList (c :: cs) :: more ∧ c ≠ '/' ∧
        isIdle (String.ofList (c :: cs)) = false := by
  obtain ⟨c, cs, hpath⟩ := List.exists_cons_of_ne_nil (mt String.toList_eq_nil_iff.mp hne)
  have hslash : c ≠ '/' := by
    rintro rfl
    simp [isAbsolute, hpath] at hrelative
  obtain ⟨first, more, hrest, hsplit⟩ := Text.splitAt_cons_of_ne hslash cs
  have hparts : parts path = String.ofList (c :: first) :: more.map String.ofList := by
    rw [parts, hpath, hsplit, List.map_cons]
  by_cases hidle : c = '.' ∧ first = []
  · obtain ⟨rfl, rfl⟩ := hidle
    rcases Text.eq_nil_or_of_splitAt hrest with rfl | ⟨rest, rfl⟩
    · exact Or.inl (String.toList_inj.mp hpath)
    · exact Or.inr (Or.inl ⟨String.ofList rest, String.toList_inj.mp (by simp [hpath])⟩)
  · refine Or.inr (Or.inr ⟨?_, c, first, _, hparts, hslash, isIdle_ofList_cons (not_and_or.mp hidle)⟩)
    unfold splitStart
    split
    · rename_i heq
      exact absurd (List.cons.inj (hpath ▸ heq)).1 hslash
    · rename_i heq
      obtain ⟨rfl, rfl⟩ := List.cons.inj (hpath ▸ heq)
      exact absurd ⟨rfl, (List.cons.inj hrest).1.symm⟩ hidle
    · rename_i heq
      obtain ⟨rfl, rfl⟩ := List.cons.inj (hpath ▸ heq)
      exact absurd ⟨rfl, (List.cons.inj hrest).1.symm⟩ hidle
    · rfl

/-- Behind `./` the directory of a path gets `./` in front as well, unless it is the dot, and the directory of
a bare name is the dot. -/
theorem parent?_dot_slash {path : String} (hne : path ≠ "") (hrelative : isAbsolute path = false) :
    ∃ d, parent? path = some d ∧ isAbsolute d = false ∧
      (parent? ("./" ++ path) = some d ∨
        d = "" ∧ parent? ("./" ++ path) = some "." ∨
        d ≠ "" ∧ parent? ("./" ++ path) = some ("./" ++ d)) := by
  have hdotted := parent?_of_splitStart (splitStart_dot_slash path)
  rw [parts_slash, above?_cons_idle (by decide)] at hdotted
  rcases relative_cases hne hrelative with rfl | ⟨rest, rfl⟩ | ⟨hstart, c, cs, more, hparts, hslash, hidle⟩
  · exact ⟨"", by decide, by decide, Or.inl (by decide)⟩
  · have hplain := parent?_of_splitStart (splitStart_dot_slash rest)
    rw [parts_slash, above?_cons_idle (by decide)] at hplain
    rw [parts_dot_slash, above?_cons_idle (by decide)] at hdotted
    cases habove : above? (parts rest) with
    | none =>
        simp only [habove, Option.map_none, if_true] at hplain hdotted
        exact ⟨"", hplain, by decide, Or.inl hdotted⟩
    | some above =>
        cases above with
        | nil =>
            simp only [habove, Option.map_some, if_true] at hplain hdotted
            exact ⟨".", hplain, by decide, Or.inl hdotted⟩
        | cons name names =>
            simp only [habove, Option.map_some, reduceCtorEq, if_false] at hplain hdotted
            refine ⟨_, hplain, by simp [isAbsolute], Or.inr (Or.inr ⟨by simp, hdotted.trans ?_⟩)⟩
            simp [String.intercalate_cons_cons, ← String.toList_inj]
  · have hplain := parent?_of_splitStart hstart
    obtain ⟨above, habove⟩ := Option.ne_none_iff_exists'.mp
      (above?_ne_none (hparts ▸ List.mem_cons_self) hidle)
    cases above with
    | nil =>
        simp only [habove, Option.map_some, if_true] at hplain hdotted
        exact ⟨"", hplain, by decide, Or.inr (Or.inl ⟨rfl, hdotted⟩)⟩
    | cons name names =>
        simp only [habove, Option.map_some, reduceCtorEq, if_false] at hplain hdotted
        obtain rfl : name = String.ofList (c :: cs) := by
          have hprefix := prefix_of_above? habove
          rw [hparts] at hprefix
          exact (List.cons_prefix_cons.mp hprefix).1
        refine ⟨_, hplain, ?_, Or.inr (Or.inr ⟨?_, hdotted.trans ?_⟩)⟩
        · cases names <;> simp [isAbsolute, String.toList_intercalate, hslash]
        · cases names <;> simp [← String.toList_inj, String.toList_intercalate]
        · simp [String.intercalate_cons_cons, ← String.toList_inj]

theorem join_dot_slash {directory : String} (h : directory ≠ "") (name : String) :
    join ("./" ++ directory) name = "./" ++ join directory name := by
  obtain ⟨c, cs, hdirectory⟩ := List.exists_cons_of_ne_nil (mt String.toList_eq_nil_iff.mp h)
  have hlast : ("./" ++ directory).toList.getLast? = directory.toList.getLast? := by
    simp [hdirectory, List.getLast?_cons]
  have hne : "./" ++ directory ≠ "" := by simp
  simp only [join, hlast, h, hne, decide_false, Bool.false_or]
  split <;> simp [String.append_assoc]

theorem isAbsolute_join {directory : String} (h : directory ≠ "") (name : String) :
    isAbsolute (join directory name) = isAbsolute directory := by
  obtain ⟨c, cs, hdirectory⟩ := List.exists_cons_of_ne_nil (mt String.toList_eq_nil_iff.mp h)
  rw [join]
  split <;> simp [isAbsolute, hdirectory]

end Path

/-! ### Disks -/

/-- A relative path leads to the same place behind `./`, unless it gets too long. -/
def Disk.IgnoresDot (disk : Disk) : Prop :=
  ∀ path, path ≠ "" → Path.isAbsolute path = false → ("./" ++ path).utf8ByteSize < FileTree.pathLimit →
    disk ("./" ++ path) = disk path

namespace FileTree

theorem follow_dot (root : FileTree) (here : List String) {parts : List String} (h : parts ≠ []) :
    follow root here ("." :: parts) = follow root here parts := by
  obtain ⟨part, rest, rfl⟩ := List.exists_cons_of_ne_nil h
  rw [follow]
  cases hfind : root.find? here.reverse with
  | none => rw [follow, hfind]
  | some tree =>
      cases tree with
      | file content => rw [follow, hfind]
      | directory entries => rfl

theorem ignoresDot_disk (root : FileTree) (working : List String) : (disk root working).IgnoresDot := by
  intro path hne hrelative hlength
  have hshort : ¬pathLimit ≤ path.utf8ByteSize := by
    rw [String.utf8ByteSize_append] at hlength
    omega
  have hdotted : Path.isAbsolute ("./" ++ path) = false := by simp [Path.isAbsolute]
  have hne' : "./" ++ path ≠ "" := by simp
  have hnul : '\x00' ∈ ("./" ++ path).toList ↔ '\x00' ∈ path.toList := by simp
  simp only [disk, hnul, hne, hne', hshort, Nat.not_le.mpr hlength, hdotted, hrelative, if_false,
    Path.parts_dot_slash, follow_dot _ _ (Path.parts_ne_nil path)]

end FileTree

end TreeWalk
