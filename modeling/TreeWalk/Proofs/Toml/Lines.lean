import TreeWalk.Proofs.Toml.Quotation
import TreeWalk.Toml.Reader

/-!
Texts that consist of lines. A line is a piece of text that is read the same way whatever stands behind
it, as one statement or as a refusal. Reading a document made of lines reads each of them, and is refused
as soon as one of them is. Behind the lines there may be one more field, whose line does not end.
-/

namespace TreeWalk.Toml

/-! ### Line ends -/

theorem normalizeLineEnds_eq_self {cs : List Char} (h : '\r' ∉ cs) : normalizeLineEnds cs = cs := by
  fun_induction normalizeLineEnds cs with
  | case1 => rfl
  | case2 rest => exact absurd List.mem_cons_self h
  | case3 c rest _ ih => rw [ih fun hrest => h (List.mem_cons_of_mem c hrest)]

theorem dropByteOrderMark_eq_self {cs : List Char} (h : cs.head? ≠ some '\uFEFF') :
    dropByteOrderMark cs = cs := by
  unfold dropByteOrderMark
  split
  · exact absurd rfl h
  · rfl

/-! ### Keys -/

/-- A part of a key that needs no quotes. -/
structure IsBareKey (word : List Char) : Prop where
  ne_nil : word ≠ []
  isBareKeyChar : ∀ c ∈ word, isBareKeyChar c

instance (word : List Char) : Decidable (IsBareKey word) :=
  decidable_of_iff (word ≠ [] ∧ word.all isBareKeyChar) <| by
    rw [List.all_eq_true]
    exact ⟨fun h => ⟨h.1, h.2⟩, fun h => ⟨h.ne_nil, h.isBareKeyChar⟩⟩

theorem isBareKeyChar_ne {c d : Char} (hc : isBareKeyChar c) (hd : ¬ isBareKeyChar d) : c ≠ d := by
  rintro rfl
  exact hd hc

theorem isSpace_eq_false {c : Char} (hc : isBareKeyChar c) : isSpace c = false := by
  have hblank := isBareKeyChar_ne hc (d := ' ') (by decide)
  have htab := isBareKeyChar_ne hc (d := '\t') (by decide)
  simp [isSpace, hblank, htab]

namespace IsBareKey

variable {word : List Char}

theorem exists_cons (h : IsBareKey word) : ∃ c tail, word = c :: tail ∧ Toml.isBareKeyChar c := by
  obtain ⟨c, tail, rfl⟩ := List.exists_cons_of_ne_nil h.ne_nil
  exact ⟨c, tail, rfl, h.isBareKeyChar c List.mem_cons_self⟩

theorem skipSpaces_append (h : IsBareKey word) (rest : List Char) :
    skipSpaces (word ++ rest) = word ++ rest := by
  obtain ⟨c, tail, rfl, hc⟩ := h.exists_cons
  simp [skipSpaces, isSpace_eq_false hc]

theorem readKeyPart_append (h : IsBareKey word) {c : Char} (hc : ¬ Toml.isBareKeyChar c)
    (rest : List Char) :
    readKeyPart (word ++ c :: rest) = some (String.ofList word, c :: rest) := by
  have htake : (word ++ c :: rest).takeWhile Toml.isBareKeyChar = word := by
    rw [List.takeWhile_append_of_pos h.isBareKeyChar, List.takeWhile_cons_of_neg hc, List.append_nil]
  have hdrop : (word ++ c :: rest).dropWhile Toml.isBareKeyChar = c :: rest := by
    rw [List.dropWhile_append_of_pos h.isBareKeyChar, List.dropWhile_cons_of_neg hc]
  obtain ⟨first, tail, rfl, hfirst⟩ := h.exists_cons
  unfold readKeyPart
  split
  · rename_i heq
    cases heq
    exact absurd hfirst (by decide)
  · rename_i heq
    cases heq
    exact absurd hfirst (by decide)
  · rw [htake, hdrop]
    rfl

/-- The last part of a key ends before anything but a dot. -/
theorem readKeyParts_last (h : IsBareKey word) {c : Char} (hc : ¬ Toml.isBareKeyChar c)
    {rest : List Char} (hdot : (skipSpaces (c :: rest)).head? ≠ some '.') (parts : Nat) :
    readKeyParts (parts + 1) (word ++ c :: rest) =
      some ([String.ofList word], skipSpaces (c :: rest)) := by
  rw [readKeyParts, h.skipSpaces_append, h.readKeyPart_append hc]
  simp only [Option.bind_eq_bind, Option.bind_some]
  split
  · rename_i heq
    rw [heq] at hdot
    exact absurd rfl hdot
  · rfl

theorem readKeyParts_dot (h : IsBareKey word) (parts : Nat) (rest : List Char) :
    readKeyParts (parts + 1) (word ++ '.' :: rest) =
      (readKeyParts parts rest).map fun (more, rest) => (String.ofList word :: more, rest) := by
  have hspaces : skipSpaces ('.' :: rest) = '.' :: rest := by simp [skipSpaces, isSpace]
  rw [readKeyParts, h.skipSpaces_append, h.readKeyPart_append (by decide)]
  simp only [Option.bind_eq_bind, Option.bind_some, hspaces]
  cases readKeyParts parts rest <;> rfl

theorem skipLines_append (h : IsBareKey word) (rest : List Char) :
    skipLines false (word ++ rest) = some (word ++ rest) := by
  obtain ⟨c, tail, rfl, hc⟩ := h.exists_cons
  have hfeed := isBareKeyChar_ne hc (d := '\n') (by decide)
  have hcomment := isBareKeyChar_ne hc (d := '#') (by decide)
  simp [skipLines, isSpace_eq_false hc, hfeed, hcomment]

theorem readStatement_append (h : IsBareKey word) (rest : List Char) :
    readStatement (word ++ rest) = readField (word ++ rest) := by
  obtain ⟨c, tail, rfl, hc⟩ := h.exists_cons
  have hbracket := isBareKeyChar_ne hc (d := '[') (by decide)
  rw [List.cons_append, readStatement]
  · intro _ htext
    exact hbracket (List.cons.inj htext).1
  · intro _ htext
    exact hbracket (List.cons.inj htext).1

end IsBareKey

/-! ### Values -/

theorem exists_cons_writeString (s : List Char) :
    ∃ quote tail, writeString s = quote :: tail ∧ (quote = '"' ∨ quote = '\'') := by
  unfold writeString
  cases quoting s <;> simp

/-- The end of a line, or of the whole text. -/
inductive EndsLine : List Char → Prop where
  | feed (rest : List Char) : EndsLine ('\n' :: rest)
  | nil : EndsLine []

/-- A text that writes a value: it starts with no blank and holds no carriage return, and at the end of a
line it is read as the value. -/
structure Writes (text : List Char) (v : Value) : Prop where
  start : ∃ c tail, text = c :: tail ∧ isSpace c = false
  return_not_mem : '\r' ∉ text
  reads : ∀ (fuel depth : Nat) {rest : List Char}, EndsLine rest →
    readValue (fuel + 1) depth (text ++ rest) = some (v, rest)

theorem writes_writeString (s : String) : Writes (writeString s.toList) (.string s) := by
  obtain ⟨quote, tail, htext, hquote⟩ := exists_cons_writeString s.toList
  refine ⟨⟨quote, tail, htext, ?_⟩, return_not_mem_writeString s.toList, fun fuel depth rest hrest => ?_⟩
  · rcases hquote with rfl | rfl <;> rfl
  · have hread : readString (writeString s.toList ++ rest) = some (String.ofList s.toList, rest) := by
      cases hrest <;> exact readString_writeString s.toList (by simp) (by simp)
    rw [String.ofList_toList, htext, List.cons_append] at hread
    rw [htext, List.cons_append]
    rcases hquote with rfl | rfl <;> rw [readValue, hread] <;> rfl

/-! ### Fields -/

/-- A field without the end of its line. -/
def openField (key : String) (text : List Char) : List Char := key.toList ++ ' ' :: '=' :: ' ' :: text

theorem writeField_eq_openField (key : String) (text : List Char) :
    writeField key text = openField key text ++ ['\n'] := by
  simp [writeField, openField]

section OpenField

variable {key : String} (hkey : IsBareKey key.toList) {text : List Char} {v : Value}
include hkey

theorem openField_ne_nil (text : List Char) : openField key text ≠ [] :=
  List.append_ne_nil_of_left_ne_nil hkey.ne_nil _

theorem skipLines_openField (text rest : List Char) :
    skipLines false (openField key text ++ rest) = some (openField key text ++ rest) := by
  rw [openField, List.append_assoc, hkey.skipLines_append]

theorem return_not_mem_openField (h : Writes text v) : '\r' ∉ openField key text := by
  have hreturn : '\r' ∉ key.toList := fun hmem => absurd (hkey.isBareKeyChar '\r' hmem) (by decide)
  simp [openField, hreturn, h.return_not_mem]

/-- A field is read up to the end of its line. -/
theorem readField_openField (h : Writes text v) {rest : List Char} (hrest : EndsLine rest) :
    readField (openField key text ++ rest) = (endLine rest).map fun rest => (.field [] key v, rest) := by
  have htext : openField key text ++ rest = key.toList ++ ' ' :: '=' :: ' ' :: (text ++ rest) := by
    simp [openField]
  have hread : readKey (key.toList ++ ' ' :: '=' :: ' ' :: (text ++ rest)) =
      some (([], key), '=' :: ' ' :: (text ++ rest)) := by
    rw [readKey, nestingLimit, hkey.readKeyParts_last (by decide) (by simp [skipSpaces, isSpace])]
    simp [skipSpaces, isSpace]
  have hvalue : skipSpaces (' ' :: (text ++ rest)) = text ++ rest := by
    obtain ⟨c, tail, rfl, hc⟩ := h.start
    have hblank : isSpace ' ' = true := rfl
    simp [skipSpaces, hblank, hc]
  rw [htext, readField, hread]
  simp only [Option.bind_eq_bind, Option.bind_some, expect, if_true, hvalue, h.reads _ _ hrest]
  cases endLine rest <;> rfl

theorem readStatement_openField (h : Writes text v) {rest : List Char} (hrest : EndsLine rest) :
    readStatement (openField key text ++ rest) =
      (endLine rest).map fun rest => (.field [] key v, rest) := by
  rw [← readField_openField hkey h hrest, openField, List.append_assoc, hkey.readStatement_append]

end OpenField

theorem readField_writeField {key : String} (hkey : IsBareKey key.toList) (s rest : List Char) :
    readField (writeField key (writeString s) ++ rest) =
      some (.field [] key (.string (String.ofList s)), rest) := by
  have hwrites := writes_writeString (String.ofList s)
  rw [String.toList_ofList] at hwrites
  rw [writeField_eq_openField, List.append_assoc]
  exact readField_openField hkey hwrites (.feed rest)

/-! ### Lines -/

/-- A piece of text that is read as one statement, or refused, in front of any other text. -/
structure Line where
  text : List Char
  statement : Option Statement
  reads : ∀ rest, ∃ cs, skipLines false (text ++ rest) = some cs ∧ cs ≠ [] ∧
    readStatement cs = statement.map fun statement => (statement, rest)

namespace Line

theorem text_ne_nil (line : Line) : line.text ≠ [] := by
  intro hnil
  obtain ⟨cs, hskip, hcs, -⟩ := line.reads []
  rw [hnil] at hskip
  exact hcs (Option.some.inj hskip).symm

theorem length_le_length_flatMap (lines : List Line) : lines.length ≤ (lines.flatMap text).length := by
  induction lines with
  | nil => exact Nat.le_refl 0
  | cons line lines ih =>
      have hpos := List.length_pos_of_ne_nil line.text_ne_nil
      rw [List.flatMap_cons, List.length_append, List.length_cons]
      omega

/-- A line that gives a bare key a value. -/
def value (key : String) (hkey : IsBareKey key.toList) {text : List Char} {v : Value} (h : Writes text v) :
    Line where
  text := writeField key text
  statement := some (.field [] key v)
  reads rest := by
    refine ⟨openField key text ++ '\n' :: rest, ?_, ?_, ?_⟩
    · rw [writeField_eq_openField, List.append_assoc]
      exact skipLines_openField hkey text _
    · exact List.append_ne_nil_of_left_ne_nil (openField_ne_nil hkey text) _
    · exact readStatement_openField hkey h (.feed rest)

theorem return_not_mem_value {key : String} (hkey : IsBareKey key.toList) {text : List Char} {v : Value}
    (h : Writes text v) : '\r' ∉ (value key hkey h).text := by
  simp [value, writeField_eq_openField, return_not_mem_openField hkey h]

/-- A line that gives a bare key a string. -/
def field (key : String) (hkey : IsBareKey key.toList) (s : String) : Line where
  text := writeField key (writeString s.toList)
  statement := some (.field [] key (.string s))
  reads := (value key hkey (writes_writeString s)).reads

end Line

/-- All lines of a text are read, or the text is refused with one of them; what stands behind them is then
read as if it stood alone. -/
theorem readStatements_lines_append (lines : List Line) (tail : List Char) {fuel : Nat}
    (hfuel : lines.length < fuel) :
    readStatements fuel (lines.flatMap Line.text ++ tail) =
      lines.mapM Line.statement >>= fun front =>
        (readStatements (fuel - lines.length) tail).map (front ++ ·) := by
  induction lines generalizing fuel with
  | nil => simp
  | cons line lines ih =>
      obtain ⟨fuel, rfl⟩ : ∃ k, fuel = k + 1 := ⟨fuel - 1, by omega⟩
      obtain ⟨cs, hskip, hcs, hread⟩ := line.reads (lines.flatMap Line.text ++ tail)
      have htail := @ih fuel (by simpa using hfuel)
      rw [List.flatMap_cons, List.append_assoc, readStatements, hskip, List.mapM_cons, List.length_cons,
        Nat.add_sub_add_right]
      cases hstatement : line.statement with
      | none => simp_all
      | some statement =>
          simp only [Option.bind_eq_bind, Option.bind_some, hread, hstatement, Option.map_some, htail]
          cases lines.mapM Line.statement with
          | none => simp_all
          | some front => cases readStatements (fuel - lines.length) tail <;> simp_all

theorem readStatements_lines (lines : List Line) {fuel : Nat} (hfuel : lines.length < fuel) :
    readStatements fuel (lines.flatMap Line.text) = lines.mapM Line.statement := by
  have hread := readStatements_lines_append lines [] hfuel
  obtain ⟨k, hk⟩ : ∃ k, fuel - lines.length = k + 1 := ⟨fuel - lines.length - 1, by omega⟩
  rw [List.append_nil, hk] at hread
  rw [hread]
  cases lines.mapM Line.statement <;> simp [readStatements, skipLines]

theorem parse?_ofList {cs : List Char} (hreturn : '\r' ∉ cs) (hmark : cs.head? ≠ some '\uFEFF') :
    parse? (String.ofList cs) = readStatements (cs.length + 1) cs >>= assemble := by
  simp only [parse?, String.toList_ofList, dropByteOrderMark_eq_self hmark,
    normalizeLineEnds_eq_self hreturn]

theorem Line.return_not_mem_flatMap {lines : List Line} (h : ∀ line ∈ lines, '\r' ∉ line.text) :
    '\r' ∉ lines.flatMap Line.text := by
  rw [List.mem_flatMap]
  rintro ⟨line, hline, hmem⟩
  exact h line hline hmem

theorem parse?_lines {lines : List Line} (hreturn : ∀ line ∈ lines, '\r' ∉ line.text)
    (hmark : (lines.flatMap Line.text).head? ≠ some '\uFEFF') :
    parse? (String.ofList (lines.flatMap Line.text)) = lines.mapM Line.statement >>= assemble := by
  have hfuel := Nat.lt_succ_of_le (Line.length_le_length_flatMap lines)
  rw [parse?_ofList (Line.return_not_mem_flatMap hreturn) hmark, readStatements_lines lines hfuel]

/-! ### A field at the end of the text -/

theorem readStatements_openField {key : String} (hkey : IsBareKey key.toList) {text : List Char} {v : Value}
    (h : Writes text v) (fuel : Nat) :
    readStatements (fuel + 2) (openField key text) = some [.field [] key v] := by
  have hskip := skipLines_openField hkey text []
  have hread : readStatement (openField key text ++ []) = some (.field [] key v, []) :=
    readStatement_openField hkey h .nil
  obtain ⟨c, tail, hopen⟩ := List.exists_cons_of_ne_nil (openField_ne_nil hkey text)
  rw [List.append_nil, hopen] at hskip hread
  rw [hopen, readStatements, hskip]
  simp [hread, readStatements, skipLines]

/-- The last line of a text needs no end. -/
theorem parse?_lines_openField {lines : List Line} {key : String} (hkey : IsBareKey key.toList)
    {text : List Char} {v : Value} (h : Writes text v)
    (hreturn : ∀ line ∈ lines, '\r' ∉ line.text)
    (hmark : (lines.flatMap Line.text ++ openField key text).head? ≠ some '\uFEFF') :
    parse? (String.ofList (lines.flatMap Line.text ++ openField key text)) =
      lines.mapM Line.statement >>= fun front => assemble (front ++ [.field [] key v]) := by
  have htext : '\r' ∉ lines.flatMap Line.text ++ openField key text := by
    rw [List.mem_append, not_or]
    exact ⟨Line.return_not_mem_flatMap hreturn, return_not_mem_openField hkey h⟩
  have hlines := Line.length_le_length_flatMap lines
  have hlast := List.length_pos_of_ne_nil (openField_ne_nil hkey text)
  have hlength : (lines.flatMap Line.text ++ openField key text).length =
      (lines.flatMap Line.text).length + (openField key text).length := List.length_append
  obtain ⟨k, hk⟩ : ∃ k, (lines.flatMap Line.text ++ openField key text).length + 1 - lines.length = k + 2 :=
    Nat.exists_eq_add_of_le' (by omega)
  rw [parse?_ofList htext hmark, readStatements_lines_append lines _ (by omega), hk,
    readStatements_openField hkey h]
  cases lines.mapM Line.statement <;> rfl

end TreeWalk.Toml
