import TreeWalk.Proofs.Document.Assembly
import TreeWalk.Proofs.Toml.Lines
import TreeWalk.Proofs.Unfolding

/-!
Written tree documents read back. The text of a node is made of lines, each of which reads as the
statement it was written for, whatever characters the symbols hold. Only the header of a node too far
down is refused, since its key has too many parts, and then the whole document is. So a document reads
back as the tree it was written for exactly if the tree is less than 80 levels high.
-/

namespace TreeWalk.Document

open Toml (IsBareKey Line nestingLimit)

/-! ### The lines of a node -/

theorem childrenKey_succ_succ (depth : Nat) :
    childrenKey (depth + 2) = "children".toList ++ '.' :: childrenKey (depth + 1) := rfl

/-- The key of a header is read unless it has too many parts. -/
theorem readKeyParts_childrenKey (depth parts : Nat) (rest : List Char) :
    Toml.readKeyParts parts (childrenKey (depth + 1) ++ ']' :: rest) =
      if depth < parts then some (List.replicate (depth + 1) "children", ']' :: rest) else none := by
  have hkey : IsBareKey "children".toList := by decide
  induction depth generalizing parts with
  | zero =>
      cases parts with
      | zero => rw [Toml.readKeyParts, if_neg (Nat.not_lt_zero 0)]
      | succ parts =>
          have hspaces : Toml.skipSpaces (']' :: rest) = ']' :: rest := by
            simp [Toml.skipSpaces, Toml.isSpace]
          have hdot : (Toml.skipSpaces (']' :: rest)).head? ≠ some '.' := by simp [hspaces]
          have hread := hkey.readKeyParts_last (by decide) hdot parts
          rw [String.ofList_toList, hspaces] at hread
          rw [if_pos (Nat.zero_lt_succ parts)]
          exact hread
  | succ depth ih =>
      cases parts with
      | zero => rw [Toml.readKeyParts, if_neg (Nat.not_lt_zero (depth + 1))]
      | succ parts =>
          rw [childrenKey_succ_succ, List.append_assoc, List.cons_append,
            hkey.readKeyParts_dot, String.ofList_toList, ih]
          by_cases h : depth < parts
          · rw [if_pos h, if_pos (Nat.succ_lt_succ h)]
            rfl
          · rw [if_neg h, if_neg (fun hlt => h (Nat.lt_of_succ_lt_succ hlt))]
            rfl

theorem readKey_childrenKey (depth : Nat) (rest : List Char) :
    Toml.readKey (childrenKey (depth + 1) ++ ']' :: rest) =
      if depth + 1 < nestingLimit then
        some ((List.replicate depth "children", "children"), ']' :: rest)
      else none := by
  rw [Toml.readKey, readKeyParts_childrenKey]
  by_cases h : depth < nestingLimit - 1
  · rw [if_pos h, if_pos (Nat.add_lt_of_lt_sub h)]
    simp [List.getLast?_replicate]
  · rw [if_neg h, if_neg (fun hlt => h (Nat.lt_sub_of_add_lt hlt))]
    rfl

/-- The header of a node below the root, with the blank line before it. -/
def headerLine (depth : Nat) : Line where
  text := ['\n', '[', '['] ++ childrenKey (depth + 1) ++ [']', ']', '\n']
  statement :=
    if depth + 1 < nestingLimit then some (.row (List.replicate depth "children") "children") else none
  reads rest := by
    refine ⟨'[' :: '[' :: (childrenKey (depth + 1) ++ ']' :: ']' :: '\n' :: rest), ?_,
      List.cons_ne_nil _ _, ?_⟩
    · simp [Toml.skipLines, Toml.isSpace]
    · rw [Toml.readStatement, Toml.readRowHeader, readKey_childrenKey]
      split <;> rfl

def symbolLines (symbol : Symbol) : List Line :=
  .field "kind" (by decide) symbol.kind ::
    symbol.text.toList.map fun text => .field "text" (by decide) text

/-- The lines of a node at a depth. -/
def rowLines : Nat × Symbol → List Line
  | (0, symbol) => symbolLines symbol
  | (depth + 1, symbol) => headerLine depth :: symbolLines symbol

theorem flatMap_text_symbolLines (symbol : Symbol) :
    (symbolLines symbol).flatMap Line.text = writeSymbol symbol := by
  cases symbol with
  | mk kind text => cases text <;> simp [symbolLines, writeSymbol, Line.field]

theorem flatMap_text_rowLines (row : Nat × Symbol) : (rowLines row).flatMap Line.text = writeRow row := by
  match row with
  | (0, symbol) => exact flatMap_text_symbolLines symbol
  | (depth + 1, symbol) =>
      rw [rowLines, List.flatMap_cons, flatMap_text_symbolLines]
      rfl

theorem mapM_statement_symbolLines (symbol : Symbol) :
    (symbolLines symbol).mapM Line.statement = some (symbolStatements symbol) := by
  cases symbol with
  | mk kind text => cases text <;> rfl

/-- The lines of a node read as its statements, unless it lies too far down. -/
theorem mapM_statement_rowLines (row : Nat × Symbol) :
    (rowLines row).mapM Line.statement =
      if row.1 < nestingLimit then some (rowStatements row) else none := by
  match row with
  | (0, symbol) => exact mapM_statement_symbolLines symbol
  | (depth + 1, symbol) =>
      rw [rowLines, List.mapM_cons, mapM_statement_symbolLines, headerLine]
      by_cases h : depth + 1 < nestingLimit
      · simp [h, rowStatements]
      · simp [h]

theorem mapM_statement_flatMap_rowLines (rows : List (Nat × Symbol)) :
    (rows.flatMap rowLines).mapM Line.statement =
      if ∀ row ∈ rows, row.1 < nestingLimit then some (rows.flatMap rowStatements) else none := by
  induction rows with
  | nil => rfl
  | cons row rows ih =>
      rw [List.flatMap_cons, List.mapM_append, mapM_statement_rowLines, ih]
      simp only [List.forall_mem_cons]
      by_cases hrow : row.1 < nestingLimit
      · by_cases hrows : ∀ row ∈ rows, row.1 < nestingLimit
        · rw [if_pos hrow, if_pos hrows, if_pos ⟨hrow, hrows⟩]
          rfl
        · rw [if_pos hrow, if_neg hrows, if_neg (fun h => hrows h.2)]
          rfl
      · rw [if_neg hrow, if_neg (fun h : _ ∧ _ => hrow h.1)]
        rfl

/-! ### The document -/

theorem return_not_mem_childrenKey (depth : Nat) : '\r' ∉ childrenKey (depth + 1) := by
  induction depth with
  | zero => decide
  | succ depth ih =>
      rw [childrenKey_succ_succ, List.mem_append, List.mem_cons, not_or, not_or]
      exact ⟨by decide, by decide, ih⟩

theorem return_not_mem_text_field (key : String) (hkey : IsBareKey key.toList) (s : String) :
    '\r' ∉ (Line.field key hkey s).text :=
  Line.return_not_mem_value hkey (Toml.writes_writeString s)

theorem return_not_mem_text_rowLines {row : Nat × Symbol} {line : Line} (h : line ∈ rowLines row) :
    '\r' ∉ line.text := by
  have hsymbol : ∀ symbol, line ∈ symbolLines symbol → '\r' ∉ line.text := by
    intro symbol hline
    rcases List.mem_cons.mp hline with rfl | hline
    · exact return_not_mem_text_field _ _ _
    · obtain ⟨text, -, rfl⟩ := List.mem_map.mp hline
      exact return_not_mem_text_field _ _ _
  match row with
  | (0, symbol) => exact hsymbol symbol h
  | (depth + 1, symbol) =>
      rcases List.mem_cons.mp h with rfl | h
      · simp [headerLine, return_not_mem_childrenKey]
      · exact hsymbol symbol h

theorem write_eq_lines (t : Tree Symbol) :
    write t = String.ofList (((t.outline 0).flatMap rowLines).flatMap Line.text) := by
  rw [write, List.flatMap_assoc]
  simp only [flatMap_text_rowLines]

theorem head?_text_rowLines (t : Tree Symbol) :
    (((t.outline 0).flatMap rowLines).flatMap Line.text).head? = some 'k' := by
  cases t with
  | node symbol ts => rfl

/-- A written tree reads back if it is not too high, and as no document otherwise. -/
theorem parse_write (t : Tree Symbol) :
    parse (write t) = if t.height < nestingLimit then .ok t else .error .notToml := by
  have hreturn : ∀ line ∈ (t.outline 0).flatMap rowLines, '\r' ∉ line.text := by
    intro line hline
    obtain ⟨row, -, hrow⟩ := List.mem_flatMap.mp hline
    exact return_not_mem_text_rowLines hrow
  have hmark : (((t.outline 0).flatMap rowLines).flatMap Line.text).head? ≠ some '\uFEFF' := by
    rw [head?_text_rowLines]
    decide
  have hdepths : (∀ row ∈ t.outline 0, row.1 < nestingLimit) ↔ 0 + t.height < nestingLimit :=
    Tree.forall_mem_outline_lt_iff
  have htable : Toml.parse? (write t) =
      if t.height < nestingLimit then some (Toml.Item.toTable (entries t)) else none := by
    rw [write_eq_lines, Toml.parse?_lines hreturn hmark, mapM_statement_flatMap_rowLines]
    simp only [hdepths, Nat.zero_add]
    split
    · exact assemble_outline t
    · rfl
  by_cases h : t.height < nestingLimit
  · rw [if_pos h] at htable ⊢
    exact parse_eq_ok_iff.mpr ⟨_, htable, describe_entries t⟩
  · rw [if_neg h] at htable ⊢
    rw [parse, decode, htable]
    rfl

/-- The document of a node is the document of a tree that holds, at each address, the symbol of the node
there. It reads back as this tree if no way down takes more than 79 steps, and as no document if one
does. -/
theorem parse_write_unfold_iff {G : Graph Symbol} {root : G.Node} (h : G.AcyclicFrom root) :
    (∀ address symbol, (address, symbol) ∈ (G.unfold root).places ↔
      (G.follow root address).map G.value = some symbol) ∧
    (parse (write (G.unfold root)) = .ok (G.unfold root) ↔
      ∀ address, (G.follow root address).isSome → address.length ≤ 79) ∧
    ((∃ address, (G.follow root address).isSome ∧ 79 < address.length) →
      parse (write (G.unfold root)) = .error .notToml) := by
  obtain ⟨t, ht, rfl⟩ := Graph.acyclicFrom_iff_exists_unfolds.mp h
  have hheight : (G.unfold t.value).height < nestingLimit ↔
      ∀ address, (G.follow t.value address).isSome → address.length ≤ 79 := by
    rw [ht.height_unfold_lt_iff]
    exact forall₂_congr fun address _ => Nat.lt_succ_iff
  refine ⟨fun address symbol => ht.mem_places_unfold_iff, ?_, ?_⟩
  · rw [← hheight, parse_write]
    split <;> simp_all
  · rintro ⟨address, hsome, hlong⟩
    rw [parse_write, if_neg fun hlow => Nat.not_le_of_lt hlong (hheight.mp hlow address hsome)]

/-- A ladder of the given height, in which every node but the last has the next one as a child twice. -/
def ladder (height : Nat) : Graph Symbol where
  size := height + 1
  value _ := ⟨"rung", some "'''\"\"\"\\\r\n"⟩
  view i :=
    .sequence (if h : i.val + 1 < height + 1 then [⟨i.val + 1, h⟩, ⟨i.val + 1, h⟩] else [])

theorem acyclicFrom_ladder (height : Nat) (root : (ladder height).Node) :
    (ladder height).AcyclicFrom root := by
  refine Graph.acyclicFrom_of_lt (fun n c hc => ?_) root
  have hchildren : (ladder height).children n =
      if h : n.val + 1 < height + 1 then [⟨n.val + 1, h⟩, ⟨n.val + 1, h⟩] else [] := rfl
  by_cases h : n.val + 1 < height + 1
  · rw [hchildren, dif_pos h] at hc
    obtain rfl : c = ⟨n.val + 1, h⟩ := by simpa using hc
    exact Nat.lt_succ_self n.val
  · rw [hchildren, dif_neg h] at hc
    cases hc

theorem parse_write_ladder :
    parse (write ((ladder 79).unfold ⟨0, by decide⟩)) = .ok ((ladder 79).unfold ⟨0, by decide⟩) ∧
      parse (write ((ladder 80).unfold ⟨0, by decide⟩)) = .error .notToml := by
  have hlow := acyclicFrom_ladder 79 ⟨0, by decide⟩
  refine ⟨(parse_write_unfold_iff hlow).2.1.mpr fun address hsome => ?_, ?_⟩
  · exact Nat.le_of_lt_succ (hlow.length_lt_size hsome)
  · refine (parse_write_unfold_iff (acyclicFrom_ladder 80 ⟨0, by decide⟩)).2.2 ?_
    exact ⟨List.replicate 80 0, by decide +kernel, by decide⟩

end TreeWalk.Document
