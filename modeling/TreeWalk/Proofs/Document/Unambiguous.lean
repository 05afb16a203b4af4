import TreeWalk.Proofs.Alike
import TreeWalk.Proofs.Document.RoundTrip
import TreeWalk.Proofs.Outline

/-!
No two trees have the same document. Trees that lie too deep to be read back are no exception, although for
them the reader is no inverse of the writer: the limit concerns a header as a whole, while each string and
each part of a key can be told from what stands behind it. The kinds and texts of a tree may hold lines that
look like headers or fields, and their quotes keep these apart from the real ones.
-/

namespace TreeWalk.Document

open Toml (IsBareKey)

/-! ### Lines -/

theorem writeField_append_inj {key : String} (hkey : IsBareKey key.toList) {s s' : String}
    {rest rest' : List Char}
    (h : Toml.writeField key (Toml.writeString s.toList) ++ rest =
      Toml.writeField key (Toml.writeString s'.toList) ++ rest') : s = s' ∧ rest = rest' := by
  have hread := Toml.readField_writeField hkey s.toList rest
  rw [h, Toml.readField_writeField hkey s'.toList rest'] at hread
  simp only [String.ofList_toList, Option.some.injEq, Prod.mk.injEq, Toml.Statement.field.injEq,
    Toml.Value.string.injEq, true_and] at hread
  exact ⟨hread.1.symm, hread.2.symm⟩

/-- The key of a header tells its depth, since a reader that takes enough parts reads it. -/
theorem childrenKey_append_inj {depth depth' : Nat} {rest rest' : List Char}
    (h : childrenKey (depth + 1) ++ ']' :: rest = childrenKey (depth' + 1) ++ ']' :: rest') :
    depth = depth' ∧ rest = rest' := by
  have hread := readKeyParts_childrenKey depth (max depth depth' + 1) rest
  rw [h, readKeyParts_childrenKey, if_pos (by omega), if_pos (by omega)] at hread
  obtain ⟨hkeys, hrests⟩ := Prod.mk.inj (Option.some.inj hread)
  have hlengths := congrArg List.length hkeys
  rw [List.length_replicate, List.length_replicate] at hlengths
  exact ⟨by omega, (List.cons.inj hrests).2.symm⟩

/-! ### Rows -/

/-- A text field is never taken for what follows a symbol without text. -/
theorem writeSymbol_append_inj {symbol symbol' : Symbol} {rest rest' : List Char}
    (hrest : rest.head? ≠ some 't') (hrest' : rest'.head? ≠ some 't')
    (h : writeSymbol symbol ++ rest = writeSymbol symbol' ++ rest') : symbol = symbol' ∧ rest = rest' := by
  obtain ⟨kind, text⟩ := symbol
  obtain ⟨kind', text'⟩ := symbol'
  simp only [writeSymbol, List.append_assoc] at h
  obtain ⟨rfl, hafter⟩ := writeField_append_inj (by decide) h
  cases text with
  | none =>
      cases text' with
      | none => exact ⟨rfl, hafter⟩
      | some s' =>
          have hhead : rest.head? = some 't' := congrArg List.head? hafter
          exact absurd hhead hrest
  | some s =>
      cases text' with
      | none =>
          have hhead : rest'.head? = some 't' := congrArg List.head? hafter.symm
          exact absurd hhead hrest'
      | some s' =>
          obtain ⟨rfl, hrests⟩ := writeField_append_inj (by decide) hafter
          exact ⟨rfl, hrests⟩

theorem writeRow_succ (depth : Nat) (symbol : Symbol) (rest : List Char) :
    writeRow (depth + 1, symbol) ++ rest =
      '\n' :: '[' :: '[' :: (childrenKey (depth + 1) ++ ']' :: ']' :: '\n' :: (writeSymbol symbol ++ rest)) := by
  simp [writeRow]

theorem writeRow_append_inj {row row' : Nat × Symbol} (hrow : 0 < row.1) (hrow' : 0 < row'.1)
    {rest rest' : List Char} (hrest : rest.head? ≠ some 't') (hrest' : rest'.head? ≠ some 't')
    (h : writeRow row ++ rest = writeRow row' ++ rest') : row = row' ∧ rest = rest' := by
  match row, row', hrow, hrow' with
  | (depth + 1, symbol), (depth' + 1, symbol'), _, _ =>
      rw [writeRow_succ, writeRow_succ] at h
      simp only [List.cons.injEq, true_and] at h
      obtain ⟨rfl, hafter⟩ := childrenKey_append_inj h
      simp only [List.cons.injEq, true_and] at hafter
      obtain ⟨rfl, hrests⟩ := writeSymbol_append_inj hrest hrest' hafter
      exact ⟨rfl, hrests⟩

theorem writeRow_ne_nil {row : Nat × Symbol} (hrow : 0 < row.1) (rest : List Char) :
    writeRow row ++ rest ≠ [] := by
  match row, hrow with
  | (depth + 1, symbol), _ =>
      rw [writeRow_succ]
      exact List.cons_ne_nil _ _

theorem head?_flatMap_writeRow_ne {rows : List (Nat × Symbol)} (hrows : ∀ row ∈ rows, 0 < row.1) :
    (rows.flatMap writeRow).head? ≠ some 't' := by
  match rows, hrows with
  | [], _ => simp
  | (0, symbol) :: rows, hrows => exact absurd (hrows (0, symbol) List.mem_cons_self) (Nat.lt_irrefl 0)
  | (depth + 1, symbol) :: rows, _ =>
      rw [List.flatMap_cons, writeRow_succ]
      simp

/-- The rows of the nodes below a root can be read off their text. -/
theorem flatMap_writeRow_inj {rows rows' : List (Nat × Symbol)} (hrows : ∀ row ∈ rows, 0 < row.1)
    (hrows' : ∀ row ∈ rows', 0 < row.1) (h : rows.flatMap writeRow = rows'.flatMap writeRow) :
    rows = rows' := by
  induction rows generalizing rows' with
  | nil =>
      cases rows' with
      | nil => rfl
      | cons row' rows' => exact absurd h.symm (writeRow_ne_nil (hrows' row' List.mem_cons_self) _)
  | cons row rows ih =>
      obtain ⟨hrow, hbelow⟩ := List.forall_mem_cons.mp hrows
      cases rows' with
      | nil => exact absurd h (writeRow_ne_nil hrow _)
      | cons row' rows' =>
          obtain ⟨hrow', hbelow'⟩ := List.forall_mem_cons.mp hrows'
          rw [List.flatMap_cons, List.flatMap_cons] at h
          obtain ⟨rfl, hrest⟩ := writeRow_append_inj hrow hrow' (head?_flatMap_writeRow_ne hbelow)
            (head?_flatMap_writeRow_ne hbelow') h
          rw [ih hbelow hbelow' hrest]

/-! ### Documents -/

/-- A document determines the tree it was written for, however deep the tree is. -/
theorem write_injective : Function.Injective write := by
  rintro ⟨symbol, ts⟩ ⟨symbol', ts'⟩ h
  have hpos : ∀ ts : List (Tree Symbol), ∀ row ∈ Tree.outlineAll 1 ts, 0 < row.1 :=
    fun _ => Tree.le_of_mem_outlineAll
  have htext : writeSymbol symbol ++ (Tree.outlineAll 1 ts).flatMap writeRow =
      writeSymbol symbol' ++ (Tree.outlineAll 1 ts').flatMap writeRow := String.ofList_injective h
  obtain ⟨rfl, hbelow⟩ := writeSymbol_append_inj (head?_flatMap_writeRow_ne (hpos ts))
    (head?_flatMap_writeRow_ne (hpos ts')) htext
  rw [Tree.outlineAll_injective 1 (flatMap_writeRow_inj (hpos ts) (hpos ts') hbelow)]

/-- Two nodes look alike exactly if they have the same document, also where they lie too deep for it to be
read back. In particular a fresh copy in the place of a shared child leaves every document as it is. -/
theorem write_unfold_eq_iff_alike {G H : Graph Symbol} {a : G.Node} {b : H.Node} (ha : G.AcyclicFrom a)
    (hb : H.AcyclicFrom b) :
    (G.Alike H a b ↔ write (G.unfold a) = write (H.unfold b)) ∧
    ∀ (p c : G.Node) (i : Nat), (G.children p)[i]? = some c →
      (G.withFreshCopy p i c).AcyclicFrom a.castSucc ∧
      write ((G.withFreshCopy p i c).unfold a.castSucc) = write (G.unfold a) := by
  constructor
  · rw [Graph.alike_iff_unfold_eq ha hb]
    exact ⟨congrArg write, fun h => write_injective h⟩
  · intro p c i hc
    have hcovers := Graph.covers_withFreshCopy hc
    have horiginal : G.original c a.castSucc = a := Graph.original_castSucc c a
    obtain ⟨hacyclic, hunfold⟩ := hcovers.unfold_eq (n := a.castSucc) (horiginal.symm ▸ ha)
    rw [horiginal] at hunfold
    exact ⟨hacyclic, congrArg write hunfold⟩

/-- A node with a child. -/
def genuine : Graph Symbol := .ofRows #[⟨⟨"list", some "x"⟩, [1], .row⟩, ⟨⟨"item", none⟩, [], .row⟩]

/-- A node without children whose text looks like the rest of a document with a child. -/
def impostor : Graph Symbol :=
  .ofRows #[⟨⟨"list", some "x\"\n\n[[children]]\nkind = \"item"⟩, [], .row⟩]

theorem write_unfold_eq_iff_alike_impostor :
    write (genuine.unfold ⟨0, by decide⟩) ≠ write (impostor.unfold ⟨0, by decide⟩) ∧
      write (((ladder 80).withFreshCopy ⟨0, by decide⟩ 1 ⟨1, by decide⟩).unfold ⟨0, by decide⟩) =
        write ((ladder 80).unfold ⟨0, by decide⟩) := by
  have hgenuine : genuine.AcyclicFrom ⟨0, by decide⟩ := Graph.acyclicFrom_of_lt (by decide +kernel) _
  have himpostor : impostor.AcyclicFrom ⟨0, by decide⟩ := Graph.acyclicFrom_of_lt (by decide +kernel) _
  have hladder := acyclicFrom_ladder 80 ⟨0, by decide⟩
  constructor
  · intro hsame
    cases (write_unfold_eq_iff_alike hgenuine himpostor).1.mpr hsame with
    | node _ harity _ => exact absurd harity (by decide +kernel)
  · exact ((write_unfold_eq_iff_alike hladder hladder).2 ⟨0, by decide⟩ ⟨1, by decide⟩ 1 (by decide +kernel)).2

end TreeWalk.Document
