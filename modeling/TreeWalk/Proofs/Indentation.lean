import TreeWalk.Listing
import TreeWalk.Proofs.Except
import TreeWalk.Proofs.Levels

/-!
Indented listings. A line can be indented as long as the exact product of its depth and the width is at
most 65535, which is far below the point where the product no longer fits 64 bits. A whole listing of a
tree succeeds if its deepest line can be indented, so it depends on the height of the tree and on the
width, and not on the order of the walk. How a listing fails is decided by its first line that lies too
deep.
-/

namespace TreeWalk

/-! ### Lines -/

theorem indentColumns_eq_ok_iff {width : UInt64} {depth columns : Nat} :
    indentColumns width depth = .ok columns ↔
      columns = depth * width.toNat ∧ depth * width.toNat ≤ maxIndent := by
  have hsize : maxIndent < UInt64.size := by decide
  simp only [indentColumns]
  by_cases hsmall : depth * width.toNat ≤ maxIndent
  · rw [if_neg (by omega), if_neg (by omega)]
    simp [hsmall, eq_comm]
  · split
    · simp [hsmall]
    · rw [if_pos (by omega)]
      simp [hsmall]

theorem indentLine_eq_ok_iff {width : UInt64} {depth : Nat} {label line : String} :
    indentLine width depth label = .ok line ↔
      depth * width.toNat ≤ maxIndent ∧ line = "".pushn ' ' (depth * width.toNat) ++ label := by
  simp only [indentLine, map_eq_ok_iff, indentColumns_eq_ok_iff]
  constructor
  · rintro ⟨columns, ⟨rfl, hsmall⟩, rfl⟩
    exact ⟨hsmall, rfl⟩
  · rintro ⟨hsmall, rfl⟩
    exact ⟨_, ⟨rfl, hsmall⟩, rfl⟩

/-- All lines can be indented exactly if each of them can. -/
theorem indentLines_eq_ok_iff {width : UInt64} {items : List (Nat × String)} {lines : List String} :
    indentLines width items = .ok lines ↔
      (∀ item ∈ items, item.1 * width.toNat ≤ maxIndent) ∧
        lines = items.map fun item => "".pushn ' ' (item.1 * width.toNat) ++ item.2 := by
  induction items generalizing lines with
  | nil => simp [indentLines, pure, Except.pure, eq_comm]
  | cons item items ih =>
      have hcons : indentLines width (item :: items) = (do
          let line ← indentLine width item.1 item.2
          let lines ← indentLines width items
          .ok (line :: lines)) := List.mapM_cons
      simp only [hcons, bind_eq_ok_iff, indentLine_eq_ok_iff, ih, List.forall_mem_cons, List.map_cons]
      constructor
      · rintro ⟨line, ⟨hsmall, rfl⟩, lines, ⟨hrest, rfl⟩, heq⟩
        cases heq
        exact ⟨⟨hsmall, hrest⟩, rfl⟩
      · rintro ⟨⟨hsmall, hrest⟩, rfl⟩
        exact ⟨_, ⟨hsmall, rfl⟩, _, ⟨hrest, rfl⟩, rfl⟩

/-- What is wrong with a line that many columns would have to precede: their number if it does not fit 64 bits,
and otherwise the width. -/
def IndentError.ofColumns (columns : Nat) : IndentError :=
  if UInt64.size ≤ columns then .overflow else .tooWide

theorem IndentError.ofColumns_of_lt {columns : Nat} (h : columns < UInt64.size) : ofColumns columns = .tooWide :=
  if_neg (Nat.not_le.mpr h)

theorem IndentError.ofColumns_eq_overflow_iff {columns : Nat} :
    ofColumns columns = .overflow ↔ UInt64.size ≤ columns := by
  by_cases hlarge : UInt64.size ≤ columns
  · simp [ofColumns, hlarge]
  · simp [ofColumns, hlarge]

theorem IndentError.message_eq_overflow_iff {error : IndentError} :
    error.message = "attempt to multiply with overflow" ↔ error = .overflow := by
  cases error <;> decide

theorem indentColumns_eq_error_iff {width : UInt64} {depth : Nat} {error : IndentError} :
    indentColumns width depth = .error error ↔
      maxIndent < depth * width.toNat ∧ error = .ofColumns (depth * width.toNat) := by
  have hsize : maxIndent < UInt64.size := by decide
  simp only [indentColumns, IndentError.ofColumns]
  by_cases hoverflow : UInt64.size ≤ depth * width.toNat
  · have hdeep : maxIndent < depth * width.toNat := by omega
    simp [hoverflow, hdeep, eq_comm]
  · by_cases hdeep : maxIndent < depth * width.toNat
    · simp [hoverflow, hdeep, eq_comm]
    · simp [hoverflow, hdeep]

theorem indentLine_eq_error_iff {width : UInt64} {depth : Nat} {label : String} {error : IndentError} :
    indentLine width depth label = .error error ↔
      maxIndent < depth * width.toNat ∧ error = .ofColumns (depth * width.toNat) := by
  rw [indentLine, map_eq_error_iff, indentColumns_eq_error_iff]

/-- The first line that lies too deep decides how the lines fail. -/
theorem indentLines_eq_error_iff {width : UInt64} {items : List (Nat × String)} {error : IndentError} :
    indentLines width items = .error error ↔
      ∃ item, items.find? (fun item => maxIndent < item.1 * width.toNat) = some item ∧
        error = .ofColumns (item.1 * width.toNat) := by
  induction items with
  | nil => simp [indentLines, pure, Except.pure]
  | cons item items ih =>
      have hcons : indentLines width (item :: items) = (do
          let line ← indentLine width item.1 item.2
          let lines ← indentLines width items
          .ok (line :: lines)) := List.mapM_cons
      rw [hcons]
      by_cases hdeep : maxIndent < item.1 * width.toNat
      · have hline : indentLine width item.1 item.2 = .error (.ofColumns (item.1 * width.toNat)) :=
          indentLine_eq_error_iff.mpr ⟨hdeep, rfl⟩
        rw [hline, List.find?_cons_of_pos (by simpa using hdeep)]
        simp [bind, Except.bind, eq_comm]
      · have hline : indentLine width item.1 item.2 = .ok ("".pushn ' ' (item.1 * width.toNat) ++ item.2) :=
          indentLine_eq_ok_iff.mpr ⟨Nat.le_of_not_lt hdeep, rfl⟩
        rw [hline, List.find?_cons_of_neg (by simpa using hdeep), ← ih]
        cases indentLines width items with
        | error e => simp [bind, Except.bind]
        | ok lines => simp [bind, Except.bind]

/-! ### The deepest line -/

namespace Tree

variable {α : Type}

/-- A product with the depth is within a bound for all nodes if it is for the deepest ones. -/
theorem forall_mem_outline_mul_le_iff (t : Tree α) (width bound : Nat) :
    (∀ row ∈ t.outline 0, row.1 * width ≤ bound) ↔ t.height * width ≤ bound := by
  rcases Nat.eq_zero_or_pos width with rfl | hwidth
  · simp
  · have hle (depth : Nat) : depth * width ≤ bound ↔ depth < bound / width + 1 := by
      rw [Nat.lt_succ_iff, Nat.le_div_iff_mul_le hwidth]
    simp only [hle, forall_mem_outline_lt_iff, Nat.zero_add]

end Tree

/-! ### Walks over a tree -/

/-- In every order, a walk gives the nodes of the tree. -/
theorem Graph.Unfolds.nodes_perm {α : Type} {G : Graph α} {t : Tree G.Node} (ht : G.Unfolds t) (order : Order) :
    (G.nodes order t.value).Perm t.preorder := by
  cases order with
  | pre => exact .of_eq ht.preOrder_eq
  | post => exact (List.Perm.of_eq ht.postOrder_eq).trans t.postorder_perm
  | level => exact ((LevelOrder.worklist G).yields_drain ht (LevelOrder.pending_start t.value)).2

namespace Graph

variable {G : Graph Symbol} {t : Tree G.Node} {map : ParentMap G}

theorem walkLines_eq_of_build (ht : G.Unfolds t) (h : ParentMap.build t.value = .ok map) {settings : Settings}
    (hindent : settings.indent = true) (order : Option Order) :
    G.walkLines settings order t.value =
      (indentLines settings.indentWidth
        ((G.nodes (order.getD settings.order) t.value).map fun n => (map.depthOf n, G.label n))).mapError
          .indent := by
  have hdepths : ∀ n ∈ G.nodes (order.getD settings.order) t.value,
      (G.depthIn map.depths n, G.label n) = (map.depthOf n, G.label n) := by
    intro n hn
    have hreach := ht.reaches_of_mem_preorder ((ht.nodes_perm _).mem_iff.mp hn)
    have hdepth : G.depthIn map.depths n = (map.depths.get n).getD 0 := rfl
    rw [hdepth, ParentMap.depths_eq_some h hreach, Option.getD_some]
  simp only [walkLines, hindent, if_true, h, List.map_congr_left hdepths]

/-- An indented walk over a tree succeeds if its deepest line can be indented, and one that is not indented
always does. -/
theorem exists_walkLines_iff (ht : G.Unfolds t) (h : ParentMap.build t.value = .ok map) (settings : Settings)
    (order : Option Order) :
    (∃ lines, G.walkLines settings order t.value = .ok lines) ↔
      (settings.indent = true → t.height * settings.indentWidth.toNat ≤ maxIndent) := by
  by_cases hindent : settings.indent = true
  · have hdeepest := t.forall_mem_outline_mul_le_iff settings.indentWidth.toNat maxIndent
    rw [ParentMap.outline_eq_map_depthOf ht h, List.forall_mem_map] at hdeepest
    simp only [walkLines_eq_of_build ht h hindent, mapError_eq_ok_iff, indentLines_eq_ok_iff, exists_and_left,
      exists_eq, and_true, List.forall_mem_map, (ht.nodes_perm _).mem_iff, hdeepest, hindent, true_imp_iff]
  · simp [walkLines, hindent]

/-- If the nodes form a tree, the height of the tree decides. -/
theorem IsTree.exists_walkLines_iff {root : G.Node} (h : G.IsTree root) (settings : Settings)
    (order : Option Order) :
    (∃ lines, G.walkLines settings order root = .ok lines) ↔
      (settings.indent = true → (G.unfold root).height * settings.indentWidth.toNat ≤ maxIndent) := by
  obtain ⟨t, ht, rfl⟩ := h.exists_unfolds
  obtain ⟨map, hmap⟩ := ParentMap.exists_build_of_isTree h
  rw [Graph.exists_walkLines_iff ht hmap, ht.unfold_eq_map, Tree.height_map]

end Graph

end TreeWalk
