import TreeWalk.Proofs.IndentedWalks
import TreeWalk.Proofs.Mirror
import TreeWalk.Proofs.Outline

/-!
Indented listings determine trees. Where no label begins with a space, the spaces before a label are its
indentation, and with a width that is not 0 they tell its depth. In pre-order the depths and labels of the lines
are the outline of the tree. In post-order they are the outline of the mirrored tree from its end. Either way no
other tree has the same lines.
-/

namespace TreeWalk

/-! ### Lines -/

theorem replicate_append_inj {c : Char} {k k' : Nat} {back back' : List Char} (hback : back.head? ≠ some c)
    (hback' : back'.head? ≠ some c) (h : List.replicate k c ++ back = List.replicate k' c ++ back') :
    k = k' ∧ back = back' := by
  induction k generalizing k' with
  | zero =>
      cases k' with
      | zero => exact ⟨rfl, h⟩
      | succ k' =>
          have hhead : back.head? = some c := congrArg List.head? h
          exact absurd hhead hback
  | succ k ih =>
      cases k' with
      | zero =>
          have hhead : back'.head? = some c := congrArg List.head? h.symm
          exact absurd hhead hback'
      | succ k' =>
          obtain ⟨hcount, hbacks⟩ := ih (List.cons.inj h).2
          exact ⟨congrArg (· + 1) hcount, hbacks⟩

/-- A label at a depth, behind as many spaces as the depth and the width make. -/
def indentedRow (width : UInt64) (row : Nat × String) : String :=
  String.ofList (List.replicate (row.1 * width.toNat) ' ') ++ row.2

theorem indentedRow_inj {width : UInt64} (hwidth : 1 ≤ width) {row row' : Nat × String}
    (hlabel : row.2.toList.head? ≠ some ' ') (hlabel' : row'.2.toList.head? ≠ some ' ')
    (h : indentedRow width row = indentedRow width row') : row = row' := by
  have hchars := congrArg String.toList h
  simp only [indentedRow, String.toList_append, String.toList_ofList] at hchars
  obtain ⟨hcolumns, hlabels⟩ := replicate_append_inj hlabel hlabel' hchars
  have hpos : 0 < width.toNat := UInt64.le_iff_toNat_le.mp hwidth
  exact Prod.ext (Nat.eq_of_mul_eq_mul_right hpos hcolumns) (String.toList_inj.mp hlabels)

/-! ### Rows -/

namespace Tree

variable {α β : Type}

theorem outline_map (f : α → β) (t : Tree α) (depth : Nat) :
    (t.map f).outline depth = (t.outline depth).map fun row => (row.1, f row.2) := by
  induction t using induct generalizing depth with
  | node v ts ih =>
      rw [map, outline, outline, List.map_cons, mapAll_eq_map, outlineAll_eq_flatMap, outlineAll_eq_flatMap,
        List.flatMap_map, List.map_flatMap]
      exact congrArg (_ :: ·) (List.flatMap_congr fun t ht => ih t ht (depth + 1))

theorem mirror_map (f : α → β) (t : Tree α) : (t.map f).mirror = t.mirror.map f := by
  induction t using induct with
  | node v ts ih =>
      have hbelow : ts.map (mirror ∘ map f) = ts.map (map f ∘ mirror) := List.map_congr_left ih
      rw [map, mirror, mirror, map, mapAll_eq_map, mapAll_eq_map, mirrorAll_eq_reverse, mirrorAll_eq_reverse,
        List.map_reverse, List.map_map, List.map_map, hbelow]

/-- The values with their depths, as a depth-first walk comes to them: along post-order the outline of the mirrored
tree from its end, otherwise the outline. -/
def depthFirstRows (order : Order) (t : Tree α) : List (Nat × α) :=
  if order = .post then (t.mirror.outline 0).reverse else t.outline 0

theorem outline_injective (depth : Nat) : Function.Injective (outline depth : Tree α → List (Nat × α)) := by
  intro s t h
  apply List.singleton_inj.mp
  apply outlineAll_injective depth
  rw [outlineAll_eq_flatMap, outlineAll_eq_flatMap, List.flatMap_singleton, List.flatMap_singleton, h]

theorem depthFirstRows_injective (order : Order) :
    Function.Injective (depthFirstRows order : Tree α → List (Nat × α)) := by
  intro s t h
  by_cases hpost : order = .post
  · rw [depthFirstRows, depthFirstRows, if_pos hpost, if_pos hpost] at h
    exact mirror_injective (outline_injective 0 (List.reverse_injective h))
  · rw [depthFirstRows, depthFirstRows, if_neg hpost, if_neg hpost] at h
    exact outline_injective 0 h

theorem depthFirstRows_map (f : α → β) (order : Order) (t : Tree α) :
    (t.map f).depthFirstRows order = (t.depthFirstRows order).map fun row => (row.1, f row.2) := by
  by_cases hpost : order = .post
  · rw [depthFirstRows, depthFirstRows, if_pos hpost, if_pos hpost, mirror_map, outline_map, List.map_reverse]
  · rw [depthFirstRows, depthFirstRows, if_neg hpost, if_neg hpost, outline_map]

end Tree

namespace Graph

variable {G : Graph Symbol} {t : Tree G.Node} {map : ParentMap G}

/-- Along a depth-first order the nodes come with the depths that the rows of the tree have. Mirroring moves the
rows and leaves each its depth. -/
theorem Unfolds.map_depthOf_nodes (ht : G.Unfolds t) (h : ParentMap.build t.value = .ok map) {order : Order}
    (horder : order ≠ .level) :
    (G.nodes order t.value).map (fun n => (map.depthOf n, n)) = t.depthFirstRows order := by
  have houtline := ParentMap.outline_eq_map_depthOf ht h
  cases order with
  | level => exact absurd rfl horder
  | pre =>
      rw [Tree.depthFirstRows, if_neg (by decide), houtline, ← ht.preOrder_eq]
      rfl
  | post =>
      have hrows : ∀ row ∈ t.mirror.outline 0, (map.depthOf row.2, row.2) = row := by
        intro row hrow
        rw [(t.outline_mirror_perm 0).mem_iff, houtline] at hrow
        obtain ⟨n, -, rfl⟩ := List.mem_map.mp hrow
        rfl
      have hmirror : (t.mirror.outline 0).map (fun row => (map.depthOf row.2, row.2)) = t.mirror.outline 0 :=
        (List.map_congr_left hrows).trans (List.map_id' _)
      calc (G.postOrder t.value).map (fun n => (map.depthOf n, n))
          = (t.mirror.preorder.map fun n => (map.depthOf n, n)).reverse := by
            rw [ht.postOrder_eq, t.preorder_mirror, List.map_reverse, List.reverse_reverse]
        _ = ((t.mirror.outline 0).map fun row => (map.depthOf row.2, row.2)).reverse := by
            rw [← t.mirror.map_snd_outline 0, List.map_map]
            rfl
        _ = (t.mirror.outline 0).reverse := by rw [hmirror]

/-- The lines of an indented walk are the rows of the labelled tree, each behind its indentation. -/
theorem walkLines_eq_rows (ht : G.Unfolds t) (h : ParentMap.build t.value = .ok map) {settings : Settings}
    (hindent : settings.indent = true) (hheight : t.height * settings.indentWidth.toNat ≤ maxIndent)
    {order : Option Order} (horder : order.getD settings.order ≠ .level) :
    G.walkLines settings order t.value =
      .ok (((t.map G.label).depthFirstRows (order.getD settings.order)).map
        (indentedRow settings.indentWidth)) := by
  rw [walkLines_eq_ok ht h hindent hheight, Tree.depthFirstRows_map, ← ht.map_depthOf_nodes h horder, List.map_map,
    List.map_map]
  rfl

theorem Unfolds.exists_label_of_mem_rows (ht : G.Unfolds t) (h : ParentMap.build t.value = .ok map) {order : Order}
    (horder : order ≠ .level) {row : Nat × String} (hrow : row ∈ (t.map G.label).depthFirstRows order) :
    ∃ n, G.Reaches t.value n ∧ row.2 = G.label n := by
  rw [Tree.depthFirstRows_map, ← ht.map_depthOf_nodes h horder, List.map_map] at hrow
  obtain ⟨n, hn, rfl⟩ := List.mem_map.mp hrow
  exact ⟨n, ht.reaches_of_mem_preorder ((ht.nodes_perm order).mem_iff.mp hn), rfl⟩

/-- Where no label begins with a space and the width is not 0, two trees have the same indented lines in pre-order,
or in post-order, exactly if they are the same tree of labels and not too high for the width. -/
theorem walkLines_same_iff {G H : Graph Symbol} {a : G.Node} {b : H.Node} (ha : G.IsTree a) (hb : H.IsTree b)
    (hlabel : ∀ n, G.Reaches a n → (G.label n).toList.head? ≠ some ' ')
    (hlabel' : ∀ n, H.Reaches b n → (H.label n).toList.head? ≠ some ' ')
    {settings : Settings} (hindent : settings.indent = true) (hwidth : 1 ≤ settings.indentWidth)
    {order : Option Order} (horder : order.getD settings.order ≠ .level) :
    (∃ lines, G.walkLines settings order a = .ok lines ∧ H.walkLines settings order b = .ok lines) ↔
      (G.unfold a).map Symbol.label = (H.unfold b).map Symbol.label ∧
        (G.unfold a).height * settings.indentWidth.toNat ≤ 65535 := by
  obtain ⟨map, hmap⟩ := ParentMap.exists_build_of_isTree ha
  obtain ⟨map', hmap'⟩ := ParentMap.exists_build_of_isTree hb
  obtain ⟨s, hs, rfl⟩ := ha.exists_unfolds
  obtain ⟨t, ht, rfl⟩ := hb.exists_unfolds
  rw [hs.unfold_eq_map, ht.unfold_eq_map, Tree.map_map, Tree.map_map, Tree.height_map]
  constructor
  · rintro ⟨lines, hlines, hlines'⟩
    have hheight := (exists_walkLines_iff hs hmap settings order).mp ⟨lines, hlines⟩ hindent
    have hheight' := (exists_walkLines_iff ht hmap' settings order).mp ⟨lines, hlines'⟩ hindent
    rw [walkLines_eq_rows hs hmap hindent hheight horder] at hlines
    rw [walkLines_eq_rows ht hmap' hindent hheight' horder] at hlines'
    have hapart : ∀ row ∈ (s.map G.label).depthFirstRows (order.getD settings.order),
        ∀ row' ∈ (t.map H.label).depthFirstRows (order.getD settings.order),
        indentedRow settings.indentWidth row = indentedRow settings.indentWidth row' → row = row' := by
      intro row hrow row' hrow' hline
      obtain ⟨n, hn, hrowlabel⟩ := hs.exists_label_of_mem_rows hmap horder hrow
      obtain ⟨m, hm, hrowlabel'⟩ := ht.exists_label_of_mem_rows hmap' horder hrow'
      exact indentedRow_inj hwidth (hrowlabel ▸ hlabel n hn) (hrowlabel' ▸ hlabel' m hm) hline
    have hrows := eq_of_map_eq hapart ((Except.ok.inj hlines).trans (Except.ok.inj hlines').symm)
    exact ⟨Tree.depthFirstRows_injective _ hrows, hheight⟩
  · rintro ⟨hsame, hheight⟩
    have hheights : s.height = t.height := by
      rw [← Tree.height_map (Symbol.label ∘ G.value), hsame, Tree.height_map]
    have hlines := walkLines_eq_rows hs hmap hindent hheight horder
    have hlines' := walkLines_eq_rows ht hmap' hindent (hheights ▸ hheight) horder
    have hlabels : s.map G.label = t.map H.label := hsame
    rw [← hlabels] at hlines'
    exact ⟨_, hlines, hlines'⟩

/-- The same list with its nodes in another order and in other layouts. -/
def renumbered : Graph Symbol :=
  .ofRows #[⟨⟨"leaf", none⟩, [], .sequence⟩, ⟨⟨"item", none⟩, [], .row⟩, ⟨⟨"item", none⟩, [0], .row⟩,
    ⟨⟨"list", none⟩, [2, 1], .halves⟩]

/-- A leaf beside an item with an item below it. Without indentation post-order shows the same labels. -/
def rearranged : Graph Symbol :=
  .ofRows #[⟨⟨"list", none⟩, [1, 2], .row⟩, ⟨⟨"leaf", none⟩, [], .row⟩, ⟨⟨"item", none⟩, [3], .row⟩,
    ⟨⟨"item", none⟩, [], .row⟩]

theorem isTree_renumbered : renumbered.IsTree ⟨3, by decide⟩ :=
  ParentMap.isTree_of_isOk (by decide +kernel)

theorem isTree_rearranged : rearranged.IsTree ⟨0, by decide⟩ :=
  ParentMap.isTree_of_isOk (by decide +kernel)

theorem walkLines_same_iff_lookalikes :
    (∃ lines, lookalikes.walkLines ⟨.pre, true, 2, "\n"⟩ (some .post) ⟨0, by decide⟩ = .ok lines ∧
        renumbered.walkLines ⟨.pre, true, 2, "\n"⟩ (some .post) ⟨3, by decide⟩ = .ok lines) ∧
      ¬∃ lines, lookalikes.walkLines ⟨.pre, true, 2, "\n"⟩ (some .post) ⟨0, by decide⟩ = .ok lines ∧
        rearranged.walkLines ⟨.pre, true, 2, "\n"⟩ (some .post) ⟨0, by decide⟩ = .ok lines := by
  have hlabel : ∀ n, (lookalikes.label n).toList.head? ≠ some ' ' := by decide +kernel
  have hrenumbered : ∀ n, (renumbered.label n).toList.head? ≠ some ' ' := by decide +kernel
  have hrearranged : ∀ n, (rearranged.label n).toList.head? ≠ some ' ' := by decide +kernel
  constructor
  · refine (walkLines_same_iff isTree_lookalikes isTree_renumbered (fun n _ => hlabel n) (fun n _ => hrenumbered n)
      rfl (by decide) (by decide)).mpr ⟨by decide +kernel, by decide +kernel⟩
  · rw [walkLines_same_iff isTree_lookalikes isTree_rearranged (fun n _ => hlabel n) (fun n _ => hrearranged n)
      rfl (by decide) (by decide)]
    decide +kernel

end Graph

end TreeWalk
