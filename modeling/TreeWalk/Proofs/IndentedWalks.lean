import TreeWalk.Proofs.Indentation
import TreeWalk.Proofs.Pairs

/-!
Walks with indentation. The lines come from one walk and their depths from a table that two other walks have
filled; on a tree the table knows every node that any of the orders gives, so each label stands behind its own
depth times the width. Where the tree is too high for the width, the first node that lies too deep ends the
listing. In pre-order and level order its parent has passed before it, so it lies one step too deep and the
product is far from 64 bits. In post-order it may lie below nodes that are themselves too deep.
-/

namespace TreeWalk

open Source (Yields)

/-! ### Walks in any order -/

namespace Graph

variable {α : Type} {G : Graph α} {root : G.Node}

theorem Unfolds.yields_preOrder {t : Tree G.Node} (ht : G.Unfolds t) :
    Yields PreOrder.next (G.preOrder t.value) (.start t.value) :=
  ((PreOrder.worklist G).yields_drain ht (PreOrder.stack_start t.value)).1

theorem Unfolds.yields_levelOrder {t : Tree G.Node} (ht : G.Unfolds t) :
    Yields LevelOrder.next (G.levelOrder t.value) (.start t.value) :=
  ((LevelOrder.worklist G).yields_drain ht (LevelOrder.pending_start t.value)).1

/-- The walk in a given order ends, and it gives the nodes of that order. -/
theorem AcyclicFrom.yields_nodes (h : G.AcyclicFrom root) (order : Order) :
    Yields Walk.next (G.nodes order root) (.start order root) := by
  obtain ⟨t, ht, rfl⟩ := acyclicFrom_iff_exists_unfolds.mp h
  cases order with
  | pre => exact ht.yields_preOrder.map (f := Walk.pre) fun _ => rfl
  | post => exact (G.yields_postOrder t.value).1.map (f := Walk.post) fun _ => rfl
  | level => exact ht.yields_levelOrder.map (f := Walk.level) fun _ => rfl

/-- In pre-order and level order a node comes behind one of its parents. -/
theorem Unfolds.exists_parent_before {t : Tree G.Node} (ht : G.Unfolds t) {order : Order} (horder : order ≠ .post)
    {front back : List G.Node} {n : G.Node} (hsplit : G.nodes order t.value = front ++ n :: back) :
    n = t.value ∨ ∃ p ∈ front, n ∈ G.children p := by
  cases order with
  | pre =>
      have hwalk : G.preOrder t.value = front ++ n :: back := hsplit
      have hyields := ht.yields_preOrder
      rw [hwalk] at hyields
      exact (PreOrder.worklist G).exists_parent_before (PreOrder.stack_start t.value) hyields
  | post => exact absurd rfl horder
  | level =>
      have hwalk : G.levelOrder t.value = front ++ n :: back := hsplit
      have hyields := ht.yields_levelOrder
      rw [hwalk] at hyields
      exact (LevelOrder.worklist G).exists_parent_before (LevelOrder.pending_start t.value) hyields

theorem Unfolds.height_unfold {t : Tree G.Node} (ht : G.Unfolds t) : (G.unfold t.value).height = t.height := by
  rw [ht.unfold_eq_map, Tree.height_map]

/-- The depth of a node is the number of steps on a way from the root to it. -/
def IsDepth (G : Graph α) (root : G.Node) (depth : G.Node → Nat) : Prop :=
  ∀ address n, G.follow root address = some n → depth n = address.length

theorem isDepth_depthOf {map : ParentMap G} (h : ParentMap.build root = .ok map) : G.IsDepth root map.depthOf :=
  fun _ _ hn => ParentMap.depthOf_eq_length h hn

end Graph

/-! ### Lines -/

theorem pushn_eq_ofList (c : Char) (k : Nat) : "".pushn c k = String.ofList (List.replicate k c) := by
  induction k with
  | zero => rfl
  | succ k ih =>
      have hpush : "".pushn c (k + 1) = ("".pushn c k).push c := rfl
      rw [hpush, ih, List.replicate_succ']
      apply String.toList_inj.mp
      rw [String.toList_push, String.toList_ofList, String.toList_ofList]

/-- Below a node that can be indented the product fits 64 bits: either the node is the root, and the product is
the width itself, or the width is small. -/
theorem mul_lt_size_of_parent {width : UInt64} {depth : Nat} (hparent : depth * width.toNat ≤ maxIndent) :
    (depth + 1) * width.toNat < UInt64.size := by
  have hwidth : width.toNat < UInt64.size := width.toNat_lt
  have hsmall : maxIndent + maxIndent < UInt64.size := by decide
  rcases Nat.eq_zero_or_pos depth with rfl | hpos
  · omega
  · have hle : width.toNat ≤ depth * width.toNat := Nat.le_mul_of_pos_left _ hpos
    rw [Nat.succ_mul]
    omega

namespace Graph

variable {G : Graph Symbol} {root : G.Node}

/-- The label of a node behind as many spaces as its depth and the width make. -/
def indentedLabel (G : Graph Symbol) (width : UInt64) (depth : G.Node → Nat) (n : G.Node) : String :=
  String.ofList (List.replicate (depth n * width.toNat) ' ') ++ G.label n

section Built

variable {t : Tree G.Node} {map : ParentMap G} {settings : Settings}

/-- On a tree that is not too high for the width, an indented walk gives each label behind its indentation. -/
theorem walkLines_eq_ok (ht : G.Unfolds t) (h : ParentMap.build t.value = .ok map)
    (hindent : settings.indent = true) (hheight : t.height * settings.indentWidth.toNat ≤ maxIndent)
    (order : Option Order) :
    G.walkLines settings order t.value =
      .ok ((G.nodes (order.getD settings.order) t.value).map
        (G.indentedLabel settings.indentWidth map.depthOf)) := by
  obtain ⟨lines, hlines⟩ := (exists_walkLines_iff ht h settings order).mpr fun _ => hheight
  rw [hlines]
  rw [walkLines_eq_of_build ht h hindent, mapError_eq_ok_iff, indentLines_eq_ok_iff, List.map_map] at hlines
  rw [hlines.2]
  refine congrArg Except.ok (List.map_congr_left fun n _ => ?_)
  rw [indentedLabel, ← pushn_eq_ofList]
  rfl

/-- The first node of the walk that lies too deep decides how an indented walk fails. -/
theorem walkLines_eq_error_iff (ht : G.Unfolds t) (h : ParentMap.build t.value = .ok map)
    (hindent : settings.indent = true) (order : Option Order) (error : IndentError) :
    G.walkLines settings order t.value = .error (.indent error) ↔
      ∃ n, (G.nodes (order.getD settings.order) t.value).find?
          (fun n => maxIndent < map.depthOf n * settings.indentWidth.toNat) = some n ∧
        error = .ofColumns (map.depthOf n * settings.indentWidth.toNat) := by
  rw [walkLines_eq_of_build ht h hindent, mapError_eq_error_iff]
  simp only [ListingError.indent.injEq, exists_eq_right, indentLines_eq_error_iff, List.find?_map,
    Option.map_eq_some_iff]
  constructor
  · rintro ⟨item, ⟨n, hn, rfl⟩, herror⟩
    exact ⟨n, hn, herror⟩
  · rintro ⟨n, hn, herror⟩
    exact ⟨_, ⟨n, hn, rfl⟩, herror⟩

/-- An indented walk over a tree fails exactly if the tree is too high for the width. -/
theorem exists_walkLines_error_iff (ht : G.Unfolds t) (h : ParentMap.build t.value = .ok map)
    (hindent : settings.indent = true) (order : Option Order) :
    (∃ error, G.walkLines settings order t.value = .error (.indent error)) ↔
      maxIndent < t.height * settings.indentWidth.toNat := by
  have hok := exists_walkLines_iff ht h settings order
  rw [walkLines_eq_of_build ht h hindent] at hok ⊢
  rw [exists_mapError_eq_error_iff, hok]
  simp [hindent]

/-- In pre-order and level order no product overflows as long as the nodes before could be indented. -/
theorem mul_lt_size_of_front (ht : G.Unfolds t) (h : ParentMap.build t.value = .ok map) {order : Order}
    (horder : order ≠ .post) {width : UInt64} {front back : List G.Node} {n : G.Node}
    (hsplit : G.nodes order t.value = front ++ n :: back)
    (hfront : ∀ m ∈ front, map.depthOf m * width.toNat ≤ maxIndent) :
    map.depthOf n * width.toNat < UInt64.size := by
  rcases ht.exists_parent_before horder hsplit with rfl | ⟨p, hp, hchild⟩
  · rw [ParentMap.depthOf_eq_zero (ParentMap.parentOf_eq_none h fun hroot => hroot.2 rfl), Nat.zero_mul]
    decide
  · have hmem : p ∈ G.nodes order t.value := hsplit ▸ List.mem_append_left _ hp
    have hreach : G.Reaches t.value p := ht.reaches_of_mem_preorder ((ht.nodes_perm order).mem_iff.mp hmem)
    have hparent : map.parentOf n = some p := (ParentMap.parentOf_eq_some_iff h).mpr ⟨hreach, hchild⟩
    rw [ParentMap.depthOf_eq_succ h hparent]
    exact mul_lt_size_of_parent (hfront p hp)

end Built

/-- Without cycles a walk that is not indented gives the labels of the chosen order, also where nodes are shared.
An indented one needs a tree and otherwise ends with the duplicate parent that ends the build of the parent map.
On a tree that is not too high for the width it gives one line for each node: as many spaces as the depth of the
node and the width make, and the label that stands there without indentation. The orders differ only in how they
arrange these lines. -/
theorem walkLines_of_acyclicFrom (h : G.AcyclicFrom root) (settings : Settings) (order : Option Order) :
    Yields Walk.next (G.nodes (order.getD settings.order) root) (.start (order.getD settings.order) root) ∧
    (settings.indent = false →
      G.walkLines settings order root = .ok ((G.nodes (order.getD settings.order) root).map G.label)) ∧
    (settings.indent = true → ¬G.IsTree root →
      ∃ duplicate, ParentMap.build root = .error duplicate ∧
        G.walkLines settings order root = .error (.duplicateParent duplicate)) ∧
    (settings.indent = true → G.IsTree root →
      (G.unfold root).height * settings.indentWidth.toNat ≤ 65535 →
      ((G.nodes (order.getD settings.order) root).Nodup ∧
        ∀ n, n ∈ G.nodes (order.getD settings.order) root ↔ G.Reaches root n) ∧
      ∃ depth lines, G.IsDepth root depth ∧ G.walkLines settings order root = .ok lines ∧
        lines = (G.nodes (order.getD settings.order) root).map (G.indentedLabel settings.indentWidth depth) ∧
        ∀ order', ∃ lines', G.walkLines settings order' root = .ok lines' ∧ lines'.Perm lines) := by
  refine ⟨h.yields_nodes _, fun hplain => ?_, fun hindent hno => ?_, fun hindent htree hheight => ?_⟩
  · simp [walkLines, hplain]
  · obtain ⟨duplicate, herror⟩ := ParentMap.exists_error_of_not_isTree hno
    refine ⟨duplicate, herror, ?_⟩
    simp only [walkLines, hindent, if_true, herror]
  · obtain ⟨map, hmap⟩ := ParentMap.exists_build_of_isTree htree
    obtain ⟨t, ht, rfl⟩ := acyclicFrom_iff_exists_unfolds.mp h
    rw [ht.height_unfold] at hheight
    have hperm := ht.nodes_perm (order.getD settings.order)
    refine ⟨⟨hperm.nodup_iff.mpr (htree.nodup_preorder ht), fun n => hperm.mem_iff.trans ht.mem_preorder_iff⟩,
      map.depthOf, _, isDepth_depthOf hmap, walkLines_eq_ok ht hmap hindent hheight order, rfl, fun order' => ?_⟩
    have hperm' := ht.nodes_perm (order'.getD settings.order)
    exact ⟨_, walkLines_eq_ok ht hmap hindent hheight order', (hperm'.trans hperm.symm).map _⟩

theorem walkLines_of_acyclicFrom_lookalikes :
    lookalikes.AcyclicFrom ⟨0, by decide⟩ ∧
      lookalikes.walkLines ⟨.level, true, 3, "\n"⟩ none ⟨0, by decide⟩ =
        .ok ["list", "   item", "   item", "      leaf"] ∧
      ∃ lines, lookalikes.walkLines ⟨.level, true, 3, "\n"⟩ (some .post) ⟨0, by decide⟩ = .ok lines ∧
        lines.Perm ["list", "   item", "   item", "      leaf"] := by
  have hlevel : lookalikes.walkLines ⟨.level, true, 3, "\n"⟩ none ⟨0, by decide⟩ =
      .ok ["list", "   item", "   item", "      leaf"] := by decide +kernel
  have hheight : (lookalikes.unfold ⟨0, by decide⟩).height * (3 : UInt64).toNat ≤ 65535 := by decide +kernel
  obtain ⟨-, -, -, hindented⟩ :=
    walkLines_of_acyclicFrom isTree_lookalikes.acyclicFrom ⟨.level, true, 3, "\n"⟩ none
  obtain ⟨-, depth, lines, -, hlines, -, hothers⟩ := hindented rfl isTree_lookalikes hheight
  obtain rfl : ["list", "   item", "   item", "      leaf"] = lines := Except.ok.inj (hlevel.symm.trans hlines)
  exact ⟨isTree_lookalikes.acyclicFrom, hlevel, hothers (some .post)⟩

/-- On a tree an indented walk fails for a line exactly if the tree is too high for the width, in whichever
order. In pre-order and level order the width is then what is wrong, and no product overflows up to the line that
fails. In post-order the product is what is wrong exactly if it does not fit 64 bits at the first node that lies
too deep. -/
theorem walkLines_fails_iff (h : G.IsTree root) {settings : Settings} (hindent : settings.indent = true)
    (order : Option Order) :
    ∃ depth, G.IsDepth root depth ∧
    ((∃ error, G.walkLines settings order root = .error (.indent error)) ↔
      65535 < (G.unfold root).height * settings.indentWidth.toNat) ∧
    (order.getD settings.order ≠ .post →
      (∀ error, G.walkLines settings order root = .error (.indent error) →
        error.message = "Formatting argument out of range") ∧
      ∀ front n back, G.nodes (order.getD settings.order) root = front ++ n :: back →
        (∀ m ∈ front, depth m * settings.indentWidth.toNat ≤ 65535) →
        depth n * settings.indentWidth.toNat < 2 ^ 64) ∧
    (order.getD settings.order = .post →
      ((∃ error, G.walkLines settings order root = .error (.indent error) ∧
          error.message = "attempt to multiply with overflow") ↔
        ∃ n, (G.postOrder root).find? (fun n => 65535 < depth n * settings.indentWidth.toNat) = some n ∧
          2 ^ 64 ≤ depth n * settings.indentWidth.toNat)) := by
  obtain ⟨map, hmap⟩ := ParentMap.exists_build_of_isTree h
  obtain ⟨t, ht, rfl⟩ := h.exists_unfolds
  have herrors := walkLines_eq_error_iff ht hmap hindent order
  refine ⟨map.depthOf, isDepth_depthOf hmap, ?_, fun horder => ⟨fun error herror => ?_, ?_⟩, fun horder => ?_⟩
  · rw [ht.height_unfold]
    exact exists_walkLines_error_iff ht hmap hindent order
  · obtain ⟨n, hfirst, rfl⟩ := (herrors error).mp herror
    obtain ⟨-, front, back, hsplit, hfront⟩ := List.find?_eq_some_iff_append.mp hfirst
    have hfits := mul_lt_size_of_front ht hmap horder hsplit fun m hm => by simpa using hfront m hm
    rw [IndentError.ofColumns_of_lt hfits]
    rfl
  · exact fun front n back hsplit hfront => mul_lt_size_of_front ht hmap horder hsplit hfront
  · rw [horder] at herrors
    constructor
    · rintro ⟨error, herror, hmessage⟩
      obtain ⟨n, hfirst, rfl⟩ := (herrors error).mp herror
      rw [IndentError.message_eq_overflow_iff, IndentError.ofColumns_eq_overflow_iff] at hmessage
      exact ⟨n, hfirst, hmessage⟩
    · rintro ⟨n, hfirst, hlarge⟩
      refine ⟨_, (herrors _).mpr ⟨n, hfirst, rfl⟩, ?_⟩
      rw [IndentError.message_eq_overflow_iff, IndentError.ofColumns_eq_overflow_iff]
      exact hlarge

/-- Twice the width is one more than 64 bits hold. -/
def steep : Settings := ⟨.pre, true, 9223372036854775808, "\n"⟩

/-- Post-order comes to the leaf first, and level order to the item above it. -/
theorem walkLines_fails_iff_lookalikes :
    lookalikes.IsTree ⟨0, by decide⟩ ∧ steep.indent = true ∧
      (∃ error, lookalikes.walkLines steep (some .post) ⟨0, by decide⟩ = .error (.indent error) ∧
        error.message = "attempt to multiply with overflow") ∧
      ∃ error, lookalikes.walkLines steep (some .level) ⟨0, by decide⟩ = .error (.indent error) ∧
        error.message = "Formatting argument out of range" := by
  have hindent : steep.indent = true := rfl
  refine ⟨isTree_lookalikes, hindent, ?_, ?_⟩
  · obtain ⟨depth, hdepth, -, -, hoverflow⟩ := walkLines_fails_iff isTree_lookalikes hindent (some .post)
    have hleaf : lookalikes.follow ⟨0, by decide⟩ [0, 0] = some ⟨2, by decide⟩ := by decide +kernel
    have htwo : depth ⟨2, by decide⟩ = 2 := hdepth _ _ hleaf
    have hpost : lookalikes.postOrder ⟨0, by decide⟩ =
        [⟨2, by decide⟩, ⟨1, by decide⟩, ⟨3, by decide⟩, ⟨0, by decide⟩] := by decide +kernel
    refine (hoverflow rfl).mpr ⟨⟨2, by decide⟩, ?_, ?_⟩
    · rw [hpost, List.find?_cons_of_pos]
      rw [htwo]
      decide
    · rw [htwo]
      decide
  · obtain ⟨depth, -, hfails, hwide, -⟩ := walkLines_fails_iff isTree_lookalikes hindent (some .level)
    have hhigh : 65535 < (lookalikes.unfold ⟨0, by decide⟩).height * steep.indentWidth.toNat := by decide +kernel
    obtain ⟨error, herror⟩ := hfails.mpr hhigh
    exact ⟨error, herror, (hwide (by decide)).1 error herror⟩

end Graph

end TreeWalk
