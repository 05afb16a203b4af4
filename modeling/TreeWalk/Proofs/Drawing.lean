import TreeWalk.Listing
import TreeWalk.Proofs.Gathering
import TreeWalk.Proofs.Levels
import TreeWalk.Proofs.Outline

/-!
Drawn trees. Along post-order the trees of a node's children are the last ones finished, so what is gathered
is the tree of the labels. Each of its places takes one line, in pre-order. A label may look like part of the
drawing; still the margin of a line can be told from its label, since the margin consists of columns and one
arm behind them, and no column is an arm. The lines therefore give the depths and the labels, and these give
the tree.
-/

namespace TreeWalk

/-! ### Labels -/

namespace Graph

variable {α : Type} {G : Graph α}

/-- The same nodes with a text for each as its value. -/
abbrev labelled (G : Graph α) (label : G.Node → String) : Graph String := ⟨G.size, label, G.view⟩

section Labels

variable (label : G.Node → String)

theorem Unfolds.labelled {t : Tree G.Node} (ht : G.Unfolds t) : (G.labelled label).Unfolds t := by
  induction ht with
  | node values _ ih => exact .node values ih

theorem Unfolds.unfold_labelled {t : Tree G.Node} (ht : G.Unfolds t) :
    (G.labelled label).unfold t.value = t.map label := (ht.labelled label).unfold_eq_map

/-- What is gathered along post-order is the tree under the root, with the labels as its values. -/
theorem AcyclicFrom.labelTree_eq_unfold {root : G.Node} (h : G.AcyclicFrom root) :
    G.labelTree label root = (G.labelled label).unfold root := by
  obtain ⟨t, ht, rfl⟩ := acyclicFrom_iff_exists_unfolds.mp h
  rw [ht.labelTree_eq, ht.unfold_labelled]

theorem AcyclicFrom.preorder_unfold_labelled {root : G.Node} (h : G.AcyclicFrom root) :
    ((G.labelled label).unfold root).preorder = (G.preOrder root).map label := by
  obtain ⟨t, ht, rfl⟩ := acyclicFrom_iff_exists_unfolds.mp h
  rw [ht.unfold_labelled, Tree.preorder_map, ht.preOrder_eq]

end Labels

end Graph

/-! ### Lines -/

theorem append_feed_inj {line line' rest rest' : List Char} (hline : '\n' ∉ line) (hline' : '\n' ∉ line')
    (h : line ++ '\n' :: rest = line' ++ '\n' :: rest') : line = line' ∧ rest = rest' := by
  induction line generalizing line' with
  | nil =>
      cases line' with
      | nil => exact ⟨rfl, (List.cons.inj h).2⟩
      | cons c line' => exact absurd ((List.cons.inj h).1 ▸ List.mem_cons_self) hline'
  | cons c line ih =>
      rw [List.mem_cons, not_or] at hline
      cases line' with
      | nil => exact absurd (List.cons.inj h).1.symm hline.1
      | cons c' line' =>
          rw [List.mem_cons, not_or] at hline'
          obtain ⟨rfl, htail⟩ := List.cons.inj h
          obtain ⟨rfl, hrests⟩ := ih hline.2 hline'.2 htail
          exact ⟨rfl, hrests⟩

theorem toList_join_cons (line : String) (lines : List String) :
    (String.join ((line :: lines).map (· ++ "\n"))).toList =
      line.toList ++ '\n' :: (String.join (lines.map (· ++ "\n"))).toList := by
  rw [List.map_cons, String.join_cons, String.toList_append, String.toList_append, List.append_assoc]
  rfl

/-- A text gives back the lines it was put together from. -/
theorem join_lines_inj {lines lines' : List String} (hlines : ∀ line ∈ lines, '\n' ∉ line.toList)
    (hlines' : ∀ line ∈ lines', '\n' ∉ line.toList)
    (h : String.join (lines.map (· ++ "\n")) = String.join (lines'.map (· ++ "\n"))) : lines = lines' := by
  induction lines generalizing lines' with
  | nil =>
      cases lines' with
      | nil => rfl
      | cons line' lines' =>
          have hchars := congrArg String.toList h
          rw [toList_join_cons] at hchars
          exact absurd hchars.symm (List.append_ne_nil_of_right_ne_nil _ (List.cons_ne_nil _ _))
  | cons line lines ih =>
      cases lines' with
      | nil =>
          have hchars := congrArg String.toList h
          rw [toList_join_cons] at hchars
          exact absurd hchars (List.append_ne_nil_of_right_ne_nil _ (List.cons_ne_nil _ _))
      | cons line' lines' =>
          rw [List.forall_mem_cons] at hlines hlines'
          have hchars := congrArg String.toList h
          rw [toList_join_cons, toList_join_cons] at hchars
          obtain ⟨hhead, htail⟩ := append_feed_inj hlines.1 hlines'.1 hchars
          rw [String.toList_inj.mp hhead, ih hlines.2 hlines'.2 (String.toList_inj.mp htail)]

theorem append_inj_of_length {front front' back back' : String} (hlength : front.length = front'.length)
    (h : front ++ back = front' ++ back') : front = front' ∧ back = back' := by
  have hchars := congrArg String.toList h
  rw [String.toList_append, String.toList_append] at hchars
  obtain ⟨hfront, hback⟩ := List.append_inj hchars hlength
  exact ⟨String.toList_inj.mp hfront, String.toList_inj.mp hback⟩

namespace Tree

/-! ### Margins -/

/-- The columns before a line, for the places above it below the root, each with whether it is the last
child. -/
def margin (lasts : List Bool) : String := String.join (lasts.map column)

theorem margin_nil : margin [] = "" := rfl

theorem margin_cons (isLast : Bool) (lasts : List Bool) :
    margin (isLast :: lasts) = column isLast ++ margin lasts := String.join_cons

theorem margin_append_singleton (lasts : List Bool) (isLast : Bool) :
    margin (lasts ++ [isLast]) = margin lasts ++ column isLast := by
  induction lasts with
  | nil => rw [List.nil_append, margin_cons, margin_nil, String.append_empty, String.empty_append]
  | cons last lasts ih => rw [List.cons_append, margin_cons, ih, margin_cons, String.append_assoc]

theorem length_column (isLast : Bool) : (column isLast).length = 4 := by cases isLast <;> rfl

theorem length_arm (isLast : Bool) : (arm isLast).length = 4 := by cases isLast <;> rfl

theorem column_append_ne_arm_append (last isLast : Bool) (back back' : String) :
    column last ++ back ≠ arm isLast ++ back' := by
  intro h
  have hpieces := (append_inj_of_length ((length_column last).trans (length_arm isLast).symm) h).1
  revert hpieces
  cases last <;> cases isLast <;> decide

/-- The arm is the first piece of four characters that is no column, so a label that begins with columns or
arms of its own is still told from the margin. -/
theorem margin_append_inj {lasts lasts' : List Bool} {isLast isLast' : Bool} {label label' : String}
    (h : margin lasts ++ (arm isLast ++ label) = margin lasts' ++ (arm isLast' ++ label')) :
    lasts.length = lasts'.length ∧ label = label' := by
  induction lasts generalizing lasts' with
  | nil =>
      rw [margin_nil, String.empty_append] at h
      cases lasts' with
      | nil =>
          rw [margin_nil, String.empty_append] at h
          have hlength := (length_arm isLast).trans (length_arm isLast').symm
          exact ⟨rfl, (append_inj_of_length hlength h).2⟩
      | cons last' lasts' =>
          rw [margin_cons, String.append_assoc] at h
          exact absurd h.symm (column_append_ne_arm_append _ _ _ _)
  | cons last lasts ih =>
      rw [margin_cons, String.append_assoc] at h
      cases lasts' with
      | nil =>
          rw [margin_nil, String.empty_append] at h
          exact absurd h (column_append_ne_arm_append _ _ _ _)
      | cons last' lasts' =>
          rw [margin_cons, String.append_assoc] at h
          have hlength := (length_column last).trans (length_column last').symm
          obtain ⟨hdepths, hlabels⟩ := ih (append_inj_of_length hlength h).2
          exact ⟨congrArg (· + 1) hdepths, hlabels⟩

/-! ### Rows and their lines -/

/-- The line of a place below the root: a column for each place above it below the root, an arm, and its
label. -/
def Shows (line : String) (row : Nat × String) : Prop :=
  ∃ (lasts : List Bool) (isLast : Bool),
    row.1 = lasts.length + 1 ∧ line = margin lasts ++ (arm isLast ++ row.2)

theorem rightUnique_shows : Relator.RightUnique Shows := by
  rintro line ⟨depth, label⟩ ⟨depth', label'⟩ ⟨lasts, isLast, rfl, rfl⟩ ⟨lasts', isLast', rfl, hline⟩
  obtain ⟨hdepths, hlabels⟩ := margin_append_inj hline
  exact Prod.ext (congrArg (· + 1) hdepths) hlabels

theorem feed_notMem_margin (lasts : List Bool) : '\n' ∉ (margin lasts).toList := by
  induction lasts with
  | nil => decide
  | cons last lasts ih =>
      have hcolumn : '\n' ∉ (column last).toList := by cases last <;> decide
      rw [margin_cons, String.toList_append, List.mem_append, not_or]
      exact ⟨hcolumn, ih⟩

theorem Shows.feed_notMem {line : String} {row : Nat × String} (h : Shows line row)
    (hlabel : '\n' ∉ row.2.toList) : '\n' ∉ line.toList := by
  obtain ⟨lasts, isLast, -, rfl⟩ := h
  have harm : '\n' ∉ (arm isLast).toList := by cases isLast <;> decide
  rw [String.toList_append, String.toList_append, List.mem_append, List.mem_append, not_or, not_or]
  exact ⟨feed_notMem_margin lasts, harm, hlabel⟩

theorem feed_notMem_of_forall₂ {lines : List String} {rows : List (Nat × String)}
    (h : List.Forall₂ Shows lines rows) (hrows : ∀ row ∈ rows, '\n' ∉ row.2.toList) :
    ∀ line ∈ lines, '\n' ∉ line.toList := by
  induction h with
  | nil => exact fun line hline => absurd hline List.not_mem_nil
  | cons hshows _ ih =>
      rw [List.forall_mem_cons] at hrows
      exact List.forall_mem_cons.mpr ⟨hshows.feed_notMem hrows.1, ih hrows.2⟩

theorem forall₂_branches_of {ts : List (Tree String)} (lasts : List Bool)
    (h : ∀ t ∈ ts, ∀ isLast,
      List.Forall₂ Shows (t.branch (margin lasts) isLast) (t.outline (lasts.length + 1))) :
    List.Forall₂ Shows (branches (margin lasts) ts) (outlineAll (lasts.length + 1) ts) := by
  induction ts with
  | nil => exact .nil
  | cons t ts ih =>
      rw [branches, outlineAll]
      exact List.rel_append (h t List.mem_cons_self _) (ih fun s hs => h s (List.mem_cons_of_mem t hs))

theorem forall₂_branch (t : Tree String) (lasts : List Bool) (isLast : Bool) :
    List.Forall₂ Shows (t.branch (margin lasts) isLast) (t.outline (lasts.length + 1)) := by
  induction t using induct generalizing lasts isLast with
  | node label ts ih =>
      have hbelow := forall₂_branches_of (lasts ++ [isLast]) fun t ht => ih t ht (lasts ++ [isLast])
      rw [margin_append_singleton, List.length_append, List.length_singleton] at hbelow
      rw [branch, outline, String.append_assoc]
      exact .cons ⟨lasts, isLast, rfl, rfl⟩ hbelow

/-- Each place below the root takes one line, in the order of the outline. -/
theorem forall₂_branches (ts : List (Tree String)) : List.Forall₂ Shows (branches "" ts) (outlineAll 1 ts) :=
  forall₂_branches_of [] fun t _ => forall₂_branch t []

theorem lines_eq_cons (t : Tree String) : t.lines = t.value :: branches "" t.children := by
  cases t with
  | node label ts => rfl

theorem feed_notMem_lines {t : Tree String} (h : ∀ label ∈ t.preorder, '\n' ∉ label.toList) :
    ∀ line ∈ t.lines, '\n' ∉ line.toList := by
  rw [← map_snd_outline 0, List.forall_mem_map, outline_eq_cons, List.forall_mem_cons] at h
  rw [lines_eq_cons, List.forall_mem_cons]
  exact ⟨h.1, feed_notMem_of_forall₂ (forall₂_branches t.children) h.2⟩

/-- A drawing without a line feed in a label is the drawing of one tree only. -/
theorem draw_inj {s t : Tree String} (hs : ∀ label ∈ s.preorder, '\n' ∉ label.toList)
    (ht : ∀ label ∈ t.preorder, '\n' ∉ label.toList) (h : s.draw = t.draw) : s = t := by
  have hlines := join_lines_inj (feed_notMem_lines hs) (feed_notMem_lines ht) h
  obtain ⟨label, ss⟩ := s
  obtain ⟨label', ts⟩ := t
  obtain ⟨rfl, hbelow⟩ := List.cons.inj hlines
  have hrows := forall₂_branches ss
  rw [hbelow] at hrows
  have houtlines := List.right_unique_forall₂' rightUnique_shows hrows (forall₂_branches ts)
  rw [outlineAll_injective 1 houtlines]

end Tree

/-! ### Drawn graphs -/

namespace Graph

variable {α β : Type}

theorem AcyclicFrom.feed_notMem_preorder {G : Graph α} {root : G.Node} (h : G.AcyclicFrom root)
    {label : G.Node → String} (hlabel : ∀ n, G.Reaches root n → '\n' ∉ (label n).toList) :
    ∀ text ∈ ((G.labelled label).unfold root).preorder, '\n' ∉ text.toList := by
  rw [h.preorder_unfold_labelled label, List.forall_mem_map]
  exact fun n hn => hlabel n (h.mem_preOrder_iff.mp hn)

/-- Two drawings are the same exactly when the trees under the two roots are, labels and order of children
included. A drawing has one line for each place of the tree, in pre-order. -/
theorem draw_labelTree_eq_iff {G : Graph α} {H : Graph β} {a : G.Node} {b : H.Node}
    {label : G.Node → String} {label' : H.Node → String} (ha : G.AcyclicFrom a) (hb : H.AcyclicFrom b)
    (hlabel : ∀ n, G.Reaches a n → '\n' ∉ (label n).toList)
    (hlabel' : ∀ n, H.Reaches b n → '\n' ∉ (label' n).toList) :
    ((G.labelTree label a).draw = (H.labelTree label' b).draw ↔
      (G.labelled label).unfold a = (H.labelled label').unfold b) ∧
    ∃ below : List String,
      (G.labelTree label a).draw = String.join ((label a :: below).map (· ++ "\n")) ∧
      (∀ line ∈ label a :: below, '\n' ∉ line.toList) ∧
      List.Forall₂ Tree.Shows below (Tree.outlineAll 1 ((G.labelled label).unfold a).children) ∧
      label a :: (Tree.outlineAll 1 ((G.labelled label).unfold a).children).map Prod.snd =
        (G.preOrder a).map label := by
  have hfeed := ha.feed_notMem_preorder hlabel
  have hfeed' := hb.feed_notMem_preorder hlabel'
  rw [ha.labelTree_eq_unfold, hb.labelTree_eq_unfold, ← ha.preorder_unfold_labelled]
  refine ⟨⟨Tree.draw_inj hfeed hfeed', congrArg Tree.draw⟩, ?_⟩
  have hroot : ((G.labelled label).unfold a).value = label a := (G.labelled label).value_unfold a
  have hlines := Tree.feed_notMem_lines hfeed
  rw [Tree.lines_eq_cons, hroot] at hlines
  refine ⟨Tree.branches "" ((G.labelled label).unfold a).children, ?_, hlines, Tree.forall₂_branches _, ?_⟩
  · rw [Tree.draw, Tree.lines_eq_cons, hroot]
  · rw [← Tree.map_snd_outline 0, Tree.outline_eq_cons, List.map_cons, hroot]

/-- A leaf below the first child. -/
def thicket : Graph Symbol :=
  .ofRows #[⟨⟨"list", none⟩, [1, 3], .row⟩, ⟨⟨"item", none⟩, [2], .halves⟩, ⟨⟨" leaf ", none⟩, [], .row⟩,
    ⟨⟨"item", none⟩, [], .row⟩]

/-- Leaves only, one of them with a label that begins like a line of a deeper leaf. -/
def hedge : Graph Symbol :=
  .ofRows #[⟨⟨"list", none⟩, [1, 2, 3], .row⟩, ⟨⟨"item", none⟩, [], .row⟩,
    ⟨⟨"│   └──  leaf ", none⟩, [], .row⟩, ⟨⟨"item", none⟩, [], .row⟩]

theorem draw_labelTree_eq_iff_hedge :
    thicket.renderTree ⟨0, by decide⟩ ≠ hedge.renderTree ⟨0, by decide⟩ ∧
      ∃ below : List String, thicket.renderTree ⟨0, by decide⟩ =
        String.join ((thicket.label ⟨0, by decide⟩ :: below).map (· ++ "\n")) ∧ below.length = 3 := by
  have hthicket : thicket.AcyclicFrom ⟨0, by decide⟩ := acyclicFrom_of_lt (by decide +kernel) _
  have hhedge : hedge.AcyclicFrom ⟨0, by decide⟩ := acyclicFrom_of_lt (by decide +kernel) _
  have hlabel : ∀ n, '\n' ∉ (thicket.label n).toList := by decide +kernel
  have hlabel' : ∀ n, '\n' ∉ (hedge.label n).toList := by decide +kernel
  have hdiffer : (thicket.labelled thicket.label).unfold ⟨0, by decide⟩ ≠
      (hedge.labelled hedge.label).unfold ⟨0, by decide⟩ := by decide +kernel
  obtain ⟨hsame, below, hdraw, -, hrows, -⟩ := draw_labelTree_eq_iff hthicket hhedge
    (fun n _ => hlabel n) (fun n _ => hlabel' n)
  have hlength : below.length = 3 := hrows.length_eq.trans (by decide +kernel)
  rw [renderTree, renderTree]
  exact ⟨fun h => hdiffer (hsame.mp h), below, hdraw, hlength⟩

end Graph

end TreeWalk
