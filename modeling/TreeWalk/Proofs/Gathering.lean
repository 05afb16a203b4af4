import TreeWalk.Proofs.Nesting
import TreeWalk.Tree

/-!
Gathering the tree of the labels. Where a node comes in post-order, the trees of its children are finished and
nothing has been put on top of them, so they are what the node takes. It never finds too few, and behind the root
one tree is left: the root with the trees of its children below it, and so on down.
-/

namespace TreeWalk

namespace Tree

variable {α : Type}

theorem exists_tree_of_postorderAll_eq {ts : List (Tree α)} {front back : List α} {v : α}
    (h : postorderAll ts = front ++ v :: back) :
    ∃ us t ws front' back', ts = us ++ t :: ws ∧ front = postorderAll us ++ front' ∧
      t.postorder = front' ++ v :: back' := by
  induction ts generalizing front with
  | nil => exact absurd h.symm (List.append_ne_nil_of_right_ne_nil _ (List.cons_ne_nil v back))
  | cons t ts ih =>
      rw [postorderAll] at h
      rcases List.append_eq_append_iff.mp h with ⟨front', rfl, hlater⟩ | ⟨back', hhere, hrest⟩
      · obtain ⟨us, s, ws, front'', back'', rfl, rfl, hs⟩ := ih hlater
        refine ⟨t :: us, s, ws, front'', back'', rfl, ?_, hs⟩
        rw [postorderAll, List.append_assoc]
      · cases back' with
        | nil =>
            have hlater : postorderAll ts = [] ++ v :: back := hrest.symm
            obtain ⟨us, s, ws, front'', back'', rfl, hfront, hs⟩ := ih hlater
            refine ⟨t :: us, s, ws, front'', back'', rfl, ?_, hs⟩
            rw [postorderAll, List.append_assoc, ← hfront, hhere, List.append_nil, List.append_nil]
        | cons w back' =>
            obtain ⟨rfl, -⟩ := List.cons.inj hrest
            exact ⟨[], t, ts, front, back', rfl, rfl, hhere⟩

/-- Each place of post-order is the end of the block of an inner tree. -/
theorem exists_inside_of_postorder_eq {t : Tree α} {front back : List α} {v : α}
    (h : t.postorder = front ++ v :: back) :
    ∃ before ts, front = before ++ postorderAll ts ∧ Inside (.node v ts) t := by
  induction t using induct generalizing front back with
  | node w ts ih =>
      rw [postorder] at h
      cases back using List.reverseRecOn with
      | nil =>
          obtain ⟨hbelow, hlast⟩ := List.append_inj' h rfl
          obtain rfl : w = v := (List.cons.inj hlast).1
          exact ⟨[], ts, hbelow.symm, .self⟩
      | append_singleton back u =>
          rw [← List.cons_append, ← List.append_assoc] at h
          obtain ⟨hbelow, -⟩ := List.append_inj' h rfl
          obtain ⟨us, s, ws, front', back', rfl, rfl, hs⟩ := exists_tree_of_postorderAll_eq hbelow
          have hmem : s ∈ us ++ s :: ws := List.mem_append_right us List.mem_cons_self
          obtain ⟨before, ss, rfl, hinside⟩ := ih s hmem hs
          exact ⟨postorderAll us ++ before, ss, (List.append_assoc _ _ _).symm, hinside.deeper hmem⟩

end Tree

namespace Graph

variable {α : Type} {G : Graph α}

theorem Unfolds.of_inside {s t : Tree G.Node} (ht : G.Unfolds t) (h : s.Inside t) : G.Unfolds s := by
  induction h with
  | self => exact ht
  | deeper _ hchild ih => exact ih (ht.subtree hchild)

section Gathering

variable (label : G.Node → String)

/-- Nodes finished in two portions. -/
theorem gather_append (front back : List G.Node) (built : List (Tree String)) :
    G.gather label (front ++ back) built = (G.gather label front built).bind (G.gather label back) := by
  induction front generalizing built with
  | nil => rfl
  | cons n front ih =>
      rw [List.cons_append, gather, gather]
      by_cases henough : (built.take (G.view n).forward.remaining).length = (G.view n).forward.remaining
      · simp only [henough, if_true, ih]
      · simp only [henough, if_false, Option.bind_none]

theorem gather_cons (n : G.Node) (rest : List G.Node) (leaves built : List (Tree String))
    (harity : leaves.length = (G.children n).length) :
    G.gather label (n :: rest) (leaves.reverse ++ built) =
      G.gather label rest (.node (label n) leaves :: built) := by
  have hremaining : (G.view n).forward.remaining = leaves.reverse.length := by
    rw [ChildView.remaining_forward, List.length_reverse, harity]
    rfl
  rw [gather]
  simp only [hremaining, List.take_left, List.drop_left, List.reverse_reverse, if_true]

theorem gather_postorderAll_of {ts : List (Tree G.Node)}
    (h : ∀ t ∈ ts, ∀ rest built,
      G.gather label (t.postorder ++ rest) built = G.gather label rest (t.map label :: built))
    (rest : List G.Node) (built : List (Tree String)) :
    G.gather label (Tree.postorderAll ts ++ rest) built =
      G.gather label rest ((Tree.mapAll label ts).reverse ++ built) := by
  induction ts generalizing built with
  | nil => rfl
  | cons t ts ih =>
      rw [Tree.postorderAll, List.append_assoc, h t List.mem_cons_self,
        ih fun s hs => h s (List.mem_cons_of_mem t hs), Tree.mapAll, List.reverse_cons, List.append_assoc]
      rfl

/-- The nodes of a tree in post-order leave its image on top of what was built before. -/
theorem Unfolds.gather_postorder {t : Tree G.Node} (ht : G.Unfolds t) (rest : List G.Node)
    (built : List (Tree String)) :
    G.gather label (t.postorder ++ rest) built = G.gather label rest (t.map label :: built) := by
  induction ht generalizing rest built with
  | @node n ts hvalues _ ih =>
      have harity : (Tree.mapAll label ts).length = (G.children n).length := by
        rw [Tree.mapAll_eq_map, ← hvalues, List.length_map, List.length_map]
      rw [Tree.postorder, List.append_assoc, gather_postorderAll_of label (fun t ht => ih t ht)]
      exact gather_cons label n rest _ built harity

theorem Unfolds.gather_postOrder {t : Tree G.Node} (ht : G.Unfolds t) :
    G.gather label (G.postOrder t.value) [] = some [t.map label] := by
  have hgather := ht.gather_postorder label [] []
  rw [List.append_nil] at hgather
  rw [ht.postOrder_eq, hgather]
  rfl

theorem Unfolds.labelTree_eq {t : Tree G.Node} (ht : G.Unfolds t) :
    G.labelTree label t.value = t.map label := by
  rw [labelTree, ht.gather_postOrder]

/-- The images of the trees below a node are the trees gathered from its children. -/
theorem Unfolds.mapAll_label {n : G.Node} {ts : List (Tree G.Node)} (h : G.Unfolds (.node n ts)) :
    Tree.mapAll label ts = (G.children n).map (G.labelTree label) := by
  rw [Tree.mapAll_eq_map, ← h.values, List.map_map]
  exact List.map_congr_left fun t ht => ((h.subtree ht).labelTree_eq label).symm

/-- Before a node is finished, the trees of its children lie on top. The whole run ends well, so its beginning
does. -/
theorem Unfolds.gather_before {t : Tree G.Node} (ht : G.Unfolds t) {front back : List G.Node} {n : G.Node}
    (hsplit : G.postOrder t.value = front ++ n :: back) :
    ∃ below, G.gather label front [] = some (((G.children n).map (G.labelTree label)).reverse ++ below) := by
  have hwhole := ht.gather_postOrder label
  rw [ht.postOrder_eq] at hsplit hwhole
  obtain ⟨before, ts, rfl, hinside⟩ := Tree.exists_inside_of_postorder_eq hsplit
  have hunfolds : G.Unfolds (.node n ts) := ht.of_inside hinside
  rw [hsplit, List.append_assoc, gather_append] at hwhole
  obtain ⟨below, hbefore, -⟩ := Option.bind_eq_some_iff.mp hwhole
  have hchildren := gather_postorderAll_of label
    (fun s hs => (hunfolds.subtree hs).gather_postorder label) [] below
  rw [List.append_nil] at hchildren
  refine ⟨below, ?_⟩
  rw [gather_append, hbefore, Option.bind_some, hchildren, hunfolds.mapAll_label]
  rfl

theorem AcyclicFrom.labelTree_eq_node {n : G.Node} (h : G.AcyclicFrom n) :
    G.labelTree label n = .node (label n) ((G.children n).map (G.labelTree label)) := by
  obtain ⟨⟨m, ts⟩, ht, rfl⟩ := acyclicFrom_iff_exists_unfolds.mp h
  rw [ht.labelTree_eq, Tree.map, ht.mapAll_label]
  rfl

end Gathering

/-- Without cycles each node of post-order finds the trees of its children on top of what has been built, all of
them and in their order. In the end one tree is left. It has the label of the root, and below it the trees of the
children of the root, and so it goes on at every node under the root. -/
theorem gather_postOrder_recursive {root : G.Node} (h : G.AcyclicFrom root) (label : G.Node → String) :
    (∀ front n back, G.postOrder root = front ++ n :: back →
      ∃ built, G.gather label front [] = some built ∧ (G.view n).forward.remaining ≤ built.length ∧
        (built.take (G.view n).forward.remaining).reverse = (G.children n).map (G.labelTree label)) ∧
    G.gather label (G.postOrder root) [] = some [G.labelTree label root] ∧
    ∀ n, G.Reaches root n →
      G.labelTree label n = .node (label n) ((G.children n).map (G.labelTree label)) := by
  have hequation : ∀ n, G.Reaches root n →
      G.labelTree label n = .node (label n) ((G.children n).map (G.labelTree label)) :=
    fun n hn => (h.of_reaches hn).labelTree_eq_node label
  obtain ⟨t, ht, rfl⟩ := acyclicFrom_iff_exists_unfolds.mp h
  refine ⟨fun front n back hsplit => ?_, ?_, hequation⟩
  · obtain ⟨below, hfront⟩ := ht.gather_before label hsplit
    have harity : (G.view n).forward.remaining = ((G.children n).map (G.labelTree label)).reverse.length := by
      rw [ChildView.remaining_forward, List.length_reverse, List.length_map]
      rfl
    refine ⟨_, hfront, ?_, ?_⟩
    · rw [harity, List.length_append]
      exact Nat.le_add_right _ _
    · rw [harity, List.take_left, List.reverse_reverse]
  · rw [ht.gather_postOrder, ht.labelTree_eq]

theorem gather_postOrder_recursive_diamond :
    diamond.AcyclicFrom ⟨0, by decide⟩ ∧
      diamond.gather (fun _ => "item") (diamond.postOrder ⟨0, by decide⟩) [] =
        some [diamond.labelTree (fun _ => "item") ⟨0, by decide⟩] ∧
      diamond.labelTree (fun _ => "item") ⟨0, by decide⟩ =
        .node "item" ((diamond.children ⟨0, by decide⟩).map (diamond.labelTree fun _ => "item")) := by
  obtain ⟨-, hone, hequation⟩ := gather_postOrder_recursive acyclicFrom_diamond fun _ => "item"
  exact ⟨acyclicFrom_diamond, hone, hequation _ Relation.ReflTransGen.refl⟩

end Graph

end TreeWalk
