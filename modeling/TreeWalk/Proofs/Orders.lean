import TreeWalk.Proofs.Walks

/-!
The depth-first walks against the recursive orders of a tree. A walk that finds a tree on top of its
stack gives the places of this tree first and then goes on with the rest of the stack as if the tree had
not been there. For pre-order that is the recursive pre-order; the discovery behind post-order goes
through the recursive post-order from its end.
-/

namespace TreeWalk

open Source (Yields)

/-! ### Post-order -/

namespace Tree

variable {α β : Type}

mutual

/-- The values, each behind those below it and siblings from left to right. -/
def postorder : Tree α → List α
  | node v ts => postorderAll ts ++ [v]

def postorderAll : List (Tree α) → List α
  | [] => []
  | t :: ts => t.postorder ++ postorderAll ts

end

theorem postorderAll_eq_flatMap (ts : List (Tree α)) : postorderAll ts = ts.flatMap postorder := by
  induction ts with
  | nil => rfl
  | cons t ts ih => rw [postorderAll, ih, List.flatMap_cons]

theorem postorderAll_append (ss ts : List (Tree α)) :
    postorderAll (ss ++ ts) = postorderAll ss ++ postorderAll ts := by
  simp [postorderAll_eq_flatMap]

theorem postorder_map (f : α → β) (t : Tree α) : (t.map f).postorder = t.postorder.map f := by
  induction t using induct with
  | node v ts ih =>
      rw [map, postorder, postorder, mapAll_eq_map, postorderAll_eq_flatMap, postorderAll_eq_flatMap,
        List.flatMap_map, List.map_append, List.map_flatMap, List.flatMap_congr ih]
      rfl

theorem postorderAll_map (f : α → β) (ts : List (Tree α)) :
    postorderAll (ts.map (map f)) = (postorderAll ts).map f := by
  rw [postorderAll_eq_flatMap, postorderAll_eq_flatMap, List.flatMap_map, List.map_flatMap]
  exact List.flatMap_congr fun t _ => postorder_map f t

theorem postorderAll_perm_of {ts : List (Tree α)} (h : ∀ t ∈ ts, t.postorder.Perm t.preorder) :
    (postorderAll ts).Perm (preorderAll ts) := by
  rw [postorderAll_eq_flatMap, preorderAll_eq_flatMap]
  exact List.Perm.flatMap_left ts h

theorem postorder_perm (t : Tree α) : t.postorder.Perm t.preorder := by
  induction t using induct with
  | node v ts ih =>
      rw [postorder, preorder]
      exact List.perm_append_comm.trans ((postorderAll_perm_of ih).cons v)

theorem postorderAll_perm (ts : List (Tree α)) : (postorderAll ts).Perm (preorderAll ts) :=
  postorderAll_perm_of fun t _ => t.postorder_perm

end Tree

/-! ### The walks -/

variable {α : Type} {G : Graph α}

/-- Trees on top of the stack come first, whatever lies below them. -/
theorem PreOrder.yields_forest_of {ts : List (Tree G.Node)}
    (h : ∀ t ∈ ts, ∀ rest items, Yields next items (⟨rest⟩ : PreOrder G) →
      Yields next (t.preorder ++ items) (⟨t.value :: rest⟩ : PreOrder G))
    {rest items : List G.Node} (hrest : Yields next items (⟨rest⟩ : PreOrder G)) :
    Yields next (Tree.preorderAll ts ++ items) (⟨ts.map Tree.value ++ rest⟩ : PreOrder G) := by
  induction ts with
  | nil => exact hrest
  | cons t ts ih =>
      have htail := ih fun s hs => h s (List.mem_cons_of_mem t hs)
      rw [Tree.preorderAll, List.append_assoc]
      exact h t List.mem_cons_self _ _ htail

theorem PreOrder.yields_tree {t : Tree G.Node} (ht : G.Unfolds t) {rest items : List G.Node}
    (hrest : Yields next items (⟨rest⟩ : PreOrder G)) :
    Yields next (t.preorder ++ items) (⟨t.value :: rest⟩ : PreOrder G) := by
  induction ht generalizing rest items with
  | @node n ts hvalues _ ih =>
      refine ⟨⟨G.children n ++ rest⟩, next_cons n rest, ?_⟩
      rw [← hvalues]
      exact yields_forest_of (fun t hmem _ _ => ih t hmem) hrest

/-- The discovery takes the trees on top of the stack from the last to the first, and each of them from
the end of its post-order. -/
theorem Discovery.yields_forest_of {ts : List (Tree G.Node)}
    (h : ∀ t ∈ ts, ∀ rest items, Yields next items (⟨rest⟩ : Discovery G) →
      Yields next (t.postorder.reverse ++ items) (⟨t.value :: rest⟩ : Discovery G))
    {rest items : List G.Node} (hrest : Yields next items (⟨rest⟩ : Discovery G)) :
    Yields next ((Tree.postorderAll ts).reverse ++ items)
      (⟨(ts.map Tree.value).reverse ++ rest⟩ : Discovery G) := by
  induction ts generalizing rest items with
  | nil => exact hrest
  | cons t ts ih =>
      have hfirst := h t List.mem_cons_self rest items hrest
      rw [Tree.postorderAll, List.reverse_append, List.append_assoc, List.map_cons, List.reverse_cons,
        List.append_assoc]
      exact ih (fun s hs => h s (List.mem_cons_of_mem t hs)) hfirst

theorem Discovery.yields_tree {t : Tree G.Node} (ht : G.Unfolds t) {rest items : List G.Node}
    (hrest : Yields next items (⟨rest⟩ : Discovery G)) :
    Yields next (t.postorder.reverse ++ items) (⟨t.value :: rest⟩ : Discovery G) := by
  induction ht generalizing rest items with
  | @node n ts hvalues _ ih =>
      rw [Tree.postorder, List.reverse_append]
      refine ⟨⟨(G.children n).reverse ++ rest⟩, next_cons n rest, ?_⟩
      rw [← hvalues]
      exact yields_forest_of (fun t hmem _ _ => ih t hmem) hrest

namespace Graph.Unfolds

variable {t : Tree G.Node}

theorem yields_preorder (ht : G.Unfolds t) : Yields PreOrder.next t.preorder (.start t.value) := by
  have hempty : Yields PreOrder.next [] (⟨[]⟩ : PreOrder G) := rfl
  rw [← List.append_nil t.preorder]
  exact PreOrder.yields_tree ht hempty

theorem yields_postorder_reverse (ht : G.Unfolds t) :
    Yields Discovery.next t.postorder.reverse (.start t.value) := by
  have hempty : Yields Discovery.next [] (⟨[]⟩ : Discovery G) := rfl
  rw [← List.append_nil t.postorder.reverse]
  exact Discovery.yields_tree ht hempty

theorem preOrder_eq (ht : G.Unfolds t) : G.preOrder t.value = t.preorder := by
  apply ht.yields_preorder.drain_eq
  rw [Tree.length_preorder]
  exact ht.size_le_pathBound

theorem postOrder_eq (ht : G.Unfolds t) : G.postOrder t.value = t.postorder := by
  have hlength : t.postorder.reverse.length ≤ G.pathBound := by
    rw [List.length_reverse, t.postorder_perm.length_eq, Tree.length_preorder]
    exact ht.size_le_pathBound
  rw [(G.yields_postOrder t.value).2, ht.yields_postorder_reverse.drain_eq hlength, List.reverse_reverse]

end Graph.Unfolds

theorem Graph.AcyclicFrom.mem_preOrder_iff {root n : G.Node} (h : G.AcyclicFrom root) :
    n ∈ G.preOrder root ↔ G.Reaches root n := by
  obtain ⟨t, ht, rfl⟩ := acyclicFrom_iff_exists_unfolds.mp h
  rw [ht.preOrder_eq, ht.mem_preorder_iff]

end TreeWalk
