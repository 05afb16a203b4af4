import TreeWalk.Proofs.Levels
import TreeWalk.Proofs.Views

/-!
Mirrored trees. Mirroring turns the children of each place around, so that pre-order of the mirrored tree is
post-order read from its end. The rows of the outline stay the same and only change their places. A graph in
which every child list is reversed unfolds to the mirrored tree.
-/

namespace TreeWalk

namespace Tree

variable {α : Type}

mutual

/-- The tree with the children of each place from the last to the first. -/
def mirror : Tree α → Tree α
  | node v ts => node v (mirrorAll ts)

def mirrorAll : List (Tree α) → List (Tree α)
  | [] => []
  | t :: ts => mirrorAll ts ++ [t.mirror]

end

theorem mirrorAll_eq_reverse (ts : List (Tree α)) : mirrorAll ts = (ts.map mirror).reverse := by
  induction ts with
  | nil => rfl
  | cons t ts ih => rw [mirrorAll, ih, List.map_cons, List.reverse_cons]

theorem value_mirror (t : Tree α) : t.mirror.value = t.value := by
  cases t with
  | node v ts => rfl

theorem mirror_mirror (t : Tree α) : t.mirror.mirror = t := by
  induction t using induct with
  | node v ts ih =>
      have hbelow : ts.map (mirror ∘ mirror) = ts := (List.map_congr_left ih).trans (List.map_id' ts)
      rw [mirror, mirror, mirrorAll_eq_reverse, mirrorAll_eq_reverse, List.map_reverse, List.reverse_reverse,
        List.map_map, hbelow]

theorem mirror_injective : Function.Injective (mirror : Tree α → Tree α) :=
  Function.LeftInverse.injective mirror_mirror

/-- The root moves from the end to the front, and the trees below it change their order as they are turned
around themselves. -/
theorem preorder_mirror (t : Tree α) : t.mirror.preorder = t.postorder.reverse := by
  induction t using induct with
  | node v ts ih =>
      have hbelow : preorderAll (mirrorAll ts) = (postorderAll ts).reverse := by
        calc preorderAll (mirrorAll ts)
            = ts.reverse.flatMap fun t => t.mirror.preorder := by
              rw [preorderAll_eq_flatMap, mirrorAll_eq_reverse, ← List.map_reverse, List.flatMap_map]
          _ = ts.reverse.flatMap fun t => t.postorder.reverse :=
              List.flatMap_congr fun t ht => ih t (List.mem_reverse.mp ht)
          _ = (postorderAll ts).reverse := by
              rw [postorderAll_eq_flatMap, List.reverse_flatMap]
              rfl
      rw [mirror, preorder, postorder, List.reverse_append, hbelow]
      rfl

theorem outline_mirror_perm (t : Tree α) (depth : Nat) : (t.mirror.outline depth).Perm (t.outline depth) := by
  induction t using induct generalizing depth with
  | node v ts ih =>
      rw [mirror, outline, outline, outlineAll_eq_flatMap, outlineAll_eq_flatMap, mirrorAll_eq_reverse]
      have hturned : ((ts.map mirror).reverse.flatMap (outline (depth + 1))).Perm
          ((ts.map mirror).flatMap (outline (depth + 1))) := (List.reverse_perm _).flatMap_right _
      rw [List.flatMap_map] at hturned
      exact (hturned.trans (List.Perm.flatMap_left ts fun t ht => ih t ht (depth + 1))).cons _

end Tree

namespace Graph

variable {α : Type} {G : Graph α} {view : G.Node → ChildView G.Node}

/-- Turning every child list around mirrors the tree. -/
theorem Unfolds.mirror (reversed : ∀ n, (view n).toList = (G.children n).reverse) {t : Tree G.Node}
    (ht : G.Unfolds t) : (G.withViews view).Unfolds t.mirror := by
  induction ht with
  | @node n ts hvalues _ ih =>
      rw [Tree.mirror, Tree.mirrorAll_eq_reverse]
      refine .node ?_ fun s hs => ?_
      · have hchildren : (G.withViews view).children n = (G.children n).reverse := reversed n
        rw [hchildren, ← hvalues, List.map_reverse, List.map_map]
        exact congrArg List.reverse (List.map_congr_left fun t _ => t.value_mirror)
      · obtain ⟨t, ht, rfl⟩ := List.mem_map.mp (List.mem_reverse.mp hs)
        exact ih t ht

end Graph

end TreeWalk
