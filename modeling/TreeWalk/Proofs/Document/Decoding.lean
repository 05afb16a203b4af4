import TreeWalk.Proofs.Document.Description
import TreeWalk.Proofs.ParentMap

/-!
The nodes that are made for a document. Wherever a child is read, in whichever notation, a node is made for
it behind all nodes made so far, and a node is never used again for another child. So what a document is
read as is a tree also by the identity of its nodes, however much its parts look alike, and it has as many
nodes as the document describes.
-/

namespace TreeWalk

namespace Arena

variable {A B : Arena} {n : B.Node}

theorem Fresh.exists_unfolds (h : Fresh A B [n]) :
    ∃ t, B.graph.Unfolds t ∧ t.value = n ∧ t.preorder.Nodup ∧ A.rows.size + t.size = B.rows.size := by
  obtain ⟨ts, hts⟩ := h
  obtain ⟨t, rfl, hroot⟩ := List.map_eq_singleton_iff.mp hts.roots
  have hnumbers := hts.numbers
  rw [Tree.postorderAll, Tree.postorderAll, List.append_nil] at hnumbers
  refine ⟨t, hts.unfolds t List.mem_cons_self, hroot, ?_, ?_⟩
  · have hnodup : (List.range B.rows.size).Nodup := List.nodup_range
    rw [← hnumbers] at hnodup
    exact t.postorder_perm.nodup_iff.mp (List.Nodup.of_append_right hnodup).of_map
  · have hlength := congrArg List.length hnumbers
    rw [List.length_append, List.length_range, List.length_range, List.length_map,
      t.postorder_perm.length_eq, t.length_preorder] at hlength
    exact hlength

theorem Fresh.isTree (h : Fresh A B [n]) : B.graph.IsTree n := by
  obtain ⟨t, ht, rfl, hnodup, -⟩ := h.exists_unfolds
  obtain ⟨map, hmap⟩ := ParentMap.exists_build_of_unfolds ht hnodup
  exact ParentMap.isTree_of_build hmap

theorem Fresh.size_unfold (h : Fresh A B [n]) : A.rows.size + (B.graph.unfold n).size = B.rows.size := by
  obtain ⟨t, ht, rfl, -, hsize⟩ := h.exists_unfolds
  rw [ht.unfold_eq_map, Tree.size_map]
  exact hsize

end Arena

namespace Document

open Toml (Value Mismatch)
open Arena (Grown Fresh)

/-! ### Reading -/

theorem Fields.fresh_node {A : Arena} {fields : Fields A} {g : A.Grown Arena.Node}
    (hfields : Fresh A fields.children.arena fields.children.made) (h : fields.node = .ok g) :
    Fresh A g.arena [g.made] := by
  obtain ⟨kind, text, children⟩ := fields
  cases kind with
  | none => cases h
  | some kind =>
      cases h
      exact hfields.newest ⟨kind, text⟩

theorem fresh_cons {A : Arena} {child : A.Grown Arena.Node} {more : child.arena.Grown Arena.Nodes}
    (hchild : Fresh A child.arena [child.made]) (hmore : Fresh child.arena more.arena more.made) :
    Fresh A (child.cons more).arena (child.cons more).made :=
  hchild.append more.grows hmore

mutual

theorem fresh_of_readChild : ∀ (v : Value) {A : Arena} {g : A.Grown Arena.Node}, readChild A v = .ok g →
    Fresh A g.arena [g.made]
  | .table entries, A, g, h => by
      rw [readChild, bind_eq_ok_iff] at h
      obtain ⟨fields, hfields, hnode⟩ := h
      exact Fields.fresh_node (fresh_of_readFields entries hfields (Arena.fresh_nil A)) hnode
  | .array items, A, g, h => by
      rw [readChild] at h
      exact fresh_of_readPositions items h
  | .tables [], _, _, h | .tables (_ :: _), _, _, h | .string _, _, _, h | .integer _, _, _, h | .float _, _, _, h
  | .boolean _, _, _, h | .datetime _, _, _, h => by cases h

theorem fresh_of_readFields : ∀ (entries : List (String × Value)) {A : Arena} {fields after : Fields A},
    readFields fields entries = .ok after → Fresh A fields.children.arena fields.children.made →
    Fresh A after.children.arena after.children.made
  | [], A, fields, after, h, hfields => by
      rw [readFields] at h
      cases h
      exact hfields
  | (key, v) :: rest, A, fields, after, h, hfields => by
      rw [readFields] at h
      split at h
      · obtain ⟨kind, -, h⟩ := bind_eq_ok_iff.mp h
        exact fresh_of_readFields rest h hfields
      split at h
      · obtain ⟨text, -, h⟩ := bind_eq_ok_iff.mp h
        exact fresh_of_readFields rest h hfields
      split at h
      · obtain ⟨children, hchildren, h⟩ := bind_eq_ok_iff.mp h
        exact fresh_of_readFields rest h (fresh_of_readChildren v hchildren)
      · exact fresh_of_readFields rest h hfields

theorem fresh_of_readPositions : ∀ (items : List Value) {A : Arena} {g : A.Grown Arena.Node},
    readPositions A items = .ok g → Fresh A g.arena [g.made]
  | [], _, _, h => by cases h
  | [kind], A, g, h => by
      obtain ⟨kind, -, h⟩ := bind_eq_ok_iff.mp h
      cases h
      exact (Arena.fresh_nil A).newest _
  | [kind, text], A, g, h => by
      obtain ⟨kind, -, h⟩ := bind_eq_ok_iff.mp h
      obtain ⟨text, -, h⟩ := bind_eq_ok_iff.mp h
      cases h
      exact (Arena.fresh_nil A).newest _
  | kind :: text :: children :: _, A, g, h => by
      rw [readPositions] at h
      obtain ⟨kind, -, h⟩ := bind_eq_ok_iff.mp h
      obtain ⟨text, -, h⟩ := bind_eq_ok_iff.mp h
      obtain ⟨made, hmade, h⟩ := bind_eq_ok_iff.mp h
      cases h
      exact (fresh_of_readChildren children hmade).newest _

theorem fresh_of_readChildren : ∀ (v : Value) {A : Arena} {g : A.Grown Arena.Nodes}, readChildren A v = .ok g →
    Fresh A g.arena g.made
  | .array items, A, g, h => by
      rw [readChildren] at h
      exact fresh_of_readItems items h
  | .tables rows, A, g, h => by
      rw [readChildren] at h
      exact fresh_of_readRows rows h
  | .table _, _, _, h | .string _, _, _, h | .integer _, _, _, h | .float _, _, _, h | .boolean _, _, _, h
  | .datetime _, _, _, h => by cases h

theorem fresh_of_readItems : ∀ (items : List Value) {A : Arena} {g : A.Grown Arena.Nodes},
    readItems A items = .ok g → Fresh A g.arena g.made
  | [], A, g, h => by
      rw [readItems] at h
      cases h
      exact Arena.fresh_nil A
  | item :: rest, A, g, h => by
      rw [readItems] at h
      obtain ⟨child, hchild, h⟩ := bind_eq_ok_iff.mp h
      obtain ⟨more, hmore, h⟩ := bind_eq_ok_iff.mp h
      cases h
      exact fresh_cons (fresh_of_readChild item hchild) (fresh_of_readItems rest hmore)

theorem fresh_of_readRows : ∀ (rows : List (List (String × Value))) {A : Arena} {g : A.Grown Arena.Nodes},
    readRows A rows = .ok g → Fresh A g.arena g.made
  | [], A, g, h => by
      rw [readRows] at h
      cases h
      exact Arena.fresh_nil A
  | row :: rest, A, g, h => by
      rw [readRows] at h
      obtain ⟨fields, hfields, h⟩ := bind_eq_ok_iff.mp h
      obtain ⟨child, hchild, h⟩ := bind_eq_ok_iff.mp h
      obtain ⟨more, hmore, h⟩ := bind_eq_ok_iff.mp h
      cases h
      have hfresh := fresh_of_readFields row hfields (Arena.fresh_nil A)
      exact fresh_cons (Fields.fresh_node hfresh hchild) (fresh_of_readRows rest hmore)

end

/-! ### Documents -/

variable {content : String} {R : Rooted Symbol}

theorem exists_fresh_of_decode (h : decode content = .ok R) :
    ∃ g : Grown .empty Arena.Node, g.rooted = R ∧ Fresh .empty g.arena [g.made] := by
  rw [decode] at h
  split at h
  · cases h
  · rename_i table _
    rw [mapError_eq_ok_iff, map_eq_ok_iff] at h
    obtain ⟨g, hg, rfl⟩ := h
    exact ⟨g, rfl, fresh_of_readChild (.table table) hg⟩

/-- The nodes of a document form a tree, also where they look alike. -/
theorem isTree_of_decode (h : decode content = .ok R) : R.graph.IsTree R.root := by
  obtain ⟨g, rfl, hfresh⟩ := exists_fresh_of_decode h
  exact hfresh.isTree

/-- A node is made for each place of the tree that the document describes, and no other node. -/
theorem size_of_decode (h : decode content = .ok R) : R.graph.size = (R.graph.unfold R.root).size := by
  obtain ⟨g, rfl, hfresh⟩ := exists_fresh_of_decode h
  have hsize := hfresh.size_unfold
  rw [show Arena.empty.rows.size = 0 from rfl, Nat.zero_add] at hsize
  exact hsize.symm

theorem parse_of_decode (h : decode content = .ok R) : parse content = .ok R.tree := by
  rw [parse, h]
  rfl

end Document

end TreeWalk
