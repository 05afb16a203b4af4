import TreeWalk.Listing
import TreeWalk.Proofs.Document.Decoding
import TreeWalk.Proofs.Document.RoundTrip

/-!
Listings of a document. Each node that is read from a document is a node of its own, also where it looks
like another one. The nodes therefore have a parent map, and neither the pairs of a child and its parent
nor an indented walk can fail for the lack of one.
-/

namespace TreeWalk

namespace Graph

variable {G : Graph Symbol} {root : G.Node} {map : ParentMap G}

theorem exists_parentPairs (h : ParentMap.build root = .ok map) : ∃ pairs, G.parentPairs root = .ok pairs := by
  rw [parentPairs, h]
  exact ⟨_, rfl⟩

/-- A walk over nodes that have a parent map fails at most for a line that cannot be indented. -/
theorem walkLines_ne_duplicateParent (h : ParentMap.build root = .ok map) (settings : Settings)
    (order : Option Order) (duplicate : DuplicateParent G.Node) :
    G.walkLines settings order root ≠ .error (.duplicateParent duplicate) := by
  intro herror
  simp only [walkLines, h] at herror
  by_cases hindent : settings.indent = true
  · rw [if_pos hindent] at herror
    generalize indentLines _ _ = lines at herror
    cases lines with
    | error cause => cases herror
    | ok lines => cases herror
  · rw [if_neg hindent] at herror
    cases herror

end Graph

namespace Document

/-- The nodes that are read from a document unfold to what its table describes, and there are no more of
them than places in it: one way leads to each. They have a parent map, the listing of their pairs succeeds,
and no walk over them, indented or not and in whichever order, ends with a duplicate parent. -/
theorem listings_of_decode {content : String} {R : Rooted Symbol} (h : decode content = .ok R) :
    parse content = .ok (R.graph.unfold R.root) ∧
    (∃ table, Toml.parse? content = some table ∧ (Slots.ofTable table).Describe (R.graph.unfold R.root)) ∧
    R.graph.size = (R.graph.unfold R.root).size ∧
    (∀ address address' n, R.graph.follow R.root address = some n →
      R.graph.follow R.root address' = some n → address = address') ∧
    (∃ map, ParentMap.build R.root = .ok map ∧ map.length + 1 = R.graph.size) ∧
    (∃ pairs, R.graph.parentPairs R.root = .ok pairs) ∧
    ∀ settings order duplicate,
      R.graph.walkLines settings order R.root ≠ .error (.duplicateParent duplicate) := by
  have hparse := parse_of_decode h
  have htree := isTree_of_decode h
  obtain ⟨map, hmap⟩ := ParentMap.exists_build_of_isTree htree
  refine ⟨hparse, parse_eq_ok_iff.mp hparse, size_of_decode h, fun address address' n => htree.follow_unique,
    ⟨map, hmap, ?_⟩, Graph.exists_parentPairs hmap, Graph.walkLines_ne_duplicateParent hmap⟩
  obtain ⟨t, ht, hroot⟩ := htree.exists_unfolds
  rw [ParentMap.length_add_one_of_yields hmap (ParentMap.preOrder_of_build hmap).1, size_of_decode h, ← hroot,
    ht.preOrder_eq, ht.unfold_eq_map, Tree.size_map, Tree.length_preorder]

/-- A node with two children that look alike. -/
def twins : Tree Symbol :=
  .node ⟨"pair", none⟩ [.node ⟨"twin", some "x"⟩ [], .node ⟨"twin", some "x"⟩ []]

theorem listings_of_decode_twins :
    ∃ R, decode (write twins) = .ok R ∧ R.graph.unfold R.root = twins ∧
      (∃ map, ParentMap.build R.root = .ok map ∧ map.length + 1 = 3) ∧
      ∃ pairs, R.graph.parentPairs R.root = .ok pairs := by
  have hparse : parse (write twins) = .ok twins := by
    rw [parse_write, if_pos (by decide)]
  obtain ⟨R, hdecode, htwins⟩ := map_eq_ok_iff.mp hparse
  obtain ⟨-, -, hsize, -, ⟨map, hmap, hlength⟩, hpairs, -⟩ := listings_of_decode hdecode
  refine ⟨R, hdecode, htwins, ⟨map, hmap, ?_⟩, hpairs⟩
  rw [hlength, hsize, ← Rooted.tree, htwins]
  rfl

end Document

end TreeWalk
