import TreeWalk.Proofs.ParentMap
import TreeWalk.Tree

/-!
Views do not matter. A graph may show the same child lists through other views, chosen for each node
apart. Every walk then gives the same nodes step by step, also where it never ends, and what is built
along a walk is the same: the parent map or the error that takes its place, and the tree of labels.
-/

namespace TreeWalk

open Source (Yields)

/-! ### Steps -/

/-- Where one source follows another through a map of their states, both give the same items. -/
theorem Source.emit_map {σ τ β : Type} {next : σ → Option β × σ} {next' : τ → Option β × τ} {f : σ → τ}
    (step : ∀ s, next' (f s) = (next s).map id f) (k : Nat) (s : σ) :
    emit next' k (f s) = emit next k s := by
  induction k generalizing s with
  | zero => rfl
  | succ k ih =>
      rcases hnext : next s with ⟨_ | b, t⟩
      · rw [emit_of_dry (by rw [step, hnext]; rfl), emit_of_dry (by rw [hnext])]
      · have hnext' : next' (f s) = (some b, f t) := by rw [step, hnext]; rfl
        rw [emit_succ hnext, emit_succ hnext', ih]

namespace Graph

variable {α : Type} {G : Graph α} {view : G.Node → ChildView G.Node}

/-- The same nodes with other views of their children. -/
abbrev withViews (G : Graph α) (view : G.Node → ChildView G.Node) : Graph α := { G with view }

section Same

variable (same : ∀ n, (view n).toList = G.children n)

include same

theorem children_withViews : (G.withViews view).children = G.children := funext same

theorem remaining_forward_withViews (n : G.Node) :
    (view n).forward.remaining = (G.view n).forward.remaining := by
  rw [ChildView.remaining_forward, same n, ChildView.remaining_forward]
  rfl

theorem toList_forward_withViews (n : G.Node) :
    (view n).forward.toList = (G.view n).forward.toList := by
  rw [ChildView.toList_forward, ChildView.toList_forward]
  exact same n

theorem pathBound_withViews : (G.withViews view).pathBound = G.pathBound := by
  simp only [pathBound, edgeCount, remaining_forward_withViews same]

theorem emit_preOrder_withViews (k : Nat) (root : G.Node) :
    Source.emit PreOrder.next k (.start root : PreOrder (G.withViews view)) =
      Source.emit PreOrder.next k (.start root : PreOrder G) := by
  let f : PreOrder G → PreOrder (G.withViews view) := fun walk => ⟨walk.stack⟩
  refine Source.emit_map (f := f) (fun walk => ?_) k (.start root)
  obtain ⟨stack⟩ := walk
  cases stack with
  | nil => rfl
  | cons n rest =>
      rw [PreOrder.next_cons, PreOrder.next_cons, children_withViews same]
      rfl

theorem emit_discovery_withViews (k : Nat) (root : G.Node) :
    Source.emit Discovery.next k (.start root : Discovery (G.withViews view)) =
      Source.emit Discovery.next k (.start root : Discovery G) := by
  let f : Discovery G → Discovery (G.withViews view) := fun walk => ⟨walk.waiting⟩
  refine Source.emit_map (f := f) (fun walk => ?_) k (.start root)
  obtain ⟨waiting⟩ := walk
  cases waiting with
  | nil => rfl
  | cons n rest =>
      rw [Discovery.next_cons, Discovery.next_cons, children_withViews same]
      rfl

theorem emit_levelOrder_withViews (k : Nat) (root : G.Node) :
    Source.emit LevelOrder.next k (.start root : LevelOrder (G.withViews view)) =
      Source.emit LevelOrder.next k (.start root : LevelOrder G) := by
  let f : LevelOrder G → LevelOrder (G.withViews view) := fun walk => ⟨walk.queue⟩
  refine Source.emit_map (f := f) (fun walk => ?_) k (.start root)
  simp only [LevelOrder.next, f, toList_forward_withViews same]
  cases walk.queue.pop? with
  | none => rfl
  | some popped => rfl

theorem emit_postOrder_withViews (k : Nat) (root : G.Node) :
    Source.emit PostOrder.next k (.start root : PostOrder (G.withViews view)) =
      Source.emit PostOrder.next k (.start root : PostOrder G) := by
  let f : PostOrder G → PostOrder (G.withViews view) := fun walk => ⟨walk.found, walk.first, walk.last⟩
  have hstart : (.start root : PostOrder (G.withViews view)) = f (.start root) := by
    simp only [PostOrder.start, Source.drain_eq_emit, pathBound_withViews same, f]
    rw [emit_discovery_withViews same]
  rw [hstart]
  refine Source.emit_map (fun walk => ?_) k (PostOrder.start root)
  simp only [PostOrder.next, f]
  cases if walk.first < walk.last then walk.found[walk.last - 1]? else none with
  | none => rfl
  | some n => rfl

theorem postOrder_withViews (root : G.Node) : (G.withViews view).postOrder root = G.postOrder root := by
  rw [((G.withViews view).yields_postOrder root).2, (G.yields_postOrder root).2, Source.drain_eq_emit,
    Source.drain_eq_emit, pathBound_withViews same]
  exact congrArg List.reverse (emit_discovery_withViews same _ root)

theorem gather_withViews (label : G.Node → String) (nodes : List G.Node) (built : List (Tree String)) :
    (G.withViews view).gather label nodes built = G.gather label nodes built := by
  induction nodes generalizing built with
  | nil => rfl
  | cons n nodes ih =>
      simp only [gather, remaining_forward_withViews same, ih]

theorem labelTree_withViews (label : G.Node → String) (root : G.Node) :
    (G.withViews view).labelTree label root = G.labelTree label root := by
  rw [labelTree, labelTree, gather_withViews same, postOrder_withViews same]

end Same

end Graph

namespace ParentMap

variable {α : Type} {G : Graph α} {view : G.Node → ChildView G.Node}

/-- Entering edges never looks at a view. -/
theorem enter_withViews (es : List (G.Node × G.Node)) (table : G.ParentTable) :
    enter (G := G.withViews view) es table = enter (G := G) es table := by
  induction es generalizing table with
  | nil => rfl
  | cons e es ih =>
      obtain ⟨p, c⟩ := e
      rw [enter, enter]
      simp only [adopt]
      cases table[c] with
      | some first => rfl
      | none => exact ih _

/-- The root and the table of a build, or its error, are the same in all views. -/
theorem build_withViews (same : ∀ n, (view n).toList = G.children n) (root : G.Node) :
    (build (G := G.withViews view) root).map (fun map => (map.root, map.parents)) =
      (build (G := G) root).map fun map => (map.root, map.parents) := by
  have hedges : edges (G.withViews view) = edges G := by
    funext nodes
    simp only [edges, Graph.children_withViews same]
  rw [build_eq, build_eq, Graph.emit_preOrder_withViews same, hedges, enter_withViews]
  cases enter (G := G) (edges G (Source.emit PreOrder.next (G.size + 1) (.start root)))
    (Vector.replicate G.size none) <;> rfl

end ParentMap

namespace Graph

variable {α : Type}

/-- Whichever views show the child lists, and however they are mixed, each walk gives the same nodes for
any number of steps, the parent map or its error is the same, and so is the tree of labels. Any layout of
a child list is such a view, and reading a view backwards gives what reading it forwards gives,
reversed. -/
theorem walks_eq_of_same_children (G : Graph α) (view : G.Node → ChildView G.Node)
    (same : ∀ n, (view n).toList = G.children n) (root : G.Node) :
    (∀ k, Source.emit PreOrder.next k (.start root : PreOrder (G.withViews view)) =
      Source.emit PreOrder.next k (.start root : PreOrder G)) ∧
    (∀ k, Source.emit Discovery.next k (.start root : Discovery (G.withViews view)) =
      Source.emit Discovery.next k (.start root : Discovery G)) ∧
    (∀ k, Source.emit PostOrder.next k (.start root : PostOrder (G.withViews view)) =
      Source.emit PostOrder.next k (.start root : PostOrder G)) ∧
    (∀ k, Source.emit LevelOrder.next k (.start root : LevelOrder (G.withViews view)) =
      Source.emit LevelOrder.next k (.start root : LevelOrder G)) ∧
    (ParentMap.build (G := G.withViews view) root).map (fun map => (map.root, map.parents)) =
      (ParentMap.build (G := G) root).map (fun map => (map.root, map.parents)) ∧
    (∀ label, (G.withViews view).labelTree label root = G.labelTree label root) ∧
    (∀ n, Yields ForwardReader.next (G.children n) (view n).forward ∧
      Yields BackwardReader.next (G.children n).reverse (view n).backward) ∧
    ∀ (layout : Layout) (items : List G.Node), (layout.view items).toList = items := by
  refine ⟨fun k => emit_preOrder_withViews same k root, fun k => emit_discovery_withViews same k root,
    fun k => emit_postOrder_withViews same k root, fun k => emit_levelOrder_withViews same k root,
    ParentMap.build_withViews same root, fun label => labelTree_withViews same label root, fun n => ?_,
    Layout.toList_view⟩
  rw [← same n]
  exact ⟨(view n).yields_forward, (view n).yields_backward⟩

/-- A graph in which every node lies on a cycle. -/
def carousel : Graph Unit :=
  .ofRows #[⟨(), [1, 2], .halves⟩, ⟨(), [2, 1], .row⟩, ⟨(), [0], .sequence⟩]

theorem walks_eq_carousel :
    (∀ k, Source.emit PreOrder.next k
        (.start ⟨0, by decide⟩ : PreOrder (carousel.withViews fun n => .sequence (carousel.children n))) =
      Source.emit PreOrder.next k (.start ⟨0, by decide⟩ : PreOrder carousel)) ∧
    (ParentMap.build (G := carousel.withViews fun n => .sequence (carousel.children n))
        ⟨0, by decide⟩).map (fun map => (map.root, map.parents)) =
      (ParentMap.build (G := carousel) ⟨0, by decide⟩).map fun map => (map.root, map.parents) := by
  obtain ⟨hpre, -, -, -, hbuild, -⟩ := walks_eq_of_same_children carousel
    (fun n => .sequence (carousel.children n)) (fun n => rfl) ⟨0, by decide⟩
  exact ⟨hpre, hbuild⟩

end Graph

end TreeWalk
