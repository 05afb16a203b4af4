import TreeWalk.Proofs.Hints
import TreeWalk.Proofs.Mirror

/-!
Post-order read from both ends. What a walk has left to give is one piece of what was discovered, and a call
takes at most one node from one end of it. In whatever order the calls come, the nodes from the front, those
that are left and those from the back, the latest one first, are the whole post-order; so the two ends never
give the same place, and they have met as soon as one of them gives nothing. From the back alone the walk gives
the pre-order of the graph with all child lists reversed.
-/

namespace TreeWalk

open Source (Yields)

variable {α : Type} {G : Graph α}

namespace PostOrder

/-! ### One call at an end -/

theorem next_cases {walk : PostOrder G} (h : walk.last ≤ walk.found.size) :
    (walk.next = (none, walk) ∧ walk.pending = []) ∨
      ∃ n rest, walk.next = (some n, rest) ∧ rest.last ≤ rest.found.size ∧
        walk.pending = n :: rest.pending := by
  have hyields := yields_pending h
  cases hpending : walk.pending with
  | nil =>
      rw [hpending] at hyields
      exact Or.inl ⟨Prod.ext hyields (rests walk hyields), rfl⟩
  | cons n items =>
      rw [hpending] at hyields
      obtain ⟨rest, hnext, hrest⟩ := hyields
      have hinside := last_le_of_next h
      rw [hnext] at hinside
      exact Or.inr ⟨n, rest, hnext, hinside, by rw [hrest.unique (yields_pending hinside)]⟩

theorem nextBack_cases {walk : PostOrder G} (h : walk.last ≤ walk.found.size) :
    (walk.nextBack = (none, walk) ∧ walk.pending = []) ∨
      ∃ n rest, walk.nextBack = (some n, rest) ∧ rest.last ≤ rest.found.size ∧
        walk.pending = rest.pending ++ [n] := by
  obtain ⟨found, first, last⟩ := walk
  by_cases hfirst : first < last
  · have hinside : first < found.size := Nat.lt_of_lt_of_le hfirst h
    have htaken : first < (found.toList.take last).length := by
      rw [List.length_take, Array.length_toList]
      exact Nat.lt_min.mpr ⟨hfirst, hinside⟩
    refine Or.inr ⟨found[first], ⟨found, first + 1, last⟩, ?_, h, ?_⟩
    · simp [nextBack, hfirst, hinside]
    · rw [pending, List.drop_eq_getElem_cons htaken, List.reverse_cons, List.getElem_take]
      rfl
  · refine Or.inl ⟨by simp [nextBack, hfirst], ?_⟩
    rw [pending, List.reverse_eq_nil_iff, List.drop_eq_nil_iff, List.length_take]
    show min last _ ≤ first
    omega

/-- Read from the back, a walk gives what it has left from its end. -/
theorem yields_nextBack {walk : PostOrder G} (h : walk.last ≤ walk.found.size) :
    Yields nextBack walk.pending.reverse walk := by
  generalize hpending : walk.pending = items
  induction items using List.reverseRecOn generalizing walk with
  | nil =>
      rcases nextBack_cases h with ⟨hnone, -⟩ | ⟨n, rest, -, -, hsome⟩
      · show walk.nextBack.1 = none
        rw [hnone]
      · rw [hpending] at hsome
        exact absurd hsome.symm (List.concat_ne_nil _ _)
  | append_singleton items n ih =>
      rw [List.reverse_append]
      rcases nextBack_cases h with ⟨-, hempty⟩ | ⟨m, rest, hnext, hrest, hsome⟩
      · rw [hpending] at hempty
        exact absurd hempty (List.concat_ne_nil _ _)
      · rw [hpending] at hsome
        obtain ⟨hitems, hn⟩ := List.append_inj' hsome rfl
        obtain rfl : n = m := List.singleton_inj.mp hn
        exact ⟨rest, hnext, ih hrest hitems.symm⟩

/-! ### Calls in any order -/

/-- The calls that a walk answers. -/
inductive Call where
  | next
  | nextBack
  | length
deriving DecidableEq, Repr

/-- A call with its answer. -/
inductive Event (G : Graph α) where
  | next (answer : Option G.Node)
  | nextBack (answer : Option G.Node)
  | length (answer : Nat)
deriving DecidableEq

/-- One call, and the walk behind it. -/
def call (walk : PostOrder G) : Call → Event G × PostOrder G
  | .next => walk.next.map .next id
  | .nextBack => walk.nextBack.map .nextBack id
  | .length => (.length walk.length, walk)

/-- What happens when calls are made one after the other. -/
def events (walk : PostOrder G) : List Call → List (Event G)
  | [] => []
  | c :: calls => (walk.call c).1 :: (walk.call c).2.events calls

/-- The nodes that calls have given from the front, in the order of the calls. -/
def fromFront : List (Event G) → List G.Node
  | [] => []
  | .next (some n) :: events => n :: fromFront events
  | _ :: events => fromFront events

/-- The nodes that calls have given from the back, in the order of the calls. -/
def fromBack : List (Event G) → List G.Node
  | [] => []
  | .nextBack (some n) :: events => n :: fromBack events
  | _ :: events => fromBack events

/-- A call takes one node from one end of what is left, or finds nothing left, or tells how much is left. -/
theorem call_cases {walk : PostOrder G} (h : walk.last ≤ walk.found.size) (c : Call) :
    ∃ event rest, walk.call c = (event, rest) ∧ rest.last ≤ rest.found.size ∧
      ((∃ n, event = .next (some n) ∧ walk.pending = n :: rest.pending) ∨
        (∃ n, event = .nextBack (some n) ∧ walk.pending = rest.pending ++ [n]) ∨
        ((event = .next none ∨ event = .nextBack none) ∧ rest = walk ∧ walk.pending = []) ∨
        (event = .length walk.pending.length ∧ rest = walk)) := by
  cases c with
  | next =>
      rcases next_cases h with ⟨hnext, hempty⟩ | ⟨n, rest, hnext, hrest, hpending⟩
      · exact ⟨.next none, walk, by rw [call, hnext]; rfl, h, .inr (.inr (.inl ⟨.inl rfl, rfl, hempty⟩))⟩
      · exact ⟨.next (some n), rest, by rw [call, hnext]; rfl, hrest, .inl ⟨n, rfl, hpending⟩⟩
  | nextBack =>
      rcases nextBack_cases h with ⟨hnext, hempty⟩ | ⟨n, rest, hnext, hrest, hpending⟩
      · exact ⟨.nextBack none, walk, by rw [call, hnext]; rfl, h, .inr (.inr (.inl ⟨.inr rfl, rfl, hempty⟩))⟩
      · exact ⟨.nextBack (some n), rest, by rw [call, hnext]; rfl, hrest, .inr (.inl ⟨n, rfl, hpending⟩)⟩
  | length => exact ⟨_, walk, rfl, h, .inr (.inr (.inr ⟨by rw [length_pending h], rfl⟩))⟩

/-- What was left before the calls is what came from the front, what is left now, and what came from the back;
nothing is left once a call has found nothing. -/
theorem exists_left {walk : PostOrder G} (h : walk.last ≤ walk.found.size) (calls : List Call) :
    ∃ left, walk.pending = fromFront (walk.events calls) ++ left ++ (fromBack (walk.events calls)).reverse ∧
      (.next none ∈ walk.events calls ∨ .nextBack none ∈ walk.events calls → left = []) := by
  induction calls generalizing walk with
  | nil => exact ⟨walk.pending, by simp [events, fromFront, fromBack], by simp [events]⟩
  | cons c calls ih =>
      obtain ⟨event, rest, hcall, hrest, hstep⟩ := call_cases h c
      obtain ⟨left, hleft, hdry⟩ := ih hrest
      rw [events, hcall]
      rcases hstep with ⟨n, rfl, hpending⟩ | ⟨n, rfl, hpending⟩ | ⟨hnone, rfl, hempty⟩ | ⟨rfl, rfl⟩
      · refine ⟨left, ?_, by simpa using hdry⟩
        rw [hpending, hleft]
        simp [fromFront, fromBack]
      · refine ⟨left, ?_, by simpa using hdry⟩
        rw [hpending, hleft]
        simp [fromFront, fromBack]
      · have hnothing : left = [] := by
          rw [hempty] at hleft
          simp_all
        refine ⟨left, ?_, fun _ => hnothing⟩
        rw [hleft]
        rcases hnone with rfl | rfl <;> rfl
      · refine ⟨left, ?_, by simpa using hdry⟩
        rw [hleft]
        rfl

/-- The answer to a call for the length is what was left at first, less what has been given since. -/
theorem length_add_given {walk : PostOrder G} (h : walk.last ≤ walk.found.size) {calls : List Call}
    {before after : List (Event G)} {k : Nat} (hevents : walk.events calls = before ++ .length k :: after) :
    k + (fromFront before).length + (fromBack before).length = walk.pending.length := by
  induction before generalizing walk calls with
  | nil =>
      cases calls with
      | nil => cases hevents
      | cons c calls =>
          obtain ⟨event, rest, hcall, -, hstep⟩ := call_cases h c
          rw [events, hcall] at hevents
          obtain rfl : event = .length k := (List.cons.inj hevents).1
          have hlength : k = walk.pending.length ∧ rest = walk := by simpa using hstep
          exact hlength.1
  | cons first before ih =>
      cases calls with
      | nil => cases hevents
      | cons c calls =>
          obtain ⟨event, rest, hcall, hrest, hstep⟩ := call_cases h c
          rw [events, hcall] at hevents
          obtain ⟨rfl, hlater⟩ := List.cons.inj hevents
          have hcount := ih hrest hlater
          rcases hstep with ⟨n, rfl, hpending⟩ | ⟨n, rfl, hpending⟩ | ⟨hnone, rfl, -⟩ | ⟨rfl, rfl⟩
          · rw [hpending, fromFront, fromBack, List.length_cons, List.length_cons]
            · omega
            · intro m hm
              cases hm
          · rw [hpending, fromFront, fromBack, List.length_cons, List.length_append, List.length_singleton]
            · omega
            · intro m hm
              cases hm
          · rcases hnone with rfl | rfl <;> exact hcount
          · exact hcount

end PostOrder

namespace Graph

open PostOrder (Call Event fromFront fromBack)

/-- Read from the back, the whole walk gives post-order from its end. -/
theorem yields_postOrderBackwards (G : Graph α) (root : G.Node) :
    Yields PostOrder.nextBack (G.postOrder root).reverse (.start root) ∧
      G.postOrderBackwards root = (G.postOrder root).reverse := by
  have hinside : (PostOrder.start root).last ≤ (PostOrder.start root).found.size := Nat.le_refl _
  have hpending : (PostOrder.start root).pending = G.postOrder root := by
    rw [PostOrder.pending_start, (G.yields_postOrder root).2]
  have hyields := PostOrder.yields_nextBack hinside
  have hlength : (PostOrder.start root).pending.reverse.length ≤ (PostOrder.start root).length := by
    rw [List.length_reverse, PostOrder.length_pending hinside]
  rw [hpending] at hyields hlength
  exact ⟨hyields, hyields.emit_eq hlength⟩

/-- Whatever calls are made at the two ends of a post-order walk, and in whatever order, those at the front give
the first nodes of the recursive post-order and those at the back its last ones, from the end. Between them lies
what is left; nothing is, once a call gives nothing. A call for the length tells how many nodes have not been
given. Only from the back, the walk gives the pre-order of the graph with all child lists reversed. -/
theorem postOrder_from_both_ends {root : G.Node} (h : G.AcyclicFrom root) :
    ∃ t, G.Unfolds t ∧ t.value = root ∧
      (∀ (calls : List Call) (events : List (Event G)), events = (PostOrder.start root).events calls →
        fromFront events <+: t.postorder ∧ fromBack events <+: t.postorder.reverse ∧
        (∃ left, fromFront events ++ left ++ (fromBack events).reverse = t.postorder ∧
          (.next none ∈ events ∨ .nextBack none ∈ events → left = [])) ∧
        ∀ before k after, events = before ++ .length k :: after →
          k + (fromFront before).length + (fromBack before).length = t.postorder.length) ∧
      ∀ view : G.Node → ChildView G.Node, (∀ n, (view n).toList = (G.children n).reverse) →
        (G.withViews view).AcyclicFrom root ∧
        Yields (PostOrder.nextBack (G := G)) ((G.withViews view).preOrder root) (.start root) ∧
        G.postOrderBackwards root = (G.withViews view).preOrder root := by
  obtain ⟨t, ht, rfl⟩ := acyclicFrom_iff_exists_unfolds.mp h
  have hinside : (PostOrder.start t.value).last ≤ (PostOrder.start t.value).found.size := Nat.le_refl _
  have hpending : (PostOrder.start t.value).pending = t.postorder := by
    rw [PostOrder.pending_start, ← (G.yields_postOrder t.value).2, ht.postOrder_eq]
  refine ⟨t, ht, rfl, ?_, fun view hview => ?_⟩
  · rintro calls _ rfl
    obtain ⟨left, hleft, hdry⟩ := PostOrder.exists_left hinside calls
    rw [hpending] at hleft
    refine ⟨?_, ?_, ⟨left, hleft.symm, hdry⟩, fun before k after hsplit => ?_⟩
    · rw [hleft, List.append_assoc]
      exact List.prefix_append _ _
    · rw [hleft, List.reverse_append, List.reverse_reverse]
      exact List.prefix_append _ _
    · rw [← hpending]
      exact PostOrder.length_add_given hinside hsplit
  · have hmirror := ht.mirror hview
    have hacyclic := hmirror.acyclicFrom
    have hpre := hmirror.preOrder_eq
    rw [t.value_mirror] at hacyclic hpre
    obtain ⟨hyields, hback⟩ := G.yields_postOrderBackwards t.value
    rw [hpre, t.preorder_mirror, ← ht.postOrder_eq]
    exact ⟨hacyclic, hyields, hback⟩

/-- The shared node comes from both ends, each time for another way to it. -/
theorem postOrder_from_both_ends_diamond :
    diamond.AcyclicFrom ⟨0, by decide⟩ ∧
      (∃ t, diamond.Unfolds t ∧ t.value = ⟨0, by decide⟩ ∧
        [⟨3, by decide⟩, ⟨1, by decide⟩, ⟨3, by decide⟩] ++ [⟨0, by decide⟩, ⟨2, by decide⟩].reverse = t.postorder) ∧
      diamond.postOrderBackwards ⟨0, by decide⟩ =
        (diamond.withViews fun n => .sequence (diamond.children n).reverse).preOrder ⟨0, by decide⟩ := by
  obtain ⟨t, ht, hroot, hcalls, hviews⟩ := postOrder_from_both_ends acyclicFrom_diamond
  have hevents : [.next (some ⟨3, by decide⟩), .nextBack (some ⟨0, by decide⟩), .length 3,
      .nextBack (some ⟨2, by decide⟩), .next (some ⟨1, by decide⟩), .next (some ⟨3, by decide⟩), .nextBack none] =
      (PostOrder.start (G := diamond) ⟨0, by decide⟩).events
        [.next, .nextBack, .length, .nextBack, .next, .next, .nextBack] := by decide +kernel
  obtain ⟨-, -, ⟨left, hleft, hdry⟩, -⟩ := hcalls _ _ hevents
  rw [hdry (by decide +kernel)] at hleft
  exact ⟨acyclicFrom_diamond, ⟨t, ht, hroot, hleft⟩, (hviews _ fun n => rfl).2.2⟩

end Graph

end TreeWalk
