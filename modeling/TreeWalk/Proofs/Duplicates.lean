import TreeWalk.Proofs.ParentMap

/-!
Repeated children. The edges of the pre-order walk from a root stand in a row, which never ends where the walk
does not. A build that fails names the first edge of the row whose child stands in an edge before it, and the
parents in both. No bound on the steps is needed to find that edge: all nodes that the walk gives behind the
root were entered as children before, and until it fails the build enters no child twice, so it takes at most
one node more than the root reaches.
-/

namespace TreeWalk.ParentMap

variable {α : Type} {G : Graph α} {root : G.Node}

/-! ### The edges of a walk -/

/-- The edge at position `j` of the walk from the root: the edges of the nodes in pre-order, those of each node
from left to right. -/
def WalkEdge (root : G.Node) (j : Nat) (parent child : G.Node) : Prop :=
  ∃ k, (edges G (Source.emit PreOrder.next k (.start root)))[j]? = some (parent, child)

/-- A longer walk has the edges of a shorter one in front. -/
theorem edges_emit_mono {j k : Nat} (h : j ≤ k) (walk : PreOrder G) :
    edges G (Source.emit PreOrder.next j walk) <+: edges G (Source.emit PreOrder.next k walk) := by
  obtain ⟨i, rfl⟩ := Nat.exists_eq_add_of_le h
  rw [(PreOrder.worklist G).rests.emit_add, edges, edges, List.flatMap_append]
  exact List.prefix_append _ _

theorem getElem?_mono {β : Type} {front items : List β} (h : front <+: items) {i : Nat} {b : β}
    (hi : front[i]? = some b) : items[i]? = some b := by
  obtain ⟨hlt, rfl⟩ := List.getElem?_eq_some_iff.mp hi
  exact List.prefix_iff_getElem?.mp h i hlt

theorem WalkEdge.unique {j : Nat} {p q c d : G.Node} (h : WalkEdge root j p c) (h' : WalkEdge root j q d) :
    p = q ∧ c = d := by
  obtain ⟨k, hk⟩ := h
  obtain ⟨k', hk'⟩ := h'
  have hlong := getElem?_mono (edges_emit_mono (Nat.le_max_left k k') (.start root)) hk
  have hlong' := getElem?_mono (edges_emit_mono (Nat.le_max_right k k') (.start root)) hk'
  rw [hlong] at hlong'
  exact Prod.mk.inj (Option.some.inj hlong')

/-- An edge of the walk stands at its position in every row that is long enough. -/
theorem WalkEdge.getElem?_eq {j k : Nat} {p c : G.Node} (h : WalkEdge root j p c)
    (hlt : j < (edges G (Source.emit PreOrder.next k (.start root))).length) :
    (edges G (Source.emit PreOrder.next k (.start root)))[j]? = some (p, c) := by
  obtain ⟨⟨q, d⟩, hget⟩ : ∃ e, (edges G (Source.emit PreOrder.next k (.start root)))[j]? = some e :=
    ⟨_, List.getElem?_eq_getElem hlt⟩
  obtain ⟨rfl, rfl⟩ := h.unique ⟨k, hget⟩
  exact hget

/-- Where no child repeats, a child tells the position of its edge. -/
theorem position_unique {es : List (G.Node × G.Node)} (hnodup : (es.map Prod.snd).Nodup) {i j : Nat}
    {p q c : G.Node} (hi : es[i]? = some (p, c)) (hj : es[j]? = some (q, c)) : i = j := by
  have hchild : (es.map Prod.snd)[i]? = some c := by rw [List.getElem?_map, hi]; rfl
  have hchild' : (es.map Prod.snd)[j]? = some c := by rw [List.getElem?_map, hj]; rfl
  exact (List.getElem?_inj (List.getElem?_eq_some_iff.mp hchild).1 hnodup).mp (hchild.trans hchild'.symm)

/-! ### The first repetition -/

/-- The edge at `j` is the first one whose child stands in an edge before it, and that edge is the one at
`i`. -/
structure FirstRepetition (root : G.Node) (i j : Nat) (duplicate : DuplicateParent G.Node) : Prop where
  before : i < j
  first : WalkEdge root i duplicate.firstParent duplicate.node
  second : WalkEdge root j duplicate.secondParent duplicate.node
  earliest : ∀ i' j' p q c, i' < j' → j' < j → WalkEdge root i' p c → ¬WalkEdge root j' q c

theorem FirstRepetition.unique {i j i' j' : Nat} {duplicate duplicate' : DuplicateParent G.Node}
    (h : FirstRepetition root i j duplicate) (h' : FirstRepetition root i' j' duplicate') :
    duplicate = duplicate' := by
  obtain ⟨c, p, q⟩ := duplicate
  obtain ⟨c', p', q'⟩ := duplicate'
  have hj : j = j' := by
    rcases Nat.lt_trichotomy j j' with hlt | heq | hlt
    · exact absurd h.second (h'.earliest i j p q c h.before hlt h.first)
    · exact heq
    · exact absurd h'.second (h.earliest i' j' p' q' c' h'.before hlt h'.first)
  subst hj
  obtain ⟨rfl, rfl⟩ : q = q' ∧ c = c' := h.second.unique h'.second
  have hi : i = i' := by
    rcases Nat.lt_trichotomy i i' with hlt | heq | hlt
    · exact absurd h'.first (h.earliest i i' p p' c hlt h'.before h.first)
    · exact heq
    · exact absurd h.first (h.earliest i' i p' p c hlt h.before h'.first)
  subst hi
  obtain ⟨rfl, -⟩ : p = p' ∧ c = c := h.first.unique h'.first
  rfl

/-- A build that succeeds has met each child once. -/
theorem position_unique_of_build {map : ParentMap G} (h : build root = .ok map) {i j : Nat} {p q c : G.Node}
    (hi : WalkEdge root i p c) (hj : WalkEdge root j q c) : i = j := by
  obtain ⟨-, nodes, hyields, hnodup, -⟩ := exists_yields_of_build h
  have hwhole : ∀ k, edges G (Source.emit PreOrder.next k (.start root)) <+: edges G nodes := by
    intro k
    have hmono := edges_emit_mono (Nat.le_max_left k nodes.length) (.start root : PreOrder G)
    rwa [hyields.emit_eq (Nat.le_max_right k nodes.length)] at hmono
  obtain ⟨k, hk⟩ := hi
  obtain ⟨k', hk'⟩ := hj
  rw [← map_snd_edges] at hnodup
  exact position_unique hnodup (getElem?_mono (hwhole k) hk) (getElem?_mono (hwhole k') hk')

theorem exists_error_of_repetition {i j : Nat} {p q c : G.Node} (hlt : i < j) (hi : WalkEdge root i p c)
    (hj : WalkEdge root j q c) : ∃ duplicate, build root = .error duplicate := by
  cases hbuild : build root with
  | ok map => exact absurd (position_unique_of_build hbuild hi hj) (Nat.ne_of_lt hlt)
  | error duplicate => exact ⟨duplicate, rfl⟩

/-- A build that fails names the first repetition. -/
theorem exists_firstRepetition_of_build {duplicate : DuplicateParent G.Node}
    (h : build root = .error duplicate) : ∃ i j, FirstRepetition root i j duplicate := by
  rw [build_eq] at h
  rcases enter_cases lists_empty List.nodup_nil
      (edges G (Source.emit PreOrder.next (G.size + 1) (.start root))) with
    ⟨table, hok, -, -⟩ | ⟨front, q, c, back, p, hsplit, herror, hnodup, hfirst⟩
  · rw [hok] at h
    cases h
  · rw [herror] at h
    obtain rfl : (⟨c, p, q⟩ : DuplicateParent G.Node) = duplicate := Except.error.inj h
    rw [List.nil_append] at hnodup hfirst
    have hfront : ∀ i < front.length,
        (edges G (Source.emit PreOrder.next (G.size + 1) (.start root)))[i]? = front[i]? := by
      intro i hi
      rw [hsplit, List.getElem?_append_left hi]
    obtain ⟨i, hi⟩ := List.mem_iff_getElem?.mp hfirst
    have hlt : i < front.length := (List.getElem?_eq_some_iff.mp hi).1
    refine ⟨i, front.length, hlt, ⟨G.size + 1, (hfront i hlt).trans hi⟩, ⟨G.size + 1, ?_⟩, ?_⟩
    · rw [hsplit]
      simp
    · have hlength : front.length ≤ (edges G (Source.emit PreOrder.next (G.size + 1) (.start root))).length := by
        rw [hsplit]
        simp
      intro i' j' p' q' c' hij hj hi' hj'
      have hedge := hi'.getElem?_eq ((hij.trans hj).trans_le hlength)
      have hedge' := hj'.getElem?_eq (hj.trans_le hlength)
      rw [hfront i' (hij.trans hj)] at hedge
      rw [hfront j' hj] at hedge'
      exact Nat.ne_of_lt hij (position_unique hnodup hedge hedge')

/-! ### The end of the build -/

/-- The build without a bound: from a walk and a table it takes `k` nodes and stops with the given result. It
stops when the walk has run dry, or when a child of the node it has taken already has an entry. -/
inductive Stops : Nat → PreOrder G → G.ParentTable → Except (DuplicateParent G.Node) G.ParentTable → Prop
  | dry {walk : PreOrder G} {table : G.ParentTable} (dry : walk.next.1 = none) : Stops 0 walk table (.ok table)
  | duplicate {walk rest : PreOrder G} {table : G.ParentTable} {n : G.Node} {duplicate : DuplicateParent G.Node}
      (given : walk.next = (some n, rest))
      (refused : adopt n (G.view n).forward.toList table = .error duplicate) :
      Stops 1 walk table (.error duplicate)
  | more {k : Nat} {walk rest : PreOrder G} {table after : G.ParentTable} {n : G.Node}
      {result : Except (DuplicateParent G.Node) G.ParentTable} (given : walk.next = (some n, rest))
      (entered : adopt n (G.view n).forward.toList table = .ok after) (later : Stops k rest after result) :
      Stops (k + 1) walk table result

section Collect

variable {walk rest : PreOrder G} {table after : G.ParentTable} {n : G.Node}
  {duplicate : DuplicateParent G.Node}

theorem collect_of_dry (hdry : walk.next.1 = none) (m : Nat) : collect m walk table = .ok table := by
  cases m with
  | zero => rfl
  | succ m =>
      obtain ⟨rest, hnext⟩ := Source.exists_eq_of_dry hdry
      rw [collect, hnext]

theorem collect_of_refused (hgiven : walk.next = (some n, rest))
    (hrefused : adopt n (G.view n).forward.toList table = .error duplicate) (m : Nat) :
    collect (m + 1) walk table = .error duplicate := by
  simp only [collect, hgiven, hrefused]

theorem collect_of_entered (hgiven : walk.next = (some n, rest))
    (hentered : adopt n (G.view n).forward.toList table = .ok after) (m : Nat) :
    collect (m + 1) walk table = collect m rest after := by
  simp only [collect, hgiven, hentered]

end Collect

/-- A bound that the build does not come up against changes nothing. -/
theorem Stops.collect_eq {k m : Nat} {walk : PreOrder G} {table : G.ParentTable}
    {result : Except (DuplicateParent G.Node) G.ParentTable} (h : Stops k walk table result) (hm : k ≤ m) :
    collect m walk table = result := by
  induction h generalizing m with
  | dry hdry => exact collect_of_dry hdry m
  | duplicate hgiven hrefused =>
      obtain ⟨m, rfl⟩ := Nat.exists_eq_add_of_le' hm
      exact collect_of_refused hgiven hrefused m
  | more hgiven hentered _ ih =>
      obtain ⟨m, rfl⟩ := Nat.exists_eq_add_of_le' (Nat.le_of_add_left_le hm)
      rw [collect_of_entered hgiven hentered]
      exact ih (Nat.le_of_succ_le_succ hm)

/-- What the build with a bound gives is the result of the build without one, if it has failed or seen the end
of the walk. -/
theorem exists_stops_collect {m : Nat} {walk : PreOrder G} {table : G.ParentTable}
    (h : (∃ duplicate, collect m walk table = .error duplicate) ∨
      (Source.advance PreOrder.next m walk).next.1 = none) :
    ∃ k ≤ m, Stops k walk table (collect m walk table) := by
  induction m generalizing walk table with
  | zero =>
      refine ⟨0, Nat.le_refl 0, .dry ?_⟩
      rcases h with ⟨duplicate, herror⟩ | hdry
      · cases herror
      · exact hdry
  | succ m ih =>
      rcases hgiven : walk.next with ⟨_ | n, rest⟩
      · have hdry : walk.next.1 = none := by rw [hgiven]
        rw [collect_of_dry hdry]
        exact ⟨0, Nat.zero_le _, .dry hdry⟩
      · cases hadopt : adopt n (G.view n).forward.toList table with
        | error duplicate =>
            rw [collect_of_refused hgiven hadopt]
            exact ⟨1, Nat.le_add_left 1 m, .duplicate hgiven hadopt⟩
        | ok after =>
            rw [collect_of_entered hgiven hadopt, Source.advance_succ hgiven] at h
            obtain ⟨k, hk, hstops⟩ := ih h
            rw [collect_of_entered hgiven hadopt]
            exact ⟨k + 1, Nat.succ_le_succ hk, .more hgiven hadopt hstops⟩

/-- Different nodes under the root are no more than the root reaches. -/
theorem length_le_ncard_reaches {nodes : List G.Node} (hnodup : nodes.Nodup)
    (hnodes : ∀ n ∈ nodes, G.Reaches root n) : nodes.length ≤ {n | G.Reaches root n}.ncard := by
  rw [← List.toFinset_card_of_nodup hnodup, ← Set.ncard_coe_finset]
  refine Set.ncard_le_ncard (fun n hn => ?_) (Set.toFinite _)
  exact hnodes n (List.mem_toFinset.mp hn)

/-- After one node more than the root reaches, the build has failed or seen the end of the walk. -/
theorem collect_error_or_dry (root : G.Node) :
    (∃ duplicate, collect ({n | G.Reaches root n}.ncard + 1) (.start root) (Vector.replicate G.size none) =
      .error duplicate) ∨
    (Source.advance PreOrder.next ({n | G.Reaches root n}.ncard + 1) (.start root)).next.1 = none := by
  rw [collect_eq_enter]
  rcases enter_cases lists_empty List.nodup_nil
      (edges G (Source.emit PreOrder.next ({n | G.Reaches root n}.ncard + 1) (.start root))) with
    ⟨table, -, -, hnodup⟩ | ⟨front, q, c, back, p, -, herror, -, -⟩
  · rw [List.nil_append, map_snd_edges] at hnodup
    refine Or.inr ((PreOrder.worklist G).dry_of_length_flatMap_le (PreOrder.stack_start root) ?_)
    refine length_le_ncard_reaches hnodup fun c hc => ?_
    obtain ⟨n, hn, hchild⟩ := List.mem_flatMap.mp hc
    have hstart : ∀ m ∈ (PreOrder.start root).stack, G.Reaches root m := by
      intro m hm
      rw [List.mem_singleton.mp hm]
      exact Relation.ReflTransGen.refl
    exact ((PreOrder.worklist G).reaches_of_mem_emit hstart hn).child hchild
  · exact Or.inl ⟨_, herror⟩

/-- The build without a bound stops, and its result is what is built. -/
theorem exists_stops_build (root : G.Node) :
    ∃ k result, k ≤ {n | G.Reaches root n}.ncard + 1 ∧
      Stops k (.start root) (Vector.replicate G.size none) result ∧
      build root = result.map (ParentMap.mk root) := by
  obtain ⟨k, hk, hstops⟩ := exists_stops_collect (collect_error_or_dry root)
  refine ⟨k, _, hk, hstops, ?_⟩
  have hfew : {n | G.Reaches root n}.ncard ≤ G.size := by
    simpa using Set.ncard_le_card {n | G.Reaches root n}
  have hbound : k ≤ G.size + 1 := hk.trans (Nat.succ_le_succ hfew)
  rw [build, hstops.collect_eq hbound]
  cases collect ({n | G.Reaches root n}.ncard + 1) (.start root) (Vector.replicate G.size none) <;> rfl

/-- The build fails exactly if a child repeats among the edges of the walk, and its error is the first
repetition: the child, its parent in the edge before and its parent in the edge that repeats it. Whether it
fails or not, the build stops of its own accord, after at most one node more than the root reaches and also
where the walk never ends. -/
theorem build_error_iff_firstRepetition (root : G.Node) :
    ((∃ duplicate, build root = .error duplicate) ↔
      ∃ i j p q c, i < j ∧ WalkEdge root i p c ∧ WalkEdge root j q c) ∧
    (∀ duplicate, build root = .error duplicate ↔ ∃ i j, FirstRepetition root i j duplicate) ∧
    ∃ k result, k ≤ {n | G.Reaches root n}.ncard + 1 ∧
      Stops k (.start root) (Vector.replicate G.size none) result ∧
      build root = result.map (ParentMap.mk root) := by
  refine ⟨⟨?_, ?_⟩, fun duplicate => ⟨exists_firstRepetition_of_build, ?_⟩, exists_stops_build root⟩
  · rintro ⟨duplicate, h⟩
    obtain ⟨i, j, hrepetition⟩ := exists_firstRepetition_of_build h
    exact ⟨i, j, _, _, _, hrepetition.before, hrepetition.first, hrepetition.second⟩
  · rintro ⟨i, j, p, q, c, hlt, hi, hj⟩
    exact exists_error_of_repetition hlt hi hj
  · rintro ⟨i, j, hrepetition⟩
    obtain ⟨found, hfound⟩ :=
      exists_error_of_repetition hrepetition.before hrepetition.first hrepetition.second
    obtain ⟨i', j', hrepetition'⟩ := exists_firstRepetition_of_build hfound
    rw [hfound, hrepetition.unique hrepetition']

/-- Two nodes, each of them the only child of the other. -/
def seesaw : Graph Unit := .ofRows #[⟨(), [1], .row⟩, ⟨(), [0], .sequence⟩]

/-- The root has no parent until its child is read, and only its second visit shows the cycle. -/
theorem firstRepetition_seesaw :
    FirstRepetition (G := seesaw) ⟨0, by decide⟩ 0 2 ⟨⟨1, by decide⟩, ⟨0, by decide⟩, ⟨0, by decide⟩⟩ := by
  have hdown : WalkEdge (G := seesaw) ⟨0, by decide⟩ 0 ⟨0, by decide⟩ ⟨1, by decide⟩ := ⟨3, by decide +kernel⟩
  have hback : WalkEdge (G := seesaw) ⟨0, by decide⟩ 1 ⟨1, by decide⟩ ⟨0, by decide⟩ := ⟨3, by decide +kernel⟩
  refine ⟨by decide, hdown, ⟨3, by decide +kernel⟩, ?_⟩
  intro i j p q c hij hj hi hj'
  obtain ⟨rfl, rfl⟩ : i = 0 ∧ j = 1 := by omega
  have hchild := (hdown.unique hi).2.trans (hback.unique hj').2.symm
  exact absurd hchild (by decide +kernel)

theorem build_seesaw :
    FirstRepetition (G := seesaw) ⟨0, by decide⟩ 0 2 ⟨⟨1, by decide⟩, ⟨0, by decide⟩, ⟨0, by decide⟩⟩ ∧
    build (G := seesaw) ⟨0, by decide⟩ = .error ⟨⟨1, by decide⟩, ⟨0, by decide⟩, ⟨0, by decide⟩⟩ ∧
    ∃ k result, k ≤ {n | seesaw.Reaches ⟨0, by decide⟩ n}.ncard + 1 ∧
      Stops k (.start ⟨0, by decide⟩) (Vector.replicate seesaw.size none) result ∧
      build ⟨0, by decide⟩ = result.map (ParentMap.mk ⟨0, by decide⟩) := by
  obtain ⟨-, herror, hstops⟩ := build_error_iff_firstRepetition (G := seesaw) ⟨0, by decide⟩
  exact ⟨firstRepetition_seesaw, (herror _).mpr ⟨0, 2, firstRepetition_seesaw⟩, hstops⟩

end TreeWalk.ParentMap
