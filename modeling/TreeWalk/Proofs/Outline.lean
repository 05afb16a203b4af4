import TreeWalk.Proofs.Tree

/-!
Outlines determine trees. The rows of a tree are followed by a row that lies no deeper than its root, or by
none, so where one tree ends and the next one begins can be told from the depths alone. Two forests with
the same outline are therefore the same, tree by tree.
-/

namespace TreeWalk.Tree

variable {α : Type}

theorem outline_eq_cons (depth : Nat) (t : Tree α) :
    t.outline depth = (depth, t.value) :: outlineAll (depth + 1) t.children := by
  cases t with
  | node v ts => rfl

theorem le_of_mem_outlineAll_of {ts : List (Tree α)} {depth : Nat}
    (h : ∀ t ∈ ts, ∀ row ∈ t.outline depth, depth ≤ row.1) :
    ∀ row ∈ outlineAll depth ts, depth ≤ row.1 := by
  intro row hrow
  rw [outlineAll_eq_flatMap] at hrow
  obtain ⟨t, ht, hrow⟩ := List.mem_flatMap.mp hrow
  exact h t ht row hrow

theorem le_of_mem_outline {t : Tree α} {depth : Nat} : ∀ row ∈ t.outline depth, depth ≤ row.1 := by
  induction t using induct generalizing depth with
  | node v ts ih =>
      intro row hrow
      rcases List.mem_cons.mp hrow with rfl | hrow
      · exact Nat.le_refl depth
      · have hbelow := le_of_mem_outlineAll_of (fun t ht => ih t ht) row hrow
        omega

/-- No row lies higher than the trees of the outline. -/
theorem le_of_mem_outlineAll {ts : List (Tree α)} {depth : Nat} :
    ∀ row ∈ outlineAll depth ts, depth ≤ row.1 :=
  le_of_mem_outlineAll_of fun _ _ => le_of_mem_outline

/-- The rows do not go on at the given depth or below it. -/
def EndsAbove (depth : Nat) (rows : List (Nat × α)) : Prop := ∀ row ∈ rows.head?, row.1 < depth

theorem endsAbove_nil (depth : Nat) : EndsAbove depth ([] : List (Nat × α)) := by
  intro row hrow
  cases hrow

/-- Behind one tree come its siblings, and then what lies higher. -/
theorem EndsAbove.outlineAll_append {depth : Nat} {rest : List (Nat × α)} (h : EndsAbove depth rest)
    (ts : List (Tree α)) : EndsAbove (depth + 1) (outlineAll depth ts ++ rest) := by
  intro row hrow
  cases ts with
  | nil =>
      have hlt := h row hrow
      omega
  | cons t ts =>
      rw [outlineAll, outline_eq_cons] at hrow
      obtain rfl : (depth, t.value) = row := Option.some.inj hrow
      exact Nat.lt_succ_self depth

/-- A forest does not begin where the rows have ended above it. -/
theorem EndsAbove.ne_outlineAll_cons {depth : Nat} {rest : List (Nat × α)} (h : EndsAbove depth rest)
    (t : Tree α) (ts : List (Tree α)) (rest' : List (Nat × α)) :
    rest ≠ outlineAll depth (t :: ts) ++ rest' := by
  intro heq
  rw [outlineAll, outline_eq_cons] at heq
  have hlt : depth < depth := h (depth, t.value) (by rw [heq]; rfl)
  exact Nat.lt_irrefl depth hlt

theorem outlineAll_append_inj_of {ss : List (Tree α)} {depth : Nat}
    (h : ∀ s ∈ ss, ∀ (t : Tree α) (rest rest' : List (Nat × α)), EndsAbove (depth + 1) rest →
      EndsAbove (depth + 1) rest' → s.outline depth ++ rest = t.outline depth ++ rest' →
      s = t ∧ rest = rest')
    {ts : List (Tree α)} {rest rest' : List (Nat × α)} (hrest : EndsAbove depth rest)
    (hrest' : EndsAbove depth rest') (heq : outlineAll depth ss ++ rest = outlineAll depth ts ++ rest') :
    ss = ts ∧ rest = rest' := by
  induction ss generalizing ts with
  | nil =>
      cases ts with
      | nil => exact ⟨rfl, heq⟩
      | cons t ts => exact absurd heq (hrest.ne_outlineAll_cons t ts rest')
  | cons s ss ih =>
      cases ts with
      | nil => exact absurd heq.symm (hrest'.ne_outlineAll_cons s ss rest)
      | cons t ts =>
          rw [outlineAll, outlineAll, List.append_assoc, List.append_assoc] at heq
          obtain ⟨rfl, htail⟩ := h s List.mem_cons_self t _ _ (hrest.outlineAll_append ss)
            (hrest'.outlineAll_append ts) heq
          obtain ⟨rfl, hrests⟩ := ih (fun u hu => h u (List.mem_cons_of_mem s hu)) htail
          exact ⟨rfl, hrests⟩

/-- The outline of a tree can be told from what stands behind it. -/
theorem outline_append_inj (s t : Tree α) {depth : Nat} {rest rest' : List (Nat × α)}
    (hrest : EndsAbove (depth + 1) rest) (hrest' : EndsAbove (depth + 1) rest')
    (heq : s.outline depth ++ rest = t.outline depth ++ rest') : s = t ∧ rest = rest' := by
  induction s using induct generalizing t depth rest rest' with
  | node v ss ih =>
      obtain ⟨w, ts⟩ := t
      rw [outline, outline, List.cons_append, List.cons_append] at heq
      obtain ⟨hroot, hbelow⟩ := List.cons.inj heq
      obtain rfl : v = w := congrArg Prod.snd hroot
      obtain ⟨rfl, hrests⟩ := outlineAll_append_inj_of
        (fun s hs t _ _ hr hr' => ih s hs t hr hr') hrest hrest' hbelow
      exact ⟨rfl, hrests⟩

theorem outlineAll_injective (depth : Nat) :
    Function.Injective (outlineAll depth : List (Tree α) → List (Nat × α)) := by
  intro ss ts heq
  have hforests : outlineAll depth ss ++ [] = outlineAll depth ts ++ [] := by rw [heq]
  exact (outlineAll_append_inj_of (fun s _ t _ _ hr hr' => outline_append_inj s t hr hr')
    (endsAbove_nil depth) (endsAbove_nil depth) hforests).1

end TreeWalk.Tree
