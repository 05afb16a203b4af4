import Mathlib
import TreeWalk.Tree

/-!
Trees read in pre-order, and the places of a tree by their addresses. An address lists the child
positions on the way down from the root, so two places never share one even where the trees below them
are equal.
-/

namespace TreeWalk.Tree

variable {α β : Type}

/-- What holds of a tree whenever it holds of the trees right below it holds of every tree. -/
theorem induct {motive : Tree α → Prop}
    (node : ∀ v ts, (∀ t ∈ ts, motive t) → motive (.node v ts)) : ∀ t, motive t
  | .node v ts => node v ts fun t _ => induct node t

theorem sizeAll_eq_sum (ts : List (Tree α)) : sizeAll ts = (ts.map size).sum := by
  induction ts with
  | nil => rfl
  | cons t ts ih => rw [sizeAll, ih, List.map_cons, List.sum_cons]

theorem sizeAll_append (ss ts : List (Tree α)) : sizeAll (ss ++ ts) = sizeAll ss + sizeAll ts := by
  simp [sizeAll_eq_sum]

theorem sizeAll_perm {ss ts : List (Tree α)} (h : ss.Perm ts) : sizeAll ss = sizeAll ts := by
  rw [sizeAll_eq_sum, sizeAll_eq_sum]
  exact (h.map size).sum_eq

theorem size_le_sizeAll {t : Tree α} {ts : List (Tree α)} (h : t ∈ ts) : t.size ≤ sizeAll ts := by
  rw [sizeAll_eq_sum]
  exact List.le_sum_of_mem (List.mem_map_of_mem h)

theorem height_lt_heightAll {t : Tree α} {ts : List (Tree α)} (h : t ∈ ts) :
    t.height < heightAll ts := by
  induction ts with
  | nil => cases h
  | cons s ts ih =>
      rw [heightAll]
      rcases List.mem_cons.mp h with rfl | h
      · omega
      · have := ih h
        omega

theorem heightAll_le {ts : List (Tree α)} {k : Nat} (h : ∀ t ∈ ts, t.height < k) :
    heightAll ts ≤ k := by
  induction ts with
  | nil => exact Nat.zero_le k
  | cons t ts ih =>
      have hhead := h t List.mem_cons_self
      have htail := ih fun s hs => h s (List.mem_cons_of_mem t hs)
      rw [heightAll]
      omega

theorem mapAll_eq_map (f : α → β) (ts : List (Tree α)) : mapAll f ts = ts.map (map f) := by
  induction ts with
  | nil => rfl
  | cons t ts ih => rw [mapAll, ih, List.map_cons]

theorem map_map {γ : Type} (g : β → γ) (f : α → β) (t : Tree α) : (t.map f).map g = t.map (g ∘ f) := by
  induction t using induct with
  | node v ts ih =>
      rw [map, map, map, mapAll_eq_map, mapAll_eq_map, mapAll_eq_map, List.map_map]
      exact congrArg (node (g (f v))) (List.map_congr_left ih)

theorem value_map (f : α → β) (t : Tree α) : (t.map f).value = f t.value := by
  cases t with
  | node v ts => rfl

theorem height_map (f : α → β) (t : Tree α) : (t.map f).height = t.height := by
  induction t using induct with
  | node v ts ih =>
      rw [map, height, height, mapAll_eq_map]
      apply Nat.le_antisymm
      · refine heightAll_le fun t ht => ?_
        obtain ⟨s, hs, rfl⟩ := List.mem_map.mp ht
        rw [ih s hs]
        exact height_lt_heightAll hs
      · refine heightAll_le fun t ht => ?_
        rw [← ih t ht]
        exact height_lt_heightAll (List.mem_map_of_mem ht)

/-! ### Pre-order -/

mutual

/-- The values, each before those below it and siblings from left to right. -/
def preorder : Tree α → List α
  | node v ts => v :: preorderAll ts

def preorderAll : List (Tree α) → List α
  | [] => []
  | t :: ts => t.preorder ++ preorderAll ts

end

theorem preorderAll_eq_flatMap (ts : List (Tree α)) : preorderAll ts = ts.flatMap preorder := by
  induction ts with
  | nil => rfl
  | cons t ts ih => rw [preorderAll, ih, List.flatMap_cons]

theorem preorderAll_append (ss ts : List (Tree α)) :
    preorderAll (ss ++ ts) = preorderAll ss ++ preorderAll ts := by
  simp [preorderAll_eq_flatMap]

theorem preorderAll_perm {ss ts : List (Tree α)} (h : ss.Perm ts) :
    (preorderAll ss).Perm (preorderAll ts) := by
  rw [preorderAll_eq_flatMap, preorderAll_eq_flatMap]
  exact h.flatMap_right preorder

theorem mem_preorderAll {v : α} {ts : List (Tree α)} :
    v ∈ preorderAll ts ↔ ∃ t ∈ ts, v ∈ t.preorder := by
  rw [preorderAll_eq_flatMap, List.mem_flatMap]

theorem value_mem_preorder (t : Tree α) : t.value ∈ t.preorder := by
  cases t with
  | node v ts => exact List.mem_cons_self

theorem length_preorder (t : Tree α) : t.preorder.length = t.size := by
  induction t using induct with
  | node v ts ih =>
      have hlengths : (ts.map fun t => t.preorder.length) = ts.map size := List.map_congr_left ih
      rw [preorder, size, List.length_cons, preorderAll_eq_flatMap, List.length_flatMap, hlengths,
        sizeAll_eq_sum, Nat.add_comm]

/-! ### Places -/

mutual

/-- The places in pre-order, each with its address and its value. -/
def places : Tree α → List (List Nat × α)
  | node v ts => ([], v) :: placesFrom 0 ts

/-- The places of trees that stand side by side, the first one at position `position`. -/
def placesFrom (position : Nat) : List (Tree α) → List (List Nat × α)
  | [] => []
  | t :: ts =>
      t.places.map (fun place => (position :: place.1, place.2)) ++ placesFrom (position + 1) ts

end

theorem map_snd_placesFrom_of {ts : List (Tree α)}
    (h : ∀ t ∈ ts, t.places.map Prod.snd = t.preorder) (position : Nat) :
    (placesFrom position ts).map Prod.snd = preorderAll ts := by
  induction ts generalizing position with
  | nil => rfl
  | cons t ts ih =>
      have hhead := h t List.mem_cons_self
      have htail := ih (fun s hs => h s (List.mem_cons_of_mem t hs)) (position + 1)
      rw [placesFrom, preorderAll, List.map_append, List.map_map, htail, ← hhead]
      rfl

theorem map_snd_places (t : Tree α) : t.places.map Prod.snd = t.preorder := by
  induction t using induct with
  | node v ts ih => rw [places, preorder, List.map_cons, map_snd_placesFrom_of ih]

/-- An address among trees side by side starts with the position of the tree it leads into. -/
theorem mem_placesFrom {position : Nat} {ts : List (Tree α)} {place : List Nat × α} :
    place ∈ placesFrom position ts ↔
      ∃ i address t, ts[i]? = some t ∧ (address, place.2) ∈ t.places ∧
        place.1 = (position + i) :: address := by
  induction ts generalizing position with
  | nil => simp [placesFrom]
  | cons t ts ih =>
      rw [placesFrom, List.mem_append, ih]
      constructor
      · rintro (h | ⟨i, address, s, hs, hplace, haddress⟩)
        · obtain ⟨inner, hinner, rfl⟩ := List.mem_map.mp h
          exact ⟨0, inner.1, t, rfl, hinner, rfl⟩
        · exact ⟨i + 1, address, s, hs, hplace, by rw [haddress, Nat.add_right_comm, Nat.add_assoc]⟩
      · rintro ⟨i, address, s, hs, hplace, haddress⟩
        cases i with
        | zero =>
            obtain rfl : t = s := Option.some.inj hs
            refine Or.inl (List.mem_map.mpr ⟨_, hplace, ?_⟩)
            exact Prod.ext haddress.symm rfl
        | succ i =>
            exact Or.inr ⟨i, address, s, hs, hplace,
              by rw [haddress, Nat.add_right_comm, Nat.add_assoc]⟩

theorem nodup_placesFrom_of {ts : List (Tree α)} (h : ∀ t ∈ ts, (t.places.map Prod.fst).Nodup)
    (position : Nat) : ((placesFrom position ts).map Prod.fst).Nodup := by
  induction ts generalizing position with
  | nil => exact List.nodup_nil
  | cons t ts ih =>
      have hhead := h t List.mem_cons_self
      have htail := ih (fun s hs => h s (List.mem_cons_of_mem t hs)) (position + 1)
      rw [placesFrom, List.map_append, List.map_map]
      refine List.Nodup.append ?_ htail ?_
      · have hcons : (t.places.map (Prod.fst ∘ fun place => (position :: place.1, place.2))) =
            (t.places.map Prod.fst).map (position :: ·) := by
          rw [List.map_map]
          rfl
        rw [hcons]
        exact hhead.map (List.cons_injective)
      · intro address hfirst hlater
        obtain ⟨inner, -, rfl⟩ := List.mem_map.mp hfirst
        obtain ⟨outer, houter, heq⟩ := List.mem_map.mp hlater
        obtain ⟨i, rest, s, -, -, haddress⟩ := mem_placesFrom.mp houter
        rw [haddress] at heq
        have hposition : position + 1 + i = position := (List.cons.inj heq).1
        omega

/-- No two places share an address. -/
theorem nodup_places (t : Tree α) : (t.places.map Prod.fst).Nodup := by
  induction t using induct with
  | node v ts ih =>
      rw [places, List.map_cons, List.nodup_cons]
      refine ⟨fun h => ?_, nodup_placesFrom_of ih 0⟩
      obtain ⟨place, hplace, heq⟩ := List.mem_map.mp h
      obtain ⟨i, rest, s, -, -, haddress⟩ := mem_placesFrom.mp hplace
      rw [haddress] at heq
      cases heq

theorem placesFrom_mapAll_of (f : α → β) {ts : List (Tree α)}
    (h : ∀ t ∈ ts, (t.map f).places = t.places.map fun place => (place.1, f place.2)) (position : Nat) :
    placesFrom position (mapAll f ts) =
      (placesFrom position ts).map fun place => (place.1, f place.2) := by
  induction ts generalizing position with
  | nil => rfl
  | cons t ts ih =>
      have hhead := h t List.mem_cons_self
      have htail := ih (fun s hs => h s (List.mem_cons_of_mem t hs)) (position + 1)
      rw [mapAll, placesFrom, placesFrom, hhead, htail, List.map_append, List.map_map, List.map_map]
      rfl

theorem places_map (f : α → β) (t : Tree α) :
    (t.map f).places = t.places.map fun place => (place.1, f place.2) := by
  induction t using induct with
  | node v ts ih => rw [map, places, places, placesFrom_mapAll_of f ih, List.map_cons]

theorem preorder_map (f : α → β) (t : Tree α) : (t.map f).preorder = t.preorder.map f := by
  rw [← map_snd_places, ← map_snd_places, places_map, List.map_map, List.map_map]
  rfl

theorem size_map (f : α → β) (t : Tree α) : (t.map f).size = t.size := by
  rw [← length_preorder, preorder_map, List.length_map, length_preorder]

/-- The height is the length of the longest address. -/
theorem height_lt_iff_places {t : Tree α} {k : Nat} :
    t.height < k ↔ ∀ place ∈ t.places, place.1.length < k := by
  induction t using induct generalizing k with
  | node v ts ih =>
      rw [height, places, List.forall_mem_cons]
      cases k with
      | zero => simp
      | succ k =>
          constructor
          · intro h
            refine ⟨Nat.zero_lt_succ k, fun place hplace => ?_⟩
            obtain ⟨i, address, t, hi, hinner, haddress⟩ := mem_placesFrom.mp hplace
            have ht := List.mem_of_getElem? hi
            have hlt := Nat.lt_of_lt_of_le (height_lt_heightAll ht) (Nat.le_of_lt_succ h)
            rw [haddress, List.length_cons]
            exact Nat.succ_lt_succ ((ih t ht).mp hlt _ hinner)
          · rintro ⟨-, h⟩
            refine Nat.lt_succ_of_le (heightAll_le fun t ht => (ih t ht).mpr fun place hplace => ?_)
            obtain ⟨i, hi⟩ := List.mem_iff_getElem?.mp ht
            have hlt := h ((0 + i) :: place.1, place.2)
              (mem_placesFrom.mpr ⟨i, place.1, t, hi, hplace, rfl⟩)
            exact Nat.lt_of_succ_lt_succ hlt

/-! ### Outlines -/

theorem outlineAll_eq_flatMap (depth : Nat) (ts : List (Tree α)) :
    outlineAll depth ts = ts.flatMap (outline depth) := by
  induction ts with
  | nil => rfl
  | cons t ts ih => rw [outlineAll, ih, List.flatMap_cons]

/-- The greatest depth of an outline is the height. -/
theorem forall_mem_outline_lt_iff {t : Tree α} {depth k : Nat} :
    (∀ row ∈ t.outline depth, row.1 < k) ↔ depth + t.height < k := by
  induction t using induct generalizing depth with
  | node v ts ih =>
      have hbelow : (∀ row ∈ outlineAll (depth + 1) ts, row.1 < k) ↔
          ∀ t ∈ ts, depth + 1 + t.height < k := by
        rw [outlineAll_eq_flatMap, List.forall_mem_flatMap]
        exact forall₂_congr fun t ht => ih t ht
      rw [outline, List.forall_mem_cons, hbelow, height]
      constructor
      · rintro ⟨hdepth, h⟩
        have hheight : heightAll ts ≤ k - depth - 1 := heightAll_le fun t ht => by
          have := h t ht
          omega
        omega
      · intro h
        refine ⟨by omega, fun t ht => ?_⟩
        have := height_lt_heightAll ht
        omega

end TreeWalk.Tree
