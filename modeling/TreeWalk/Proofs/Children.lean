import TreeWalk.Graph
import TreeWalk.Proofs.Source

/-!
What the readers of a child view give. In every view reading from the front gives the child list, and
reading from the back gives it reversed, so a walk that reads views in any way works on
`Graph.children`.
-/

namespace TreeWalk

open Source (Yields)

variable {ν : Type}

namespace ChildList

@[simp] theorem length_toList (items : ChildList ν) : items.toList.length = items.length := by
  simp [toList]

theorem get?_eq_getElem? (items : ChildList ν) (i : Nat) : items.get? i = items.toList[i]? := by
  unfold get?
  split
  · rename_i h
    rw [List.getElem?_eq_getElem (by simpa using h)]
    simp [toList]
  · rename_i h
    rw [List.getElem?_eq_none (by simpa using h)]

theorem toList_ofArray (items : Array ν) : (ofArray items).toList = items.toList := by
  apply List.ext_getElem
  · simp [ofArray]
  · intro i _ _
    simp [toList, ofArray]

theorem toList_ofHalves (front back : Array ν) :
    (ofHalves front back).toList = front.toList.reverse ++ back.toList := by
  apply List.ext_getElem
  · simp [ofHalves]
  · intro i _ _
    by_cases hi : i < front.size
    · simp [toList, ofHalves, hi]
    · simp [toList, ofHalves, List.getElem_append, hi]

end ChildList

namespace ForwardReader

/-- The children that a reader has before it. -/
def ahead : ForwardReader ν → List ν
  | indexed items position => items.toList.drop position
  | sequence rest => rest

@[simp] theorem length_ahead (reader : ForwardReader ν) : reader.ahead.length = reader.remaining := by
  cases reader <;> simp [ahead, remaining]

theorem rests : Source.Rests (next (ν := ν)) := by
  intro reader hdry
  cases reader with
  | indexed items position =>
      rw [next] at hdry ⊢
      cases hget : items.get? position with
      | none => rfl
      | some child =>
          rw [hget] at hdry
          cases hdry
  | sequence rest =>
      cases rest with
      | nil => rfl
      | cons child rest => cases hdry

theorem next_of_ahead_nil {reader : ForwardReader ν} (h : reader.ahead = []) :
    reader.next = (none, reader) := by
  cases reader with
  | indexed items position =>
      have hlen : items.toList.length ≤ position := List.drop_eq_nil_iff.mp h
      simp [next, ChildList.get?_eq_getElem?, List.getElem?_eq_none hlen]
  | sequence rest =>
      cases h
      rfl

theorem next_of_ahead_cons {reader : ForwardReader ν} {child : ν} {rest : List ν}
    (h : reader.ahead = child :: rest) :
    ∃ reader', reader.next = (some child, reader') ∧ reader'.ahead = rest := by
  cases reader with
  | indexed items position =>
      have hhead : items.toList[position]? = some child := by
        rw [← List.head?_drop, show items.toList.drop position = child :: rest from h]
        rfl
      refine ⟨indexed items (position + 1), ?_, ?_⟩
      · simp [next, ChildList.get?_eq_getElem?, hhead]
      · rw [ahead, ← List.drop_drop, show items.toList.drop position = child :: rest from h]
        rfl
  | sequence items =>
      cases h
      exact ⟨sequence rest, rfl, rfl⟩

theorem yields_ahead (reader : ForwardReader ν) : Yields next reader.ahead reader := by
  generalize hahead : reader.ahead = children
  induction children generalizing reader with
  | nil =>
      show reader.next.1 = none
      rw [next_of_ahead_nil hahead]
  | cons child rest ih =>
      obtain ⟨reader', hnext, hrest⟩ := next_of_ahead_cons hahead
      exact ⟨reader', hnext, ih reader' hrest⟩

theorem toList_eq_ahead (reader : ForwardReader ν) : reader.toList = reader.ahead :=
  reader.yields_ahead.emit_eq (by simp)

end ForwardReader

namespace BackwardReader

/-- The children that a reader has before it, the last one first. -/
def ahead : BackwardReader ν → List ν
  | indexed items remaining => (items.toList.take remaining).reverse
  | buffered buffer => buffer

theorem rests : Source.Rests (next (ν := ν)) := by
  intro reader hdry
  cases reader with
  | indexed items remaining =>
      cases remaining with
      | zero => rfl
      | succ remaining =>
          rw [next] at hdry ⊢
          cases hget : items.get? remaining with
          | none => rfl
          | some child =>
              rw [hget] at hdry
              cases hdry
  | buffered buffer =>
      cases buffer with
      | nil => rfl
      | cons child buffer => cases hdry

/-- A reader by position starts inside its list and stays there. -/
def InRange : BackwardReader ν → Prop
  | indexed items remaining => remaining ≤ items.length
  | buffered _ => True

theorem length_ahead {reader : BackwardReader ν} (h : reader.InRange) :
    reader.ahead.length = reader.remaining := by
  cases reader with
  | indexed items remaining =>
      rw [ahead, List.length_reverse, List.length_take, ChildList.length_toList]
      exact Nat.min_eq_left h
  | buffered buffer => rfl

theorem yields_ahead {reader : BackwardReader ν} (h : reader.InRange) :
    Yields next reader.ahead reader := by
  cases reader with
  | indexed items remaining =>
      induction remaining with
      | zero => rfl
      | succ remaining ih =>
          have hlt : remaining < items.toList.length := by
            rw [ChildList.length_toList]
            exact h
          rw [ahead, List.take_succ_eq_append_getElem hlt, List.reverse_append]
          refine ⟨indexed items remaining, ?_, ih (Nat.le_of_succ_le h)⟩
          simp [next, ChildList.get?_eq_getElem?, List.getElem?_eq_getElem hlt]
  | buffered buffer =>
      induction buffer with
      | nil => rfl
      | cons child buffer ih => exact ⟨buffered buffer, rfl, ih trivial⟩

theorem toList_eq_ahead {reader : BackwardReader ν} (h : reader.InRange) :
    reader.toList = reader.ahead :=
  (yields_ahead h).emit_eq (Nat.le_of_eq (length_ahead h))

end BackwardReader

namespace ChildView

theorem ahead_forward (view : ChildView ν) : view.forward.ahead = view.toList := by
  cases view <;> rfl

@[simp] theorem toList_forward (view : ChildView ν) : view.forward.toList = view.toList := by
  rw [ForwardReader.toList_eq_ahead, ahead_forward]

@[simp] theorem remaining_forward (view : ChildView ν) :
    view.forward.remaining = view.toList.length := by
  rw [← ForwardReader.length_ahead, ahead_forward]

theorem inRange_backward (view : ChildView ν) : view.backward.InRange := by
  cases view with
  | indexed items => exact Nat.le_refl items.length
  | sequence items => trivial

theorem ahead_backward (view : ChildView ν) : view.backward.ahead = view.toList.reverse := by
  cases view with
  | indexed items =>
      show (items.toList.take items.length).reverse = items.toList.reverse
      rw [List.take_of_length_le (by simp)]
  | sequence items => rfl

@[simp] theorem toList_backward (view : ChildView ν) :
    view.backward.toList = view.toList.reverse := by
  rw [BackwardReader.toList_eq_ahead view.inRange_backward, ahead_backward]

/-- Read forwards, a view gives its child list and ends. -/
theorem yields_forward (view : ChildView ν) : Yields ForwardReader.next view.toList view.forward :=
  view.ahead_forward ▸ view.forward.yields_ahead

/-- Read backwards, a view gives its child list from the last child to the first and ends. -/
theorem yields_backward (view : ChildView ν) :
    Yields BackwardReader.next view.toList.reverse view.backward :=
  view.ahead_backward ▸ BackwardReader.yields_ahead view.inRange_backward

end ChildView

/-- Every layout shows the list that it lays out. -/
theorem Layout.toList_view (layout : Layout) (items : List ν) : (layout.view items).toList = items := by
  cases layout with
  | row => exact ChildList.toList_ofArray items.toArray
  | halves =>
      show (ChildList.ofHalves _ _).toList = items
      rw [ChildList.toList_ofHalves, List.reverse_reverse, List.take_append_drop]
  | sequence => rfl

end TreeWalk
