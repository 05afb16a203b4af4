import Mathlib.Data.List.Nodup
import Mathlib.Data.Option.Basic
import TreeWalk.Toml.Value

/-!
Tables as records. A reader takes in the entries of a table one after another, each of which sets a field.
Where every key stands once, the fields that come out are those that looking up their keys would give, and
the order of the entries does not matter.
-/

namespace TreeWalk.Toml

theorem asString_eq_ok_iff {v : Value} {text : String} : v.asString = .ok text ↔ v = .string text := by
  cases v <;> simp [Value.asString]

section Lookup

variable {table table' : Table} {key : String} {v : Value}

theorem lookup_eq_none_of_not_mem (h : key ∉ table.map Prod.fst) : table.lookup key = none := by
  rw [List.lookup_eq_none_iff]
  intro entry hentry
  simpa using fun heq : key = entry.1 => h (heq ▸ List.mem_map_of_mem hentry)

theorem lookup_cons_eq_ite (name key : String) (v : Value) (table : Table) :
    List.lookup name ((key, v) :: table) = if name = key then some v else table.lookup name := by
  rw [List.lookup_cons]
  by_cases h : name = key
  · simp [h]
  · rw [beq_eq_false_iff_ne.mpr h, if_neg h]

theorem lookup_eq_some_iff_mem (hkeys : (table.map Prod.fst).Nodup) :
    table.lookup key = some v ↔ (key, v) ∈ table := by
  induction table with
  | nil => simp
  | cons entry table ih =>
      obtain ⟨name, w⟩ := entry
      rw [List.map_cons, List.nodup_cons] at hkeys
      rw [lookup_cons_eq_ite, List.mem_cons, ← ih hkeys.2, Prod.mk.injEq]
      by_cases h : key = name
      · subst h
        simp [lookup_eq_none_of_not_mem hkeys.1, eq_comm]
      · simp [h]

theorem lookup_eq_of_perm (hkeys : (table.map Prod.fst).Nodup) (h : table.Perm table') (key : String) :
    table.lookup key = table'.lookup key := by
  have hkeys' : (table'.map Prod.fst).Nodup := (h.map Prod.fst).nodup_iff.mp hkeys
  ext v
  rw [lookup_eq_some_iff_mem hkeys, lookup_eq_some_iff_mem hkeys', h.mem_iff]

end Lookup

/-- What an entry that may be there makes of a field: the value that it gives, or what was set before. -/
def Gives {α : Type} (fits : Value → α → Prop) (before : Option α) : Option Value → Option α → Prop
  | none, after => after = before
  | some v, after => ∃ a, fits v a ∧ after = some a

section Gives

variable {α : Type} {fits : Value → α → Prop} {before after : Option α}

theorem gives_none_iff : Gives fits before none after ↔ after = before := Iff.rfl

theorem gives_some_iff {v : Value} : Gives fits before (some v) after ↔ ∃ a, fits v a ∧ after = some a :=
  Iff.rfl

theorem gives_iff_rel {v? : Option Value} : Gives fits none v? after ↔ Option.Rel fits v? after := by
  constructor
  · intro h
    cases v? with
    | none =>
        obtain rfl := h
        exact .none
    | some v =>
        obtain ⟨a, ha, rfl⟩ := h
        exact .some ha
  · rintro (⟨ha⟩ | _)
    · exact ⟨_, ha, rfl⟩
    · rfl

theorem rel_string_iff {v? : Option Value} {text? : Option String} :
    Option.Rel (fun v text => v = .string text) v? text? ↔ v? = text?.map .string := by
  constructor
  · rintro (⟨rfl⟩ | _) <;> rfl
  · rintro rfl
    cases text? with
    | none => exact .none
    | some text => exact .some rfl

end Gives

end TreeWalk.Toml
