import Mathlib.Data.List.Forall2
import Mathlib.Logic.Relation
import TreeWalk.Document
import TreeWalk.Proofs.Arena
import TreeWalk.Proofs.Except
import TreeWalk.Proofs.Toml.Fields
import TreeWalk.Proofs.Toml.Table

/-!
What documents describe. A node has three slots, which a table names by keys and an array by positions, and
it is described by what stands in them. Nothing in a description depends on the order in which the slots
are filled. The reader goes through the entries in their order and stops at the first that does not fit;
since a table has each key once, it still reads exactly the trees that are described.
-/

namespace TreeWalk.Document

open Toml (Value Mismatch)
open Arena (Grown)

variable {A : Arena}

/-! ### Descriptions -/

/-- The elements of an array, whether written in brackets or made of tables by headers. -/
def elements? : Value → Option (List Value)
  | .array items => some items
  | .tables rows => some (rows.map .table)
  | _ => none

/-- What stands for the kind, the text and the children of a node, where there is something. -/
structure Slots where
  kind : Option Value
  text : Option Value
  children : Option Value

namespace Slots

/-- The slots by the keys of a table. -/
def ofTable (table : Toml.Table) : Slots :=
  ⟨table.lookup "kind", table.lookup "text", table.lookup "children"⟩

/-- The slots by the positions of an array. -/
def ofItems (items : List Value) : Slots := ⟨items[0]?, items[1]?, items[2]?⟩

/-- A child may be a table or an array. In any other value all slots are empty. -/
def ofChild : Value → Slots
  | .table entries => ofTable entries
  | v => ofItems ((elements? v).getD [])

/-- The slots describe a node: the kind is a string, the text is a string or left out, and the children
are an array or left out, whose elements describe the children in their order. -/
inductive Describe : Slots → Tree Symbol → Prop where
  | node {slots : Slots} {symbol : Symbol} {items : List Value} {children : List (Tree Symbol)}
      (kind : slots.kind = some (.string symbol.kind)) (text : slots.text = symbol.text.map .string)
      (array : slots.children.elim (some []) elements? = some items)
      (each : List.Forall₂ (fun v t => Describe (ofChild v) t) items children) :
      Describe slots (.node symbol children)

end Slots

/-- The value is an array, and its elements describe the trees in their order. -/
def DescribesAll (v : Value) (ts : List (Tree Symbol)) : Prop :=
  ∃ items, elements? v = some items ∧ List.Forall₂ (fun v t => (Slots.ofChild v).Describe t) items ts

theorem Slots.describe_node_iff {slots : Slots} {symbol : Symbol} {ts : List (Tree Symbol)} :
    slots.Describe (.node symbol ts) ↔ slots.kind = some (.string symbol.kind) ∧
      slots.text = symbol.text.map .string ∧ slots.children.elim (ts = []) (DescribesAll · ts) := by
  obtain ⟨kind, text, children⟩ := slots
  constructor
  · rintro ⟨hkind, htext, harray, heach⟩
    refine ⟨hkind, htext, ?_⟩
    cases children with
    | none =>
        cases harray
        exact List.forall₂_nil_left_iff.mp heach
    | some v => exact ⟨_, harray, heach⟩
  · rintro ⟨hkind, htext, hchildren⟩
    cases children with
    | none =>
        obtain rfl : ts = [] := hchildren
        exact .node hkind htext rfl .nil
    | some v =>
        obtain ⟨items, harray, heach⟩ := hchildren
        exact .node hkind htext harray heach

theorem not_describesAll {v : Value} (h : elements? v = none) (ts : List (Tree Symbol)) :
    ¬DescribesAll v ts := by
  rintro ⟨items, hitems, -⟩
  rw [h] at hitems
  cases hitems

theorem Slots.not_describe_of_kind {slots : Slots} (h : ∀ s, slots.kind ≠ some (.string s))
    (t : Tree Symbol) : ¬slots.Describe t := by
  rintro ⟨hkind, -, -, -⟩
  exact h _ hkind

/-! ### Reading them -/

theorem Fields.map_tree_node_eq_ok_iff {fields : Fields A} {symbol : Symbol} {ts : List (Tree Symbol)} :
    fields.node.map Grown.tree = .ok (.node symbol ts) ↔
      fields.kind = some symbol.kind ∧ fields.text = symbol.text ∧ fields.children.trees = ts := by
  obtain ⟨kind, text, children⟩ := fields
  obtain ⟨k, txt⟩ := symbol
  cases kind <;> simp [Fields.node, Except.map, and_assoc]

/-- The entries that are left set the fields whose keys they have. -/
def GivesOver (before : Fields A) (table : Toml.Table) (after : Fields A) : Prop :=
  Toml.Gives (fun v text => v = .string text) before.kind (table.lookup "kind") after.kind ∧
    Toml.Gives (fun v text => v = .string text) before.text (table.lookup "text") after.text ∧
    (table.lookup "children").elim (after.children = before.children) (readChildren A · = .ok after.children)

theorem readFields_cons_eq_ok_iff {key : String} {v : Value} {table : Toml.Table} {after : Fields A}
    (habsent : table.lookup key = none)
    (hrest : ∀ before, readFields before table = .ok after ↔ GivesOver before table after) (before : Fields A) :
    readFields before ((key, v) :: table) = .ok after ↔ GivesOver before ((key, v) :: table) after := by
  by_cases hkey : key = "kind" ∨ key = "text" ∨ key = "children"
  · rcases hkey with rfl | rfl | rfl
    all_goals
      simp only [readFields, String.reduceEq, if_true, if_false, bind_eq_ok_iff, Toml.asString_eq_ok_iff, hrest]
      simp only [GivesOver, Toml.lookup_cons_eq_ite, habsent, Toml.gives_none_iff]
      grind [Toml.gives_some_iff]
  · rw [not_or, not_or] at hkey
    obtain ⟨hkind, htext, hchildren⟩ := hkey
    rw [readFields, if_neg hkind, if_neg htext, if_neg hchildren, hrest]
    simp only [GivesOver, Toml.lookup_cons_eq_ite, if_neg (Ne.symm hkind), if_neg (Ne.symm htext),
      if_neg (Ne.symm hchildren)]

theorem readFields_eq_ok_iff {table : Toml.Table} (hkeys : (table.map Prod.fst).Nodup)
    (before after : Fields A) : readFields before table = .ok after ↔ GivesOver before table after := by
  induction table generalizing before with
  | nil =>
      simp only [readFields, GivesOver, List.lookup_nil, Toml.gives_none_iff, Option.elim_none, Except.ok.injEq]
      cases before
      cases after
      simp [eq_comm]
  | cons entry table ih =>
      obtain ⟨key, v⟩ := entry
      rw [List.map_cons, List.nodup_cons] at hkeys
      exact readFields_cons_eq_ok_iff (Toml.lookup_eq_none_of_not_mem hkeys.1) (ih hkeys.2) before

/-- What is read as a child is what the value describes, whatever was made before. -/
def ReadsChild (v : Value) : Prop :=
  ∀ A t, (readChild A v).map Grown.tree = .ok t ↔ (Slots.ofChild v).Describe t

/-- What is read as the children of a node is what the value describes. -/
def ReadsChildren (v : Value) : Prop :=
  ∀ A ts, (readChildren A v).map Grown.trees = .ok ts ↔ DescribesAll v ts

theorem map_tree_readTable_eq_ok_iff {table : Toml.Table} (hkeys : (table.map Prod.fst).Nodup)
    (hchildren : ∀ v, table.lookup "children" = some v → ReadsChildren v) (A : Arena) (t : Tree Symbol) :
    (readTable A table).map Grown.tree = .ok t ↔ (Slots.ofTable table).Describe t := by
  obtain ⟨symbol, ts⟩ := t
  have hslot : (∃ children, (table.lookup "children").elim (children = Grown.nil A) (readChildren A · = .ok children) ∧
      children.trees = ts) ↔ (table.lookup "children").elim (ts = []) (DescribesAll · ts) := by
    cases hlookup : table.lookup "children" with
    | none => simp [eq_comm]
    | some v => simp only [Option.elim_some, ← map_eq_ok_iff, hchildren v hlookup A ts]
  rw [readTable, map_bind, bind_eq_ok_iff, Slots.describe_node_iff, Slots.ofTable, ← hslot]
  simp only [readFields_eq_ok_iff hkeys, GivesOver, Fields.map_tree_node_eq_ok_iff, Toml.gives_iff_rel]
  constructor
  · rintro ⟨⟨kind, text, children⟩, ⟨hkind, htext, hread⟩, rfl, rfl, hts⟩
    exact ⟨Toml.rel_string_iff.mp hkind, Toml.rel_string_iff.mp htext, children, hread, hts⟩
  · rintro ⟨hkind, htext, children, hread, hts⟩
    refine ⟨⟨some symbol.kind, symbol.text, children⟩, ⟨?_, ?_, hread⟩, rfl, rfl, hts⟩
    · exact Toml.rel_string_iff.mpr hkind
    · exact Toml.rel_string_iff.mpr htext

theorem map_tree_readPositions_eq_ok_iff {items : List Value}
    (hchildren : ∀ v, items[2]? = some v → ReadsChildren v) (A : Arena) (t : Tree Symbol) :
    (readPositions A items).map Grown.tree = .ok t ↔ (Slots.ofItems items).Describe t := by
  obtain ⟨⟨kind, text⟩, ts⟩ := t
  rw [Slots.describe_node_iff, Slots.ofItems]
  match items with
  | [] => simp [readPositions, Except.map]
  | [k] =>
      simp only [readPositions, map_bind, bind_eq_ok_iff, Toml.asString_eq_ok_iff]
      cases text <;> grind [Except.map, Grown.tree_node, Grown.trees_nil]
  | [k, txt] =>
      simp only [readPositions, map_bind, bind_eq_ok_iff, Toml.asString_eq_ok_iff]
      cases text <;> grind [Except.map, Grown.tree_node, Grown.trees_nil]
  | k :: txt :: children :: _ =>
      have hread := hchildren children rfl A ts
      simp only [readPositions, map_bind, bind_eq_ok_iff, Toml.asString_eq_ok_iff]
      cases text <;> grind [Except.map, Grown.tree_node, map_eq_ok_iff]

/-- The children are made one after another, each behind those before it. -/
theorem map_trees_readItems_eq_ok_iff {items : List Value} (heach : ∀ v ∈ items, ReadsChild v) (A : Arena)
    (ts : List (Tree Symbol)) :
    (readItems A items).map Grown.trees = .ok ts ↔
      List.Forall₂ (fun v t => (Slots.ofChild v).Describe t) items ts := by
  induction items generalizing A ts with
  | nil => simp [readItems, Except.map, List.forall₂_nil_left_iff, eq_comm]
  | cons v items ih =>
      obtain ⟨hv, hitems⟩ := List.forall_mem_cons.mp heach
      simp only [readItems, map_bind, bind_eq_ok_iff, List.forall₂_cons_left_iff, ← hv A, map_eq_ok_iff]
      constructor
      · rintro ⟨child, hchild, more, hmore, g, hg, rfl⟩
        cases hg
        refine ⟨child.tree, more.trees, ⟨child, hchild, rfl⟩, ?_, Grown.trees_cons child more⟩
        exact (ih hitems child.arena more.trees).mp (by rw [hmore]; rfl)
      · rintro ⟨t, us, ⟨child, hchild, rfl⟩, hus, rfl⟩
        obtain ⟨more, hmore, rfl⟩ := map_eq_ok_iff.mp ((ih hitems child.arena us).mpr hus)
        exact ⟨child, hchild, more, hmore, _, rfl, Grown.trees_cons child more⟩

theorem readRows_eq_readItems (rows : List Toml.Table) (A : Arena) :
    readRows A rows = readItems A (rows.map .table) := by
  induction rows generalizing A with
  | nil => rfl
  | cons row rows ih =>
      rw [readRows, List.map_cons, readItems, readChild, bind_assoc]
      simp only [ih]

/-- A child and an array of children are read as what they describe. Both follow from what lies below them,
so they go together in one induction. -/
theorem reads_of_keysOnce {v : Value} (h : v.KeysOnce) : ReadsChild v ∧ ReadsChildren v := by
  induction h with
  | array _ ih =>
      rename_i items _
      refine ⟨fun A t => ?_, fun A ts => ?_⟩
      · rw [readChild]
        exact map_tree_readPositions_eq_ok_iff (fun v hv => (ih v (List.mem_of_getElem? hv)).2) A t
      · rw [readChildren, map_trees_readItems_eq_ok_iff fun v hv => (ih v hv).1]
        simp [DescribesAll, elements?]
  | table nodup _ ih =>
      rename_i entries _
      refine ⟨fun A t => ?_, fun A ts => ?_⟩
      · refine map_tree_readTable_eq_ok_iff nodup (fun v hv => ?_) A t
        exact (ih _ ((Toml.lookup_eq_some_iff_mem nodup).mp hv)).2
      · simp only [readChildren, Except.map, reduceCtorEq, false_iff]
        exact not_describesAll rfl ts
  | tables _ ih =>
      rename_i rows _
      refine ⟨fun A t => ?_, fun A ts => ?_⟩
      · have hnone : ¬(Slots.ofChild (.tables rows)).Describe t := by
          refine Slots.not_describe_of_kind (fun s => ?_) t
          cases rows <;> simp [Slots.ofChild, Slots.ofItems, elements?]
        cases rows <;> simp [readChild, Except.map, hnone]
      · rw [readChildren, readRows_eq_readItems, map_trees_readItems_eq_ok_iff]
        · simp [DescribesAll, elements?]
        · intro v hv
          obtain ⟨row, hrow, rfl⟩ := List.mem_map.mp hv
          exact (ih row hrow).1
  | _ =>
      refine ⟨fun A t => ?_, fun A ts => ?_⟩
      · simp only [readChild, Except.map, reduceCtorEq, false_iff]
        exact Slots.not_describe_of_kind (fun s => by simp [Slots.ofChild, Slots.ofItems, elements?]) t
      · simp only [readChildren, Except.map, reduceCtorEq, false_iff]
        exact not_describesAll rfl ts

/-- A document is read as the tree that its table describes. -/
theorem parse_eq_ok_iff {content : String} {t : Tree Symbol} :
    parse content = .ok t ↔ ∃ table, Toml.parse? content = some table ∧ (Slots.ofTable table).Describe t := by
  rw [parse, map_eq_ok_iff, decode]
  cases hparse : Toml.parse? content with
  | none => simp
  | some table =>
      have hread := (reads_of_keysOnce (Toml.keysOnce_of_parse? hparse)).1 .empty t
      simp only [mapError_eq_ok_iff, map_eq_ok_iff, Option.some.injEq, exists_eq_left']
      rw [← show Slots.ofChild (.table table) = Slots.ofTable table from rfl, ← hread, map_eq_ok_iff]
      constructor
      · rintro ⟨R, ⟨g, hg, rfl⟩, ht⟩
        exact ⟨g, hg, ht⟩
      · rintro ⟨g, hg, ht⟩
        exact ⟨g.rooted, ⟨g, hg, rfl⟩, ht⟩

end TreeWalk.Document
