import Mathlib.Data.List.Nodup
import TreeWalk.Toml.Reader

/-!
What a table can hold. However the statements of a document are ordered, a key is entered only where there
is none yet, so every table has each key once, at the top and in all values below it. The values of fields
are those that were read; and a word is read as an integer only if it writes a signed 64-bit one.
-/

namespace TreeWalk.Toml

/-- What every step keeps holds at the end, if all steps succeed. -/
theorem foldlM_induct {α β : Type} {I : α → Prop} {Q : β → Prop} {step : α → β → Option α}
    (hstep : ∀ a b a', I a → Q b → step a b = some a' → I a') {bs : List β} (hbs : ∀ b ∈ bs, Q b)
    {a a' : α} (ha : I a) (h : bs.foldlM step a = some a') : I a' := by
  induction bs generalizing a with
  | nil =>
      cases h
      exact ha
  | cons b bs ih =>
      rw [List.foldlM_cons] at h
      obtain ⟨between, hfirst, hrest⟩ := Option.bind_eq_some_iff.mp h
      obtain ⟨hb, hbs⟩ := List.forall_mem_cons.mp hbs
      exact ih hbs (hstep a b between ha hb hfirst) hrest

/-! ### Unfinished tables -/

/-- Every table that is part of the item has each key once, and the values of its fields satisfy `P`. -/
inductive Item.Holds (P : Value → Prop) : Item → Prop where
  | value {v : Value} (h : P v) : Holds P (.value v)
  | table {origin : Origin} {entries : Entries} (nodup : (entries.map Prod.fst).Nodup)
      (items : ∀ entry ∈ entries, Holds P entry.2) : Holds P (.table origin entries)
  | tables {rows : List Entries} (nodup : ∀ row ∈ rows, (row.map Prod.fst).Nodup)
      (items : ∀ row ∈ rows, ∀ entry ∈ row, Holds P entry.2) : Holds P (.tables rows)

namespace Entries

/-- The same of the entries of a table. -/
structure Holds (P : Value → Prop) (entries : Entries) : Prop where
  nodup : (entries.map Prod.fst).Nodup
  items : ∀ entry ∈ entries, entry.2.Holds P

variable {P : Value → Prop} {entries entries' : Entries} {key : String} {item : Item} {rows : List Entries}

theorem holds_nil : Holds P [] := ⟨List.nodup_nil, fun _ h => absurd h List.not_mem_nil⟩

theorem Holds.table (h : Holds P entries) (origin : Origin) : (Item.table origin entries).Holds P :=
  .table h.nodup h.items

theorem holds_of_table {origin : Origin} (h : (Item.table origin entries).Holds P) : Holds P entries := by
  cases h with
  | table nodup items => exact ⟨nodup, items⟩

theorem holds_tables_iff : (Item.tables rows).Holds P ↔ ∀ row ∈ rows, Holds P row := by
  constructor
  · rintro (_ | _ | ⟨nodup, items⟩) row hrow
    exact ⟨nodup row hrow, items row hrow⟩
  · exact fun h => .tables (fun row hrow => (h row hrow).nodup) fun row hrow => (h row hrow).items

theorem holds_tables_concat {body : Entries} (h : ∀ row ∈ rows, Holds P row) (hbody : Holds P body) :
    (Item.tables (rows ++ [body])).Holds P := by
  rw [holds_tables_iff]
  intro row hrow
  rcases List.mem_append.mp hrow with hrow | hrow
  · exact h row hrow
  · obtain rfl := List.mem_singleton.mp hrow
    exact hbody

theorem Holds.lookup (h : Holds P entries) (hlookup : entries.lookup key = some item) : item.Holds P := by
  obtain ⟨front, back, rfl, -⟩ := List.lookup_eq_some_iff.mp hlookup
  exact h.items (key, item) (List.mem_append_right front List.mem_cons_self)

theorem not_mem_keys_of_lookup (h : entries.lookup key = none) : key ∉ entries.map Prod.fst := by
  intro hmem
  obtain ⟨entry, hentry, rfl⟩ := List.mem_map.mp hmem
  simpa using List.lookup_eq_none_iff.mp h entry hentry

theorem Holds.concat (h : Holds P entries) (hkey : key ∉ entries.map Prod.fst) (hitem : item.Holds P) :
    Holds P (entries ++ [(key, item)]) := by
  refine ⟨?_, fun entry hmem => ?_⟩
  · rw [List.map_append, List.nodup_append]
    refine ⟨h.nodup, List.nodup_singleton key, fun a ha b hb hab => ?_⟩
    obtain rfl : b = key := List.mem_singleton.mp hb
    exact hkey (hab ▸ ha)
  · rcases List.mem_append.mp hmem with hmem | hmem
    · exact h.items entry hmem
    · obtain rfl := List.mem_singleton.mp hmem
      exact hitem

theorem map_fst_replace (key : String) (item : Item) (entries : Entries) :
    (replace key item entries).map Prod.fst = entries.map Prod.fst := by
  fun_induction replace key item entries with
  | case1 => rfl
  | case2 => rfl
  | case3 k old rest _ ih => rw [List.map_cons, List.map_cons, ih]

theorem mem_replace {entry : String × Item} (h : entry ∈ replace key item entries) :
    entry ∈ entries ∨ entry.2 = item := by
  fun_induction replace key item entries with
  | case1 => exact Or.inl h
  | case2 =>
      rcases List.mem_cons.mp h with rfl | h
      · exact Or.inr rfl
      · exact Or.inl (List.mem_cons_of_mem _ h)
  | case3 k old rest _ ih =>
      rcases List.mem_cons.mp h with rfl | h
      · exact Or.inl List.mem_cons_self
      · exact (ih h).imp_left (List.mem_cons_of_mem _)

theorem Holds.replace (h : Holds P entries) (key : String) (hitem : item.Holds P) :
    Holds P (replace key item entries) := by
  refine ⟨by rw [map_fst_replace]; exact h.nodup, fun entry hmem => ?_⟩
  rcases mem_replace hmem with hmem | heq
  · exact h.items entry hmem
  · exact heq ▸ hitem

theorem Holds.remove (h : Holds P entries) (key : String) : Holds P (remove key entries) :=
  ⟨h.nodup.sublist (List.filter_sublist.map Prod.fst),
    fun entry hmem => h.items entry (List.mem_filter.mp hmem).1⟩

theorem not_mem_keys_remove (key : String) (entries : Entries) : key ∉ (remove key entries).map Prod.fst := by
  intro hmem
  obtain ⟨entry, hentry, rfl⟩ := List.mem_map.mp hmem
  simpa using (List.mem_filter.mp hentry).2

theorem Holds.last (h : Holds P entries) (hlookup : entries.lookup key = some (.tables rows))
    {last : Entries} (hlast : rows.getLast? = some last) : Holds P last :=
  holds_tables_iff.mp (h.lookup hlookup) last (List.mem_of_getLast? hlast)

theorem Holds.replaceLast (h : Holds P entries) (hlookup : entries.lookup key = some (.tables rows))
    {last : Entries} (hlast : Holds P last) :
    Holds P (Entries.replace key (.tables (rows.dropLast ++ [last])) entries) := by
  have hrows := holds_tables_iff.mp (h.lookup hlookup)
  exact h.replace key
    (holds_tables_concat (fun row hrow => hrows row (List.dropLast_subset rows hrow)) hlast)

/-- A field enters a new key, in the table itself or in one below it. -/
theorem Holds.addField (h : Holds P entries) {v : Value} (hv : P v) {path : List String}
    (hadd : addField key v path entries = some entries') : Holds P entries' := by
  induction path generalizing entries entries' with
  | nil =>
      rw [Entries.addField] at hadd
      split at hadd
      · cases hadd
      · rename_i hlookup
        cases hadd
        exact h.concat (not_mem_keys_of_lookup hlookup) (.value hv)
  | cons part path ih =>
      rw [Entries.addField] at hadd
      split at hadd
      · rename_i hlookup
        obtain ⟨inner, hinner, rfl⟩ := Option.map_eq_some_iff.mp hadd
        exact h.concat (not_mem_keys_of_lookup hlookup) ((ih holds_nil hinner).table .dotted)
      · rename_i origin inner hlookup
        split at hadd
        · cases hadd
        · obtain ⟨inner', hinner, rfl⟩ := Option.map_eq_some_iff.mp hadd
          exact h.replace part ((ih (holds_of_table (h.lookup hlookup)) hinner).table origin)
      · rename_i rows hlookup
        split at hadd
        · cases hadd
        · rename_i last hlast
          split at hadd
          · cases hadd
          · obtain ⟨last', hinner, rfl⟩ := Option.map_eq_some_iff.mp hadd
            exact h.replaceLast hlookup (ih (h.last hlookup hlast) hinner)
      · cases hadd

/-- A change at the end of a path keeps what holds if it does so wherever it is made. -/
theorem Holds.descend (h : Holds P entries) {change : Entries → Option Entries} {path : List String}
    (hchange : ∀ entries changed, Holds P entries → change entries = some changed → Holds P changed)
    (hdescend : descend change path entries = some entries') : Holds P entries' := by
  induction path generalizing entries entries' with
  | nil => exact hchange entries entries' h hdescend
  | cons part path ih =>
      rw [Entries.descend] at hdescend
      split at hdescend
      · rename_i hlookup
        obtain ⟨inner, hinner, rfl⟩ := Option.map_eq_some_iff.mp hdescend
        exact h.concat (not_mem_keys_of_lookup hlookup) ((ih holds_nil hinner).table .implied)
      · rename_i origin inner hlookup
        obtain ⟨inner', hinner, rfl⟩ := Option.map_eq_some_iff.mp hdescend
        exact h.replace part ((ih (holds_of_table (h.lookup hlookup)) hinner).table origin)
      · rename_i rows hlookup
        split at hdescend
        · cases hdescend
        · rename_i last hlast
          obtain ⟨last', hinner, rfl⟩ := Option.map_eq_some_iff.mp hdescend
          exact h.replaceLast hlookup (ih (h.last hlookup hlast) hinner)
      · cases hdescend

theorem Holds.opening (h : Holds P entries) {path : List String} {body : Entries}
    (hopening : opening key path entries = some body) : Holds P body := by
  induction path generalizing entries with
  | nil =>
      rw [Entries.opening] at hopening
      split at hopening
      · cases hopening
        exact holds_nil
      · rename_i hlookup
        cases hopening
        exact holds_of_table (h.lookup hlookup)
      · cases hopening
  | cons part path ih =>
      rw [Entries.opening] at hopening
      split at hopening
      · cases hopening
        exact holds_nil
      · rename_i hlookup
        exact ih (holds_of_table (h.lookup hlookup)) hopening
      · rename_i hlookup
        split at hopening
        · cases hopening
        · rename_i last hlast
          exact ih (h.last hlookup hlast) hopening
      · cases hopening

theorem Holds.putTable (h : Holds P entries) {path : List String} {body : Entries} (hbody : Holds P body)
    (hput : putTable path key body entries = some entries') : Holds P entries' := by
  refine h.descend (fun entries changed h hchanged => ?_) hput
  cases hchanged
  exact (h.remove key).concat (not_mem_keys_remove key entries) (hbody.table .header)

theorem Holds.putRow (h : Holds P entries) {path : List String} {body : Entries} (hbody : Holds P body)
    (hput : putRow path key body entries = some entries') : Holds P entries' := by
  refine h.descend (fun entries changed h hchanged => ?_) hput
  split at hchanged
  · rename_i hlookup
    cases hchanged
    exact h.concat (not_mem_keys_of_lookup hlookup)
      (holds_tables_concat (fun row hrow => absurd hrow List.not_mem_nil) hbody)
  · rename_i hlookup
    cases hchanged
    exact h.replace key (holds_tables_concat (holds_tables_iff.mp (h.lookup hlookup)) hbody)
  · cases hchanged

end Entries

/-! ### Documents under way -/

/-- The value of a field satisfies `P`; headers have none. -/
def Statement.Holds (P : Value → Prop) (statement : Statement) : Prop :=
  ∀ path key v, statement = .field path key v → P v

namespace Draft

variable {P : Value → Prop} {draft draft' : Draft}

/-- What is finished holds, and so does the open table. -/
structure Holds (P : Value → Prop) (draft : Draft) : Prop where
  finished : Entries.Holds P draft.finished
  body : Entries.Holds P draft.body

theorem holds_start : Holds P start := ⟨Entries.holds_nil, Entries.holds_nil⟩

theorem Holds.close (h : Holds P draft) {entries : Entries} (hclose : draft.close = some entries) :
    Entries.Holds P entries := by
  unfold Draft.close at hclose
  split at hclose
  · cases hclose
    exact h.body
  · exact h.finished.putTable h.body hclose
  · exact h.finished.putRow h.body hclose

theorem Holds.add (h : Holds P draft) {statement : Statement} (hstatement : statement.Holds P)
    (hadd : draft.add statement = some draft') : Holds P draft' := by
  cases statement with
  | field path key v =>
      obtain ⟨body, hbody, rfl⟩ := Option.map_eq_some_iff.mp hadd
      exact ⟨h.finished, h.body.addField (hstatement path key v rfl) hbody⟩
  | table path key =>
      obtain ⟨finished, hclose, hadd⟩ := Option.bind_eq_some_iff.mp hadd
      obtain ⟨body, hopening, hadd⟩ := Option.bind_eq_some_iff.mp hadd
      cases hadd
      exact ⟨h.close hclose, (h.close hclose).opening hopening⟩
  | row path key =>
      obtain ⟨finished, hclose, hadd⟩ := Option.bind_eq_some_iff.mp hadd
      cases hadd
      exact ⟨h.close hclose, Entries.holds_nil⟩

end Draft

theorem exists_holds_of_assemble {P : Value → Prop} {statements : List Statement}
    (hstatements : ∀ statement ∈ statements, statement.Holds P) {table : Table}
    (h : assemble statements = some table) :
    ∃ entries, Entries.Holds P entries ∧ Item.toTable entries = table := by
  obtain ⟨draft, hfold, h⟩ := Option.bind_eq_some_iff.mp h
  obtain ⟨entries, hclose, h⟩ := Option.bind_eq_some_iff.mp h
  cases h
  have hdraft : draft.Holds P :=
    foldlM_induct (fun draft statement draft' h hstatement hadd => Draft.Holds.add h hstatement hadd)
      hstatements Draft.holds_start hfold
  exact ⟨entries, hdraft.close hclose, rfl⟩

/-! ### Finished tables -/

theorem toTable_eq_map (entries : Entries) :
    Item.toTable entries = entries.map fun (key, item) => (key, item.toValue) := by
  induction entries with
  | nil => rfl
  | cons entry entries ih => rw [Item.toTable, List.map_cons, ih]

theorem toTables_eq_map (rows : List Entries) : Item.toTables rows = rows.map Item.toTable := by
  induction rows with
  | nil => rfl
  | cons row rows ih => rw [Item.toTables, List.map_cons, ih]

theorem map_fst_toTable (entries : Entries) : (Item.toTable entries).map Prod.fst = entries.map Prod.fst := by
  rw [toTable_eq_map, List.map_map]
  rfl

theorem exists_of_mem_toTable {entries : Entries} {entry : String × Value}
    (h : entry ∈ Item.toTable entries) : ∃ item, (entry.1, item) ∈ entries ∧ item.toValue = entry.2 := by
  rw [toTable_eq_map] at h
  obtain ⟨⟨key, item⟩, hmem, rfl⟩ := List.mem_map.mp h
  exact ⟨item, hmem, rfl⟩

/-- Every table in the value, itself included, has each key once. -/
inductive Value.KeysOnce : Value → Prop where
  | string (s : String) : KeysOnce (.string s)
  | integer (n : Int) : KeysOnce (.integer n)
  | float (x : Double) : KeysOnce (.float x)
  | boolean (b : Bool) : KeysOnce (.boolean b)
  | datetime (text : String) : KeysOnce (.datetime text)
  | array {items : List Value} (values : ∀ v ∈ items, KeysOnce v) : KeysOnce (.array items)
  | table {entries : Table} (nodup : (entries.map Prod.fst).Nodup)
      (values : ∀ entry ∈ entries, KeysOnce entry.2) : KeysOnce (.table entries)
  | tables {rows : List Table} (tables : ∀ row ∈ rows, KeysOnce (.table row)) : KeysOnce (.tables rows)

theorem Item.Holds.keysOnce_toValue {P : Value → Prop} (hP : ∀ v, P v → v.KeysOnce) {item : Item}
    (h : item.Holds P) : item.toValue.KeysOnce := by
  have htable {entries : Entries} (nodup : (entries.map Prod.fst).Nodup)
      (ih : ∀ entry ∈ entries, entry.2.toValue.KeysOnce) : (Value.table (toTable entries)).KeysOnce := by
    refine .table (by rw [map_fst_toTable]; exact nodup) fun entry hentry => ?_
    obtain ⟨item, hitem, heq⟩ := exists_of_mem_toTable hentry
    exact heq ▸ ih _ hitem
  induction h with
  | value h => exact hP _ h
  | table nodup _ ih =>
      rw [toValue]
      exact htable nodup ih
  | tables nodup _ ih =>
      rw [toValue, toTables_eq_map]
      refine .tables fun row hrow => ?_
      obtain ⟨entries, hentries, rfl⟩ := List.mem_map.mp hrow
      exact htable (nodup entries hentries) (ih entries hentries)

theorem Entries.Holds.keysOnce_toTable {P : Value → Prop} {entries : Entries} (h : Holds P entries)
    (hP : ∀ v, P v → v.KeysOnce) : (Value.table (Item.toTable entries)).KeysOnce :=
  (h.table .header).keysOnce_toValue hP

theorem keysOnce_of_assembleFields {fields : List (List String × String × Value)} {table : Table}
    (hfields : ∀ field ∈ fields, field.2.2.KeysOnce) (h : assembleFields fields = some table) :
    (Value.table table).KeysOnce := by
  obtain ⟨entries, hfold, rfl⟩ := Option.map_eq_some_iff.mp h
  have hentries : Entries.Holds Value.KeysOnce entries :=
    foldlM_induct (fun entries field entries' h hfield hadd => h.addField hfield hadd) hfields
      Entries.holds_nil hfold
  exact hentries.keysOnce_toTable fun _ h => h

/-! ### Values that are read -/

/-- If the value is an integer, it is a signed 64-bit one. -/
def Value.InRange (v : Value) : Prop := ∀ n, v = .integer n → Decimal.fitsInt64 n

theorem fitsInt64_of_integer? {s : List Char} {n : Int} (h : integer? s = some n) : Decimal.fitsInt64 n :=
  (Option.filter_eq_some_iff.mp h).2

/-- A word writes no string, no array and no table. -/
theorem keysOnce_and_inRange_of_ofWord? {s : List Char} {v : Value} (h : Value.ofWord? s = some v) :
    v.KeysOnce ∧ v.InRange := by
  unfold Value.ofWord? at h
  split at h
  · cases h
    exact ⟨.boolean true, fun n heq => by cases heq⟩
  split at h
  · cases h
    exact ⟨.boolean false, fun n heq => by cases heq⟩
  split at h
  · cases h
    exact ⟨.datetime _, fun n heq => by cases heq⟩
  split at h
  · rename_i n hinteger
    cases h
    exact ⟨.integer n, fun n heq => by cases heq; exact fitsInt64_of_integer? hinteger⟩
  · obtain ⟨x, -, rfl⟩ := Option.map_eq_some_iff.mp h
    exact ⟨.float x, fun n heq => by cases heq⟩

theorem keysOnce_and_inRange_of_readWord {cs rest : List Char} {v : Value}
    (h : readWord cs = some (v, rest)) : v.KeysOnce ∧ v.InRange := by
  obtain ⟨w, hword, heq⟩ := Option.map_eq_some_iff.mp h
  cases heq
  exact keysOnce_and_inRange_of_ofWord? hword

/-- With this much fuel, whatever is read has each key once in all its tables. -/
structure ReadsSound (fuel : Nat) : Prop where
  value : ∀ {depth cs v rest}, readValue fuel depth cs = some (v, rest) → v.KeysOnce ∧ v.InRange
  items : ∀ {depth cs items rest}, readItems fuel depth cs = some (items, rest) → ∀ v ∈ items, v.KeysOnce
  firstField : ∀ {depth cs fields rest}, readFirstField fuel depth cs = some (fields, rest) →
    ∀ field ∈ fields, field.2.2.KeysOnce
  fields : ∀ {depth cs fields rest}, readFields fuel depth cs = some (fields, rest) →
    ∀ field ∈ fields, field.2.2.KeysOnce

theorem readsSound_zero : ReadsSound 0 where
  value h := by rw [readValue] at h; cases h
  items h := by rw [readItems] at h; cases h
  firstField h := by rw [readFirstField] at h; cases h
  fields h := by rw [readFields] at h; cases h

namespace ReadsSound

variable {fuel depth : Nat} {cs rest : List Char}

theorem value_succ (hfuel : ReadsSound fuel) {v : Value}
    (h : readValue (fuel + 1) depth cs = some (v, rest)) : v.KeysOnce ∧ v.InRange := by
  rw [readValue.eq_def] at h
  simp only at h
  split at h
  · obtain ⟨⟨s, _⟩, -, heq⟩ := Option.map_eq_some_iff.mp h
    cases heq
    exact ⟨.string s, fun n heq => by cases heq⟩
  · obtain ⟨⟨s, _⟩, -, heq⟩ := Option.map_eq_some_iff.mp h
    cases heq
    exact ⟨.string s, fun n heq => by cases heq⟩
  · split at h
    · obtain ⟨⟨items, _⟩, hitems, heq⟩ := Option.map_eq_some_iff.mp h
      cases heq
      exact ⟨.array (hfuel.items hitems), fun n heq => by cases heq⟩
    · cases h
  · split at h
    · obtain ⟨⟨fields, _⟩, hfields, h⟩ := Option.bind_eq_some_iff.mp h
      obtain ⟨table, htable, heq⟩ := Option.bind_eq_some_iff.mp h
      cases heq
      exact ⟨keysOnce_of_assembleFields (hfuel.firstField hfields) htable, fun n heq => by cases heq⟩
    · cases h
  · exact keysOnce_and_inRange_of_readWord h

theorem items_succ (hfuel : ReadsSound fuel) {items : List Value}
    (h : readItems (fuel + 1) depth cs = some (items, rest)) : ∀ v ∈ items, v.KeysOnce := by
  rw [readItems] at h
  obtain ⟨text, -, h⟩ := Option.bind_eq_some_iff.mp h
  split at h
  · cases h
    exact fun v hv => absurd hv List.not_mem_nil
  · obtain ⟨⟨v, _⟩, hvalue, h⟩ := Option.bind_eq_some_iff.mp h
    obtain ⟨text, -, h⟩ := Option.bind_eq_some_iff.mp h
    have hv := (hfuel.value hvalue).1
    split at h
    · obtain ⟨⟨more, _⟩, hmore, h⟩ := Option.bind_eq_some_iff.mp h
      cases h
      exact List.forall_mem_cons.mpr ⟨hv, hfuel.items hmore⟩
    · obtain ⟨_, -, h⟩ := Option.bind_eq_some_iff.mp h
      cases h
      exact List.forall_mem_singleton.mpr hv

theorem firstField_succ (hfuel : ReadsSound fuel) {fields : List (List String × String × Value)}
    (h : readFirstField (fuel + 1) depth cs = some (fields, rest)) :
    ∀ field ∈ fields, field.2.2.KeysOnce := by
  rw [readFirstField.eq_def] at h
  simp only at h
  split at h
  · cases h
    exact fun field hfield => absurd hfield List.not_mem_nil
  · exact hfuel.fields h

theorem fields_succ (hfuel : ReadsSound fuel) {fields : List (List String × String × Value)}
    (h : readFields (fuel + 1) depth cs = some (fields, rest)) :
    ∀ field ∈ fields, field.2.2.KeysOnce := by
  rw [readFields] at h
  obtain ⟨⟨⟨path, key⟩, _⟩, -, h⟩ := Option.bind_eq_some_iff.mp h
  obtain ⟨_, -, h⟩ := Option.bind_eq_some_iff.mp h
  obtain ⟨⟨v, _⟩, hvalue, h⟩ := Option.bind_eq_some_iff.mp h
  have hv := (hfuel.value hvalue).1
  dsimp only at h
  split at h
  · obtain ⟨⟨more, _⟩, hmore, h⟩ := Option.bind_eq_some_iff.mp h
    cases h
    exact List.forall_mem_cons.mpr ⟨hv, hfuel.fields hmore⟩
  · obtain ⟨_, -, h⟩ := Option.bind_eq_some_iff.mp h
    cases h
    exact List.forall_mem_singleton.mpr hv

end ReadsSound

/-- The four readers call each other with one less of fuel, so all are followed at once. -/
theorem readsSound (fuel : Nat) : ReadsSound fuel := by
  induction fuel with
  | zero => exact readsSound_zero
  | succ fuel ih => exact ⟨ih.value_succ, ih.items_succ, ih.firstField_succ, ih.fields_succ⟩

theorem holds_of_readStatement {cs rest : List Char} {statement : Statement}
    (h : readStatement cs = some (statement, rest)) :
    statement.Holds fun v => v.KeysOnce ∧ v.InRange := by
  rintro path key v rfl
  unfold readStatement at h
  split at h
  · obtain ⟨_, -, h⟩ := Option.bind_eq_some_iff.mp h
    obtain ⟨_, -, h⟩ := Option.bind_eq_some_iff.mp h
    obtain ⟨_, -, h⟩ := Option.bind_eq_some_iff.mp h
    obtain ⟨_, -, h⟩ := Option.bind_eq_some_iff.mp h
    cases h
  · obtain ⟨_, -, h⟩ := Option.bind_eq_some_iff.mp h
    obtain ⟨_, -, h⟩ := Option.bind_eq_some_iff.mp h
    obtain ⟨_, -, h⟩ := Option.bind_eq_some_iff.mp h
    cases h
  · obtain ⟨_, -, h⟩ := Option.bind_eq_some_iff.mp h
    obtain ⟨_, -, h⟩ := Option.bind_eq_some_iff.mp h
    obtain ⟨_, hvalue, h⟩ := Option.bind_eq_some_iff.mp h
    obtain ⟨_, -, h⟩ := Option.bind_eq_some_iff.mp h
    cases h
    exact (readsSound _).value hvalue

theorem holds_of_readStatements {fuel : Nat} {cs : List Char} {statements : List Statement}
    (h : readStatements fuel cs = some statements) :
    ∀ statement ∈ statements, statement.Holds fun v => v.KeysOnce ∧ v.InRange := by
  induction fuel generalizing cs statements with
  | zero => cases h
  | succ fuel ih =>
      obtain ⟨text, -, h⟩ := Option.bind_eq_some_iff.mp h
      cases text with
      | nil =>
          cases h
          exact fun _ hmem => absurd hmem List.not_mem_nil
      | cons c text =>
          obtain ⟨⟨statement, rest⟩, hread, h⟩ := Option.bind_eq_some_iff.mp h
          obtain ⟨more, hmore, h⟩ := Option.bind_eq_some_iff.mp h
          cases h
          exact List.forall_mem_cons.mpr ⟨holds_of_readStatement hread, ih hmore⟩

theorem exists_holds_of_parse? {text : String} {table : Table} (h : parse? text = some table) :
    ∃ entries, Entries.Holds (fun v => v.KeysOnce ∧ v.InRange) entries ∧ Item.toTable entries = table := by
  obtain ⟨statements, hread, hassemble⟩ := Option.bind_eq_some_iff.mp h
  exact exists_holds_of_assemble (holds_of_readStatements hread) hassemble

/-- A table that was read has each key once, at every depth. -/
theorem keysOnce_of_parse? {text : String} {table : Table} (h : parse? text = some table) :
    (Value.table table).KeysOnce := by
  obtain ⟨entries, hentries, rfl⟩ := exists_holds_of_parse? h
  exact hentries.keysOnce_toTable fun _ h => h.1

/-- A table that was read has each key once, and its integers have 64 bits. -/
theorem nodup_and_inRange_of_parse? {text : String} {table : Table} (h : parse? text = some table) :
    (table.map Prod.fst).Nodup ∧ ∀ key v, (key, v) ∈ table → v.InRange := by
  obtain ⟨entries, hentries, rfl⟩ := exists_holds_of_parse? h
  refine ⟨by rw [map_fst_toTable]; exact hentries.nodup, fun key v hmem => ?_⟩
  obtain ⟨item, hitem, rfl⟩ := exists_of_mem_toTable hmem
  cases hentries.items _ hitem with
  | value h => exact h.2
  | table => exact fun n heq => by cases heq
  | tables => exact fun n heq => by cases heq

end TreeWalk.Toml
