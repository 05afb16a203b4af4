import TreeWalk.Toml.Value

/-!
Putting a TOML document together. A document is a list of statements: headers open a table or a new row
of an array of tables, and fields fill the table opened last. A table may be filled only where it was
opened: a header opens a table once, keys with dots extend only tables that such keys made, and a value
written in one piece is closed.
-/

namespace TreeWalk.Toml

/-- How a table came to be: by a header, on the way to a table that a header opened, or by a key with
dots. -/
inductive Origin where
  | header
  | implied
  | dotted
deriving DecidableEq, Repr

/-- What a key of an unfinished table holds. -/
inductive Item where
  | value (v : Value)
  | table (origin : Origin) (entries : List (String × Item))
  | tables (rows : List (List (String × Item)))

/-- The entries of an unfinished table, in the order in which they were made. -/
abbrev Entries : Type := List (String × Item)

namespace Item

mutual

/-- The finished value. -/
def toValue : Item → Value
  | value v => v
  | table _ entries => .table (toTable entries)
  | tables rows => .tables (toTables rows)

def toTable : List (String × Item) → List (String × Value)
  | [] => []
  | (key, item) :: rest => (key, item.toValue) :: toTable rest

def toTables : List (List (String × Item)) → List (List (String × Value))
  | [] => []
  | row :: rest => toTable row :: toTables rest

end

end Item

namespace Entries

/-- The entries with another item at a key that they hold. -/
def replace (key : String) (item : Item) : Entries → Entries
  | [] => []
  | (k, old) :: rest => if k = key then (k, item) :: rest else (k, old) :: replace key item rest

/-- The entries without a key. -/
def remove (key : String) (entries : Entries) : Entries := entries.filter fun (k, _) => k ≠ key

/-- Adds a field; `path` holds the parts of its key before the last one. -/
def addField (key : String) (v : Value) : List String → Entries → Option Entries
  | [], entries =>
      match entries.lookup key with
      | some _ => none
      | none => some (entries ++ [(key, .value v)])
  | part :: path, entries =>
      match entries.lookup part with
      | none => (addField key v path []).map fun inner => entries ++ [(part, .table .dotted inner)]
      | some (.table origin inner) =>
          if origin = .header || (path.isEmpty && origin ≠ .dotted) then none
          else (addField key v path inner).map fun inner =>
            replace part (.table origin inner) entries
      | some (.tables rows) =>
          match rows.getLast? with
          | none => none
          | some last =>
              if path.isEmpty then none
              else (addField key v path last).map fun last =>
                replace part (.tables (rows.dropLast ++ [last])) entries
      | some (.value _) => none

/-- Changes the table that a header's path leads to, making tables on the way where there are none. An
array of tables stands for its last row. -/
def descend (change : Entries → Option Entries) : List String → Entries → Option Entries
  | [], entries => change entries
  | part :: path, entries =>
      match entries.lookup part with
      | none => (descend change path []).map fun inner => entries ++ [(part, .table .implied inner)]
      | some (.table origin inner) =>
          (descend change path inner).map fun inner => replace part (.table origin inner) entries
      | some (.tables rows) =>
          match rows.getLast? with
          | none => none
          | some last =>
              (descend change path last).map fun last =>
                replace part (.tables (rows.dropLast ++ [last])) entries
      | some (.value _) => none

/-- What the table of a header holds before the header: nothing, or what headers below it made. -/
def opening (key : String) : List String → Entries → Option Entries
  | [], entries =>
      match entries.lookup key with
      | none => some []
      | some (.table .implied inner) => some inner
      | some _ => none
  | part :: path, entries =>
      match entries.lookup part with
      | none => some []
      | some (.table _ inner) => opening key path inner
      | some (.tables rows) =>
          match rows.getLast? with
          | none => none
          | some last => opening key path last
      | some (.value _) => none

/-- Puts a finished table under a header's path and key. -/
def putTable (path : List String) (key : String) (body : Entries) : Entries → Option Entries :=
  descend (fun entries => some (remove key entries ++ [(key, .table .header body)])) path

/-- Puts a finished row behind the rows of an array of tables, which the first row makes. -/
def putRow (path : List String) (key : String) (body : Entries) : Entries → Option Entries :=
  descend (fun entries =>
    match entries.lookup key with
    | none => some (entries ++ [(key, .tables [body])])
    | some (.tables rows) => some (replace key (.tables (rows ++ [body])) entries)
    | some _ => none) path

end Entries

/-- One statement of a document. The path of a key is what stands before its last part. -/
inductive Statement where
  | field (path : List String) (key : String) (v : Value)
  | table (path : List String) (key : String)
  | row (path : List String) (key : String)

/-- Where the table opened last belongs. -/
inductive Place where
  | root
  | table (path : List String) (key : String)
  | row (path : List String) (key : String)

/-- A document under way: what is finished, and the table opened last. -/
structure Draft where
  finished : Entries
  place : Place
  body : Entries

namespace Draft

def start : Draft := ⟨[], .root, []⟩

/-- Puts the open table where it belongs. -/
def close (draft : Draft) : Option Entries :=
  match draft.place with
  | .root => some draft.body
  | .table path key => Entries.putTable path key draft.body draft.finished
  | .row path key => Entries.putRow path key draft.body draft.finished

/-- Takes in one more statement. -/
def add (draft : Draft) : Statement → Option Draft
  | .field path key v => (Entries.addField key v path draft.body).map fun body => { draft with body }
  | .table path key => do
      let finished ← draft.close
      let body ← Entries.opening key path finished
      some ⟨finished, .table path key, body⟩
  | .row path key => do
      let finished ← draft.close
      some ⟨finished, .row path key, []⟩

end Draft

/-- The table that statements describe, if they go together. -/
def assemble (statements : List Statement) : Option Table := do
  let draft ← statements.foldlM Draft.add Draft.start
  let entries ← draft.close
  some (Item.toTable entries)

/-- The table that the fields of an inline table describe. -/
def assembleFields (fields : List (List String × String × Value)) : Option Table :=
  (fields.foldlM (fun entries (path, key, v) => Entries.addField key v path entries) []).map
    Item.toTable

end TreeWalk.Toml
