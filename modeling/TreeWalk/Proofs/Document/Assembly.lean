import TreeWalk.Proofs.Document.Description
import TreeWalk.Proofs.Tree

/-!
Putting the statements of a tree document together. The header of a node names only its depth, and the
node becomes the last row under the last rows above it. Written in pre-order, these are the nodes on the
way to its parent, so every node lands below its parent and behind its siblings. The table that comes out
describes the tree.
-/

namespace TreeWalk

namespace Toml.Entries

theorem descend_append (change : Entries → Option Entries) (front back : List String)
    (entries : Entries) :
    descend change (front ++ back) entries = descend (descend change back) front entries := by
  induction front generalizing entries with
  | nil => rfl
  | cons part front ih => simp only [List.cons_append, descend, ih]

/-- A table inside another one, at the end of a path: changing what lies there changes nothing else. -/
structure Hole (path : List String) where
  put : Entries → Entries
  descend_put : ∀ change inner, descend change path (put inner) = (change inner).map put

/-- The whole table, at the end of the empty path. -/
def Hole.whole : Hole [] where
  put := id
  descend_put change inner := by simp [descend]

end Toml.Entries

namespace Document

open Toml (Entries Item Statement Draft)
open Toml.Entries (Hole)

/-! ### Tables of nodes -/

/-- The entries that a symbol's lines make. -/
def symbolEntries (symbol : Symbol) : Entries :=
  ("kind", .value (.string symbol.kind)) ::
    symbol.text.toList.map fun text => ("text", .value (.string text))

/-- The entries of a node with the given rows below it; a leaf has no array of rows. -/
def nodeEntries (symbol : Symbol) : List Entries → Entries
  | [] => symbolEntries symbol
  | row :: rows => symbolEntries symbol ++ [("children", .tables (row :: rows))]

theorem nodeEntries_append (symbol : Symbol) (rows : List Entries) (row : Entries) :
    nodeEntries symbol (rows ++ [row]) =
      symbolEntries symbol ++ [("children", .tables (rows ++ [row]))] := by
  cases rows <;> rfl

theorem lookup_children_symbolEntries (symbol : Symbol) :
    (symbolEntries symbol).lookup "children" = none := by
  cases symbol with
  | mk kind text => cases text <;> rfl

theorem replace_children (symbol : Symbol) (old new : Item) :
    Entries.replace "children" new (symbolEntries symbol ++ [("children", old)]) =
      symbolEntries symbol ++ [("children", new)] := by
  cases symbol with
  | mk kind text => cases text <;> rfl

/-- A new row goes behind the others. -/
theorem putRow_nodeEntries {path : List String} (hole : Hole path) (symbol : Symbol)
    (rows : List Entries) (row : Entries) :
    Entries.putRow path "children" row (hole.put (nodeEntries symbol rows)) =
      some (hole.put (nodeEntries symbol (rows ++ [row]))) := by
  rw [Entries.putRow, hole.descend_put, nodeEntries_append]
  cases rows with
  | nil => simp [nodeEntries, lookup_children_symbolEntries]
  | cons first rows =>
      simp [nodeEntries, List.lookup_append, lookup_children_symbolEntries, replace_children]

/-- The last row of a node, one step further down. -/
def lastRow {depth : Nat} (hole : Hole (List.replicate depth "children")) (symbol : Symbol)
    (rows : List Entries) : Hole (List.replicate (depth + 1) "children") where
  put row := hole.put (nodeEntries symbol (rows ++ [row]))
  descend_put change inner := by
    rw [List.replicate_succ', Entries.descend_append, hole.descend_put]
    cases hchange : change inner <;>
      simp [nodeEntries_append, Entries.descend, List.lookup_append, lookup_children_symbolEntries,
        replace_children, hchange]

/-! ### Statements of a tree -/

def symbolStatements (symbol : Symbol) : List Statement :=
  .field [] "kind" (.string symbol.kind) ::
    symbol.text.toList.map fun text => .field [] "text" (.string text)

/-- The statements of a node at a depth. -/
def rowStatements : Nat × Symbol → List Statement
  | (0, symbol) => symbolStatements symbol
  | (depth + 1, symbol) =>
      .row (List.replicate depth "children") "children" :: symbolStatements symbol

mutual

/-- The entries of a tree. -/
def entries : Tree Symbol → Entries
  | .node symbol ts => nodeEntries symbol (entriesAll ts)

def entriesAll : List (Tree Symbol) → List Entries
  | [] => []
  | t :: ts => entries t :: entriesAll ts

end

theorem foldlM_symbolStatements (symbol : Symbol) (finished : Entries) (place : Toml.Place) :
    (symbolStatements symbol).foldlM Draft.add ⟨finished, place, []⟩ =
      some ⟨finished, place, symbolEntries symbol⟩ := by
  cases symbol with
  | mk kind text => cases text <;> rfl

/-- The statements of the trees below a node put their tables behind the node's rows, if those of each
tree do. -/
theorem exists_foldlM_outlineAll (ts : List (Tree Symbol)) {depth : Nat}
    (hole : Hole (List.replicate depth "children")) (symbol : Symbol)
    (step : ∀ t ∈ ts, ∀ rows (draft : Draft), draft.close = some (hole.put (nodeEntries symbol rows)) →
      ∃ after, ((t.outline (depth + 1)).flatMap rowStatements).foldlM Draft.add draft = some after ∧
        after.close = some (hole.put (nodeEntries symbol (rows ++ [entries t]))))
    (rows : List Entries) {draft : Draft}
    (hclose : draft.close = some (hole.put (nodeEntries symbol rows))) :
    ∃ after, ((Tree.outlineAll (depth + 1) ts).flatMap rowStatements).foldlM Draft.add draft = some after ∧
      after.close = some (hole.put (nodeEntries symbol (rows ++ entriesAll ts))) := by
  induction ts generalizing rows draft with
  | nil => exact ⟨draft, rfl, by rwa [entriesAll, List.append_nil]⟩
  | cons t ts ih =>
      obtain ⟨between, hbetween, hclosed⟩ := step t List.mem_cons_self rows draft hclose
      obtain ⟨after, hafter, hall⟩ :=
        ih (fun s hs => step s (List.mem_cons_of_mem t hs)) (rows ++ [entries t]) hclosed
      refine ⟨after, ?_, ?_⟩
      · rw [Tree.outlineAll, List.flatMap_append, List.foldlM_append, hbetween]
        exact hafter
      · rw [hall, entriesAll, List.append_assoc]
        rfl

/-- A node opens a row behind the others, and the trees below it fill this row. -/
theorem exists_foldlM_outline (t : Tree Symbol) {depth : Nat}
    (hole : Hole (List.replicate depth "children")) (symbol : Symbol) (rows : List Entries)
    {draft : Draft} (hclose : draft.close = some (hole.put (nodeEntries symbol rows))) :
    ∃ after, ((t.outline (depth + 1)).flatMap rowStatements).foldlM Draft.add draft = some after ∧
      after.close = some (hole.put (nodeEntries symbol (rows ++ [entries t]))) := by
  induction t using Tree.induct generalizing depth symbol rows draft with
  | node own ts ih =>
      let opened : Draft :=
        ⟨hole.put (nodeEntries symbol rows), .row (List.replicate depth "children") "children",
          symbolEntries own⟩
      have hrow : (rowStatements (depth + 1, own)).foldlM Draft.add draft = some opened := by
        rw [rowStatements, List.foldlM_cons, Draft.add, hclose]
        exact foldlM_symbolStatements own _ _
      have hopened : opened.close = some ((lastRow hole symbol rows).put (nodeEntries own [])) :=
        putRow_nodeEntries hole symbol rows (symbolEntries own)
      obtain ⟨after, hafter, hall⟩ := exists_foldlM_outlineAll ts (lastRow hole symbol rows) own
        (fun t ht below _ => ih t ht (lastRow hole symbol rows) own below) [] hopened
      refine ⟨after, ?_, hall⟩
      rw [Tree.outline, List.flatMap_cons, List.foldlM_append, hrow]
      exact hafter

/-- The statements of a tree describe its table. -/
theorem assemble_outline (t : Tree Symbol) :
    Toml.assemble ((t.outline 0).flatMap rowStatements) = some (Item.toTable (entries t)) := by
  cases t with
  | node symbol ts =>
      let whole : Hole (List.replicate 0 "children") := Hole.whole
      have hopened : Draft.close ⟨[], .root, symbolEntries symbol⟩ =
          some (whole.put (nodeEntries symbol [])) := rfl
      obtain ⟨after, hafter, hall⟩ := exists_foldlM_outlineAll ts whole symbol
        (fun t _ rows _ => exists_foldlM_outline t whole symbol rows) [] hopened
      rw [Tree.outline, List.flatMap_cons, Toml.assemble, List.foldlM_append, Draft.start, rowStatements,
        foldlM_symbolStatements]
      simp only [Option.bind_eq_bind, Option.bind_some, hafter, hall]
      rfl

/-! ### What the table describes -/

theorem ofTable_nodeEntries (symbol : Symbol) (rows : List Entries) :
    Slots.ofTable (Item.toTable (nodeEntries symbol rows)) =
      ⟨some (.string symbol.kind), symbol.text.map .string,
        if rows = [] then none else some (.tables (Item.toTables rows))⟩ := by
  obtain ⟨kind, text⟩ := symbol
  cases rows <;> cases text <;> rfl

theorem forall₂_describe_entriesAll {ts : List (Tree Symbol)}
    (h : ∀ t ∈ ts, (Slots.ofTable (Item.toTable (entries t))).Describe t) :
    List.Forall₂ (fun v t => (Slots.ofChild v).Describe t) ((Item.toTables (entriesAll ts)).map .table) ts := by
  induction ts with
  | nil => exact .nil
  | cons t ts ih =>
      obtain ⟨hhead, htail⟩ := List.forall_mem_cons.mp h
      exact .cons hhead (ih htail)

/-- The table of a tree describes the tree. -/
theorem describe_entries (t : Tree Symbol) : (Slots.ofTable (Item.toTable (entries t))).Describe t := by
  induction t using Tree.induct with
  | node symbol ts ih =>
      rw [entries, ofTable_nodeEntries, Slots.describe_node_iff]
      refine ⟨rfl, rfl, ?_⟩
      cases ts with
      | nil => rfl
      | cons t ts => exact ⟨_, rfl, forall₂_describe_entriesAll ih⟩

end Document

end TreeWalk
