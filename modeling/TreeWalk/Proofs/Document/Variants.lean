import Mathlib
import TreeWalk.Command.Run
import TreeWalk.Proofs.Document.Description

/-!
Variants of documents. Reordering the keys of tables, anywhere in a document, changes neither whether it
describes a tree nor which one. Keys that no node has and elements behind the third of a child that is an
array may be left out: the outcome is the same, down to the error. So a document succeeds with the tree
that its table describes, and every other text is malformed.
-/

namespace TreeWalk.Document

open Toml (Value Mismatch)

/-! ### Values that say the same -/

/-- Two values can stand for each other, as a string, as a child and as the children of a node. -/
structure Agree (v w : Value) : Prop where
  string : ∀ s, v = .string s ↔ w = .string s
  child : ∀ t, (Slots.ofChild v).Describe t ↔ (Slots.ofChild w).Describe t
  children : ∀ ts, DescribesAll v ts ↔ DescribesAll w ts

theorem Agree.refl (v : Value) : Agree v v := ⟨fun _ => Iff.rfl, fun _ => Iff.rfl, fun _ => Iff.rfl⟩

theorem Agree.trans {u v w : Value} (huv : Agree u v) (hvw : Agree v w) : Agree u w where
  string s := (huv.string s).trans (hvw.string s)
  child t := (huv.child t).trans (hvw.child t)
  children ts := (huv.children ts).trans (hvw.children ts)

theorem rel_agree_refl (v? : Option Value) : Option.Rel Agree v? v? := by
  cases v? with
  | none => exact .none
  | some v => exact .some (.refl v)

theorem Slots.describe_congr {slots slots' : Slots} (hkind : Option.Rel Agree slots.kind slots'.kind)
    (htext : Option.Rel Agree slots.text slots'.text)
    (hchildren : Option.Rel Agree slots.children slots'.children) (t : Tree Symbol) :
    slots.Describe t ↔ slots'.Describe t := by
  have hstring {v? w? : Option Value} (h : Option.Rel Agree v? w?) (s? : Option String) :
      v? = s?.map .string ↔ w? = s?.map .string := by
    cases h with
    | none => rfl
    | some h => cases s? <;> simp [h.string]
  obtain ⟨symbol, ts⟩ := t
  obtain ⟨kind, text, children⟩ := slots
  obtain ⟨kind', text', children'⟩ := slots'
  rw [describe_node_iff, describe_node_iff]
  refine and_congr (hstring hkind (some symbol.kind)) (and_congr (hstring htext symbol.text) ?_)
  cases hchildren with
  | none => rfl
  | some h => exact h.children ts

theorem rel_getElem? {items items' : List Value} (h : List.Forall₂ Agree items items') (i : Nat) :
    Option.Rel Agree items[i]? items'[i]? := by
  induction h generalizing i with
  | nil => exact .none
  | cons hfirst _ ih =>
      cases i with
      | zero => exact .some hfirst
      | succ i => exact ih i

/-- Arrays agree if their elements do. -/
theorem agree_of_elements {v w : Value} {items items' : List Value} (hv : elements? v = some items)
    (hw : elements? w = some items') (h : List.Forall₂ Agree items items') : Agree v w where
  string s := by
    constructor <;> rintro rfl
    · cases hv
    · cases hw
  child t := by
    have hslots {v : Value} {items : List Value} (hv : elements? v = some items) :
        Slots.ofChild v = Slots.ofItems items := by
      cases v <;> simp_all [Slots.ofChild, elements?]
    rw [hslots hv, hslots hw]
    exact Slots.describe_congr (rel_getElem? h 0) (rel_getElem? h 1) (rel_getElem? h 2) t
  children ts := by
    simp only [DescribesAll, hv, hw, Option.some.injEq, exists_eq_left']
    clear hv hw
    induction h generalizing ts with
    | nil => rfl
    | cons hfirst _ ih => simp only [List.forall₂_cons_left_iff, hfirst.child, ih]

/-- Tables agree if their entries do, wherever these stand. -/
theorem agree_of_lookup {table table' : Toml.Table}
    (h : ∀ key, Option.Rel Agree (table.lookup key) (table'.lookup key)) :
    Agree (.table table) (.table table') where
  string s := by simp
  child := Slots.describe_congr (h "kind") (h "text") (h "children")
  children ts := iff_of_false (not_describesAll rfl ts) (not_describesAll rfl ts)

/-! ### Reordering the keys -/

/-- One table, at the top of the value or anywhere in it, has its entries in another order. -/
inductive PermutesKeys : Value → Value → Prop where
  | here {table table' : Toml.Table} (h : table.Perm table') : PermutesKeys (.table table) (.table table')
  | entry (front back : Toml.Table) (key : String) {v v' : Value} (h : PermutesKeys v v') :
      PermutesKeys (.table (front ++ (key, v) :: back)) (.table (front ++ (key, v') :: back))
  | item (front back : List Value) {v v' : Value} (h : PermutesKeys v v') :
      PermutesKeys (.array (front ++ v :: back)) (.array (front ++ v' :: back))
  | row (front back : List Toml.Table) {table table' : Toml.Table}
      (h : PermutesKeys (.table table) (.table table')) :
      PermutesKeys (.tables (front ++ table :: back)) (.tables (front ++ table' :: back))

theorem forall₂_agree_replace (front back : List Value) {v v' : Value} (h : Agree v v') :
    List.Forall₂ Agree (front ++ v :: back) (front ++ v' :: back) := by
  have hsame (items : List Value) : List.Forall₂ Agree items items :=
    List.forall₂_same.mpr fun v _ => .refl v
  exact List.rel_append (hsame front) (.cons h (hsame back))

theorem rel_agree_lookup_replace (front back : Toml.Table) (key name : String) {v v' : Value}
    (h : Agree v v') :
    Option.Rel Agree (List.lookup name (front ++ (key, v) :: back))
      (List.lookup name (front ++ (key, v') :: back)) := by
  induction front with
  | nil =>
      rw [List.nil_append, List.nil_append, Toml.lookup_cons_eq_ite, Toml.lookup_cons_eq_ite]
      split
      · exact .some h
      · exact rel_agree_refl _
  | cons entry front ih =>
      obtain ⟨k, w⟩ := entry
      rw [List.cons_append, List.cons_append, Toml.lookup_cons_eq_ite, Toml.lookup_cons_eq_ite]
      split
      · exact rel_agree_refl _
      · exact ih

theorem forall_mem_replace {α : Type} {P : α → Prop} {front back : List α} {a b : α}
    (h : ∀ x ∈ front ++ a :: back, P x) (hb : P a → P b) : ∀ x ∈ front ++ b :: back, P x := by
  rw [List.forall_mem_append, List.forall_mem_cons] at h ⊢
  exact ⟨h.1, hb h.2.1, h.2.2⟩

theorem PermutesKeys.keysOnce {v w : Value} (h : PermutesKeys v w) (hv : v.KeysOnce) : w.KeysOnce := by
  induction h with
  | here h =>
      cases hv with
      | table nodup values =>
          exact .table ((h.map Prod.fst).nodup_iff.mp nodup)
            fun entry hentry => values entry (h.mem_iff.mpr hentry)
  | entry front back key _ ih =>
      cases hv with
      | table nodup values => exact .table (by simpa using nodup) (forall_mem_replace values ih)
  | item front back _ ih =>
      cases hv with
      | array values => exact .array (forall_mem_replace values ih)
  | row front back _ ih =>
      cases hv with
      | tables tables => exact .tables (forall_mem_replace tables ih)

theorem PermutesKeys.agree {v w : Value} (h : PermutesKeys v w) (hv : v.KeysOnce) : Agree v w := by
  induction h with
  | here h =>
      cases hv with
      | table nodup _ =>
          refine agree_of_lookup fun key => ?_
          rw [Toml.lookup_eq_of_perm nodup h key]
          exact rel_agree_refl _
  | entry front back key _ ih =>
      cases hv with
      | table _ values =>
          have hv := values _ (List.mem_append_right front List.mem_cons_self)
          exact agree_of_lookup fun name => rel_agree_lookup_replace front back key name (ih hv)
  | item front back _ ih =>
      cases hv with
      | array values =>
          have hv := values _ (List.mem_append_right front List.mem_cons_self)
          exact agree_of_elements rfl rfl (forall₂_agree_replace front back (ih hv))
  | row front back _ ih =>
      cases hv with
      | tables tables =>
          have hrow := tables _ (List.mem_append_right front List.mem_cons_self)
          refine agree_of_elements rfl rfl ?_
          rw [List.map_append, List.map_append]
          exact forall₂_agree_replace _ _ (ih hrow)

theorem agree_of_reordered {v w : Value} (h : Relation.ReflTransGen PermutesKeys v w) (hv : v.KeysOnce) :
    Agree v w ∧ w.KeysOnce := by
  induction h with
  | refl => exact ⟨.refl v, hv⟩
  | tail _ hstep ih => exact ⟨ih.1.trans (hstep.agree ih.2), hstep.keysOnce ih.2⟩

/-! ### Leaving out what no node has -/

mutual

/-- A child without what no node has. -/
def stripChild : Value → Value
  | .table entries => .table (stripTable entries)
  | .array items => .array (stripPositions items)
  | v => v

/-- Other keys are left out. -/
def stripTable : List (String × Value) → List (String × Value)
  | [] => []
  | (key, v) :: rest =>
      if key = "kind" ∨ key = "text" then (key, v) :: stripTable rest
      else if key = "children" then (key, stripChildren v) :: stripTable rest
      else stripTable rest

/-- Elements behind the third are left out. -/
def stripPositions : List Value → List Value
  | kind :: text :: children :: _ => [kind, text, stripChildren children]
  | items => items

/-- The children of a node, each without what no node has. -/
def stripChildren : Value → Value
  | .array items => .array (stripItems items)
  | .tables rows => .tables (stripRows rows)
  | v => v

def stripItems : List Value → List Value
  | [] => []
  | item :: rest => stripChild item :: stripItems rest

def stripRows : List (List (String × Value)) → List (List (String × Value))
  | [] => []
  | row :: rest => stripTable row :: stripRows rest

end

mutual

theorem readChild_stripChild : ∀ (v : Value) (A : Arena), readChild A (stripChild v) = readChild A v
  | .table entries, A => by rw [stripChild, readChild, readChild, readFields_stripTable entries]
  | .array items, A => by rw [stripChild, readChild, readChild, readPositions_stripPositions items]
  | .tables _, _ | .string _, _ | .integer _, _ | .float _, _ | .boolean _, _ | .datetime _, _ => rfl

theorem readFields_stripTable : ∀ (entries : List (String × Value)) {A : Arena} (fields : Fields A),
    readFields fields (stripTable entries) = readFields fields entries
  | [], _, _ => by rw [stripTable]
  | (key, v) :: rest, A, fields => by
      have ih (fields : Fields A) := readFields_stripTable rest fields
      rw [stripTable]
      split
      · rw [readFields, readFields]
        simp only [ih]
      split
      · rename_i hkey
        subst hkey
        simp [readFields, ih, readChildren_stripChildren v]
      · simp_all [readFields]

theorem readPositions_stripPositions : ∀ (items : List Value) (A : Arena),
    readPositions A (stripPositions items) = readPositions A items
  | [], _ | [_], _ | [_, _], _ => rfl
  | kind :: text :: children :: _, A => by
      rw [stripPositions, readPositions, readPositions]
      simp only [readChildren_stripChildren children]

theorem readChildren_stripChildren : ∀ (v : Value) (A : Arena),
    readChildren A (stripChildren v) = readChildren A v
  | .array items, A => by rw [stripChildren, readChildren, readChildren, readItems_stripItems items]
  | .tables rows, A => by rw [stripChildren, readChildren, readChildren, readRows_stripRows rows]
  | .table _, _ | .string _, _ | .integer _, _ | .float _, _ | .boolean _, _ | .datetime _, _ => rfl

theorem readItems_stripItems : ∀ (items : List Value) (A : Arena),
    readItems A (stripItems items) = readItems A items
  | [], _ => by rw [stripItems]
  | item :: rest, A => by
      rw [stripItems, readItems, readItems, readChild_stripChild item]
      simp only [readItems_stripItems rest]

theorem readRows_stripRows : ∀ (rows : List (List (String × Value))) (A : Arena),
    readRows A (stripRows rows) = readRows A rows
  | [], _ => by rw [stripRows]
  | row :: rest, A => by
      rw [stripRows, readRows, readRows, readFields_stripTable row]
      simp only [readRows_stripRows rest]

end

theorem readTable_stripTable (table : Toml.Table) (A : Arena) :
    readTable A (stripTable table) = readTable A table := by
  rw [readTable, readTable, readFields_stripTable]

/-! ### Documents -/

theorem parseFrom_eq_mapError (origin content : String) :
    parseFrom origin content = (parse content).mapError fun error => .malformed origin error.message := by
  rw [parseFrom, decodeFrom, parse]
  cases decode content <;> rfl

theorem parseFrom_eq_ok_iff {origin content : String} {t : Tree Symbol} :
    parseFrom origin content = .ok t ↔
      ∃ table, Toml.parse? content = some table ∧ (Slots.ofTable table).Describe t := by
  rw [parseFrom_eq_mapError, mapError_eq_ok_iff, parse_eq_ok_iff]

/-- A text gives a tree exactly if it is TOML and its table describes the tree; otherwise it is malformed,
and the failure names its origin. Leaving out other keys and surplus elements changes nothing, and
reordering keys changes neither success nor the tree. -/
theorem parseFrom_by_description (origin content : String) :
    (∀ t, parseFrom origin content = .ok t ↔
      ∃ table, Toml.parse? content = some table ∧ (Slots.ofTable table).Describe t) ∧
    ((∀ table t, Toml.parse? content = some table → ¬(Slots.ofTable table).Describe t) →
      ∃ text, parseFrom origin content = .error (.malformed origin text)) ∧
    ∀ table content' table', Toml.parse? content = some table → Toml.parse? content' = some table' →
      (stripTable table = stripTable table' → parseFrom origin content = parseFrom origin content') ∧
      (Relation.ReflTransGen PermutesKeys (.table table) (.table table') →
        ∀ t, parseFrom origin content = .ok t ↔ parseFrom origin content' = .ok t) := by
  refine ⟨fun t => parseFrom_eq_ok_iff, fun hnone => ?_, fun table content' table' h h' => ⟨?_, ?_⟩⟩
  · cases hparse : parse content with
    | error error => exact ⟨error.message, by rw [parseFrom_eq_mapError, hparse]; rfl⟩
    | ok t =>
        have hok : parseFrom origin content = .ok t := by rw [parseFrom_eq_mapError, hparse]; rfl
        obtain ⟨table, htable, hdescribe⟩ := parseFrom_eq_ok_iff.mp hok
        exact absurd hdescribe (hnone table t htable)
  · intro hstrip
    have hsame : readTable .empty table = readTable .empty table' := by
      rw [← readTable_stripTable table, hstrip, readTable_stripTable]
    have hdecode : decode content = decode content' := by
      rw [decode, decode, h, h']
      simp only [hsame]
    rw [parseFrom, parseFrom, decodeFrom, decodeFrom, hdecode]
  · intro hreorder t
    have hagree := (agree_of_reordered hreorder (Toml.keysOnce_of_parse? h)).1
    simp only [parseFrom_eq_ok_iff, h, h', Option.some.injEq, exists_eq_left']
    exact hagree.child t

/-- A root with a key that no node has, one child as a table and one as an array of four elements. -/
def mixed : String :=
  "kind = \"a\"\nnote = 1\nchildren = [\x7bkind = \"b\", text = \"x\"\x7d, [\"c\", \"\", [[\"d\"]], 7]]\n"

/-- The same with the keys of the root and of its first child in another order. -/
def reordered : String :=
  "children = [\x7btext = \"x\", kind = \"b\"\x7d, [\"c\", \"\", [[\"d\"]], 7]]\nnote = 1\nkind = \"a\"\n"

/-- The same without the other key and without the fourth element. -/
def stripped : String :=
  "kind = \"a\"\nchildren = [\x7bkind = \"b\", text = \"x\"\x7d, [\"c\", \"\", [[\"d\"]]]]\n"

/-- The table of these documents, by that of the first child. -/
def mixedTable (child : Toml.Table) : Toml.Table :=
  [("kind", .string "a"), ("note", .integer 1), ("children", .array [.table child,
    .array [.string "c", .string "", .array [.array [.string "d"]], .integer 7]])]

/-- The tree that all three describe. -/
def mixedTree : Tree Symbol :=
  .node ⟨"a", none⟩ [.node ⟨"b", some "x"⟩ [], .node ⟨"c", some ""⟩ [.node ⟨"d", none⟩ []]]

theorem parseFrom_by_description_mixed :
    parseFrom "o" mixed = .ok mixedTree ∧ parseFrom "o" reordered = .ok mixedTree ∧
      parseFrom "o" stripped = .ok mixedTree ∧
      ∃ text, parseFrom "o" "children = []" = .error (.malformed "o" text) := by
  have hmixed : Toml.parse? mixed = some (mixedTable [("kind", .string "b"), ("text", .string "x")]) := by cbv
  have hreordered : Toml.parse? reordered =
      some (mixedTable [("text", .string "x"), ("kind", .string "b")]).reverse := by cbv
  have hstripped : Toml.parse? stripped =
      some (stripTable (mixedTable [("kind", .string "b"), ("text", .string "x")])) := by cbv
  obtain ⟨hdescribed, -, hvariant⟩ := parseFrom_by_description "o" mixed
  have hok : parseFrom "o" mixed = .ok mixedTree := by
    refine (hdescribed mixedTree).mpr ⟨_, hmixed, .node rfl rfl rfl ?_⟩
    exact .cons (.node rfl rfl rfl .nil)
      (.cons (.node rfl rfl rfl (.cons (.node rfl rfl rfl .nil) .nil)) .nil)
  refine ⟨hok, ?_, ?_, (parseFrom_by_description "o" "children = []").2.1 ?_⟩
  · have hchild : PermutesKeys (.table (mixedTable [("kind", .string "b"), ("text", .string "x")]))
        (.table (mixedTable [("text", .string "x"), ("kind", .string "b")])) :=
      .entry [_, _] [] "children" (.item [] [_] (.here (.swap _ _ [])))
    have hroot := PermutesKeys.here
      (List.reverse_perm (mixedTable [("text", .string "x"), ("kind", .string "b")])).symm
    exact ((hvariant _ _ _ hmixed hreordered).2 (.tail (.single hchild) hroot) mixedTree).mp hok
  · rw [← (hvariant _ _ _ hmixed hstripped).1 (by cbv)]
    exact hok
  · have hbare : Toml.parse? "children = []" = some [("children", .array [])] := by cbv
    intro table t htable
    rw [hbare] at htable
    cases htable
    exact Slots.not_describe_of_kind (fun s h => by cases h) t

end TreeWalk.Document
