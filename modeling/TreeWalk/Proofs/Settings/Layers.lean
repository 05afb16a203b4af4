import TreeWalk.Proofs.Except
import TreeWalk.Proofs.Toml.Fields
import TreeWalk.Proofs.Toml.Table
import TreeWalk.Settings.Load

/-!
Layers of settings. A settings file says what its entries give to the four settings, and it says nothing at
all unless it can be read, holds no other key and every value is of its type. The environment says what
its values can be read as. Loading succeeds exactly if all three sources say something and the separator
that comes out is not empty, and then each setting comes from the highest layer that sets it.
-/

namespace TreeWalk

open Toml (Value Mismatch Gives gives_none_iff gives_some_iff gives_iff_rel asString_eq_ok_iff
  lookup_eq_none_of_not_mem lookup_cons_eq_ite)

/-- A number that is not negative and has 64 bits with a sign is the word with this number. -/
theorem ofNat_toNat_eq_iff {n : Int} (hpos : 0 ≤ n) (hn : n ≤ Double.greatestInt64) {width : UInt64} :
    UInt64.ofNat n.toNat = width ↔ n = width.toNat := by
  have hlt : n.toNat < UInt64.size := by
    simp only [Double.greatestInt64, UInt64.size] at *
    omega
  rw [← UInt64.toNat_inj, UInt64.toNat_ofNat_of_lt' hlt]
  omega

/-! ### Files -/

namespace Layer

/-- A value that holds nothing. -/
inductive IsEmptyValue : Value → Prop where
  | table : IsEmptyValue (.table [])
  | array : IsEmptyValue (.array [])
  | tables : IsEmptyValue (.tables [])

/-- A value that names an order: by a string, or by the only key of a table that holds nothing else. -/
inductive NamesOrder : Value → Order → Prop where
  | string (order : Order) : NamesOrder (.string order.name) order
  | key (order : Order) {v : Value} (h : IsEmptyValue v) : NamesOrder (.table [(order.name, v)]) order

/-- What the table of a settings file says. Its keys are among the four names, the values under them are of
the right types, and the layer has the values that are there. -/
structure Says (table : Toml.Table) (layer : Layer) : Prop where
  known : ∀ entry ∈ table, entry.1 ∈ fieldNames
  order : Option.Rel NamesOrder (table.lookup "order") layer.order
  indent : Option.Rel (fun v indent => v = .boolean indent) (table.lookup "indent") layer.indent
  indentWidth : Option.Rel (fun v width => v = .integer width.toNat) (table.lookup "indent_width")
    layer.indentWidth
  separator : Option.Rel (fun v text => v = .string text) (table.lookup "separator") layer.separator

theorem ofName?_eq_some_iff {name : String} {order : Order} :
    Order.ofName? name = some order ↔ name = order.name := by
  constructor
  · intro h
    unfold Order.ofName? at h
    split at h <;> cases h <;> rfl
  · rintro rfl
    exact order.ofName?_name

theorem readOrderName_eq_ok_iff {name : String} {order : Order} :
    readOrderName name = .ok order ↔ name = order.name := by
  rw [readOrderName, ← ofName?_eq_some_iff]
  cases Order.ofName? name <;> simp

theorem checkEmpty_eq_ok_iff {v : Value} : checkEmpty v = .ok () ↔ IsEmptyValue v := by
  constructor
  · intro h
    unfold checkEmpty at h
    split at h
    · exact .table
    · exact .array
    · exact .tables
    all_goals cases h
  · rintro (_ | _ | _) <;> rfl

theorem readOrder_eq_ok_iff {v : Value} {order : Order} : readOrder v = .ok order ↔ NamesOrder v order := by
  constructor
  · intro h
    unfold readOrder at h
    split at h
    · obtain rfl := readOrderName_eq_ok_iff.mp h
      exact .string order
    · obtain ⟨found, hname, h⟩ := bind_eq_ok_iff.mp h
      obtain ⟨_, hempty, h⟩ := bind_eq_ok_iff.mp h
      cases h
      obtain rfl := readOrderName_eq_ok_iff.mp hname
      exact .key order (checkEmpty_eq_ok_iff.mp hempty)
    · cases h
    · cases h
  · intro h
    cases h with
    | string => exact readOrderName_eq_ok_iff.mpr rfl
    | key _ hempty =>
        rw [readOrder, readOrderName_eq_ok_iff.mpr rfl, checkEmpty_eq_ok_iff.mpr hempty]
        rfl

theorem readBool_eq_ok_iff {v : Value} {indent : Bool} : readBool v = .ok indent ↔ v = .boolean indent := by
  cases v <;> simp [readBool]

theorem readWidth_eq_ok_iff {v : Value} (hv : v.InRange) {width : UInt64} :
    readWidth v = .ok width ↔ v = .integer width.toNat := by
  cases v with
  | integer n =>
      have hn : n ≤ Double.greatestInt64 := by
        have hfits := hv n rfl
        simp only [Decimal.fitsInt64, Bool.and_eq_true, decide_eq_true_eq] at hfits
        exact hfits.2
      rw [readWidth, Value.integer.injEq]
      split
      · rename_i hpos
        rw [Except.ok.injEq, ofNat_toNat_eq_iff hpos hn]
      · simp
        omega
  | _ => simp [readWidth]

/-- What the entries that are left make of a layer. -/
def SaysOver (before : Layer) (table : Toml.Table) (layer : Layer) : Prop :=
  (∀ entry ∈ table, entry.1 ∈ fieldNames) ∧
  Gives NamesOrder before.order (table.lookup "order") layer.order ∧
  Gives (fun v indent => v = .boolean indent) before.indent (table.lookup "indent") layer.indent ∧
  Gives (fun v width => v = .integer width.toNat) before.indentWidth (table.lookup "indent_width")
    layer.indentWidth ∧
  Gives (fun v text => v = .string text) before.separator (table.lookup "separator") layer.separator

/-- An entry that sets a field: the field has the value that the entry gives, since no entry behind it has its
key, and the other fields are left to those entries. -/
theorem readEntries_cons_eq_ok_iff {key : String} {v : Value} {table : Toml.Table} {layer : Layer}
    (hkey : key ∈ fieldNames) (hv : v.InRange) (habsent : table.lookup key = none)
    (hrest : ∀ before, readEntries before table = .ok layer ↔ SaysOver before table layer) (before : Layer) :
    readEntries before ((key, v) :: table) = .ok layer ↔ SaysOver before ((key, v) :: table) layer := by
  simp only [fieldNames, List.mem_cons, List.not_mem_nil, or_false] at hkey
  rcases hkey with rfl | rfl | rfl | rfl
  all_goals
    simp only [readEntries, String.reduceEq, if_true, if_false, bind_eq_ok_iff, readOrder_eq_ok_iff,
      readBool_eq_ok_iff, readWidth_eq_ok_iff hv, asString_eq_ok_iff, hrest]
    simp [SaysOver, lookup_cons_eq_ite, habsent, gives_none_iff, gives_some_iff, fieldNames]
    grind

theorem readEntries_eq_ok_iff_saysOver {table : Toml.Table} (hkeys : (table.map Prod.fst).Nodup)
    (hrange : ∀ key v, (key, v) ∈ table → v.InRange) (before layer : Layer) :
    readEntries before table = .ok layer ↔ SaysOver before table layer := by
  induction table generalizing before with
  | nil =>
      simp only [readEntries, SaysOver, List.lookup_nil, gives_none_iff, Except.ok.injEq]
      cases before
      cases layer
      simp [eq_comm]
  | cons entry table ih =>
      obtain ⟨key, v⟩ := entry
      rw [List.map_cons, List.nodup_cons] at hkeys
      have hrest := ih hkeys.2 fun key' v' h => hrange key' v' (List.mem_cons_of_mem _ h)
      have habsent := lookup_eq_none_of_not_mem hkeys.1
      by_cases hkey : key ∈ fieldNames
      · exact readEntries_cons_eq_ok_iff hkey (hrange key v List.mem_cons_self) habsent hrest before
      · have hunknown : readEntries before ((key, v) :: table) = .error (.unknownField key fieldNames) := by
          simp only [fieldNames, List.mem_cons, List.not_mem_nil, or_false, not_or] at hkey
          simp [readEntries, hkey]
        simp [hunknown, SaysOver, hkey]

/-- A table is taken in as the layer that it says. -/
theorem readEntries_eq_ok_iff {table : Toml.Table} (hkeys : (table.map Prod.fst).Nodup)
    (hrange : ∀ key v, (key, v) ∈ table → v.InRange) {layer : Layer} :
    readEntries {} table = .ok layer ↔ Says table layer := by
  rw [readEntries_eq_ok_iff_saysOver hkeys hrange]
  simp only [SaysOver, gives_iff_rel]
  constructor
  · rintro ⟨hknown, horder, hindent, hwidth, hseparator⟩
    exact ⟨hknown, horder, hindent, hwidth, hseparator⟩
  · intro h
    exact ⟨h.known, h.order, h.indent, h.indentWidth, h.separator⟩

theorem parse_eq_ok_iff {content : String} {layer : Layer} :
    parse content = .ok layer ↔ ∃ table, Toml.parse? content = some table ∧ Says table layer := by
  rw [parse]
  cases hparse : Toml.parse? content with
  | none => simp
  | some table =>
      obtain ⟨hkeys, hrange⟩ := Toml.nodup_and_inRange_of_parse? hparse
      simp only [Option.some.injEq, exists_eq_left', ← readEntries_eq_ok_iff hkeys hrange]
      exact mapError_eq_ok_iff

end Layer

namespace Settings

/-- What a settings file says: nothing if it is not named or not there; else what its table says, if it can
be read and is TOML. -/
inductive FileSays (disk : Disk) : Option String → Layer → Prop where
  | unnamed : FileSays disk none {}
  | absent {path : String} (h : disk.contains path = false) : FileSays disk (some path) {}
  | present {path content : String} {table : Toml.Table} {layer : Layer} (hfound : disk.contains path = true)
      (hread : disk.read path = .ok content) (hparse : Toml.parse? content = some table)
      (hlayer : Layer.Says table layer) : FileSays disk (some path) layer

theorem fileLayer_eq_ok_iff {disk : Disk} {path : String} {layer : Layer} :
    fileLayer disk path = .ok layer ↔ FileSays disk (some path) layer := by
  rw [fileLayer]
  constructor
  · intro h
    split at h
    · rename_i hfound
      split at h
      · cases h
      · rename_i content hread
        obtain ⟨table, htable, hlayer⟩ := Layer.parse_eq_ok_iff.mp (mapError_eq_ok_iff.mp h)
        exact .present hfound hread htable hlayer
    · rename_i hfound
      cases h
      exact .absent (by simpa using hfound)
  · intro h
    cases h with
    | absent hfound => simp [hfound]
    | present hfound hread hparse hlayer =>
        rw [if_pos hfound, hread]
        simp only [Layer.parse_eq_ok_iff.mpr ⟨_, hparse, hlayer⟩]
        rfl

theorem fileLayer?_eq_ok_iff {disk : Disk} {path : Option String} {layer : Layer} :
    fileLayer? disk path = .ok layer ↔ FileSays disk path layer := by
  cases path with
  | some path => exact fileLayer_eq_ok_iff
  | none =>
      constructor
      · intro h
        cases h
        exact .unnamed
      · rintro ⟨⟩
        rfl

end Settings

/-! ### The environment -/

namespace EnvValue

theorem fitsInt64_of_ofText {text : String} {n : Int} (h : ofText text = .integer n) : Decimal.fitsInt64 n := by
  simp only [ofText] at h
  split at h
  · cases h
  split at h
  · cases h
  split at h
  · rename_i hinteger
    cases h
    exact (Option.filter_eq_some_iff.mp hinteger).2
  · split at h <;> cases h

end EnvValue

namespace Environment

theorem snd_splitKey (key : List Char) (v : EnvValue) :
    (splitKey key v).2 = .map ∨ (splitKey key v).2 = .sequence ∨ (splitKey key v).2 = v := by
  simp only [splitKey]
  split
  · exact Or.inr (Or.inr rfl)
  split
  · exact Or.inr (Or.inr rfl)
  · exact Or.inl rfl
  · exact Or.inr (Or.inl rfl)

/-- The value of a key is one that a text looks like, or what a longer key makes of it. -/
theorem setting?_cases {env : Environment} {key : String} {v : EnvValue} (h : env.setting? key = some v) :
    v = .map ∨ v = .sequence ∨ ∃ text, v = .ofText text := by
  obtain ⟨⟨name, value⟩, -, h⟩ := List.exists_of_findSome?_eq_some h
  obtain ⟨⟨k, w⟩, hbinding, h⟩ := Option.bind_eq_some_iff.mp h
  simp only at h
  split at h
  · cases h
    simp only [binding?] at hbinding
    split at hbinding
    · obtain heq := Option.some.inj hbinding
      have hvalue := snd_splitKey ((Text.lower name).toList.drop variableStart.length) (.ofText value)
      rw [heq] at hvalue
      exact hvalue.imp_right (Or.imp_right fun htext => ⟨value, htext⟩)
    · cases hbinding
  · cases h

theorem toInt_le {env : Environment} {key key' : String} {v : EnvValue} {n : Int}
    (hsetting : env.setting? key = some v) (h : v.toInt key' = .ok n) : n ≤ Double.greatestInt64 := by
  unfold EnvValue.toInt at h
  split at h
  · cases h
    simp only [Double.greatestInt64]
    split <;> omega
  · cases h
    rcases setting?_cases hsetting with heq | heq | ⟨text, heq⟩
    · cases heq
    · cases heq
    · have hfits := EnvValue.fitsInt64_of_ofText heq.symm
      simp only [Decimal.fitsInt64, Bool.and_eq_true, decide_eq_true_eq] at hfits
      exact hfits.2
  · cases h
    rename_i x
    cases x with
    | finite negative mantissa exponent =>
        simp only [Double.toInt64, Double.leastInt64, Double.greatestInt64]
        omega
    | infinity negative =>
        simp only [Double.toInt64, Double.leastInt64, Double.greatestInt64]
        split <;> omega
    | nan => decide
  · simp only at h
    split at h
    · cases h
      decide
    split at h
    · cases h
      decide
    · cases h
  · cases h
  · cases h

/-- What the environment says. An order and a separator are set by what is a text or can be made one, and
every value under the two other keys counts. -/
structure Sets (env : Environment) (layer : Layer) : Prop where
  order : Option.Rel (fun text order => Order.parse text = .ok order)
    ((env.setting? "order").bind EnvValue.toText?) layer.order
  indent : Option.Rel (fun v indent => v.toBool "indent" = .ok indent) (env.setting? "indent") layer.indent
  indentWidth : Option.Rel (fun v width => v.toInt "indent_width" = .ok (width.toNat : Int))
    (env.setting? "indent_width") layer.indentWidth
  separator : layer.separator = ((env.setting? "separator").bind EnvValue.toText?).map unescape

variable {env : Environment}

theorem order?_eq_ok_iff {order : Option Order} :
    env.order? = .ok order ↔ Option.Rel (fun text order => Order.parse text = .ok order)
      ((env.setting? "order").bind EnvValue.toText?) order := by
  rw [order?]
  cases (env.setting? "order").bind EnvValue.toText? with
  | none => cases order <;> simp
  | some text => cases hparse : Order.parse text <;> cases order <;> simp [hparse]

theorem indent?_eq_ok_iff {indent : Option Bool} :
    env.indent? = .ok indent ↔
      Option.Rel (fun v indent => v.toBool "indent" = .ok indent) (env.setting? "indent") indent := by
  rw [indent?]
  cases env.setting? "indent" with
  | none => cases indent <;> simp
  | some v => cases hbool : v.toBool "indent" <;> cases indent <;> simp [hbool, Except.map]

theorem indentWidth?_eq_ok_iff {width : Option UInt64} :
    env.indentWidth? = .ok width ↔
      Option.Rel (fun v width => v.toInt "indent_width" = .ok (width.toNat : Int))
        (env.setting? "indent_width") width := by
  rw [indentWidth?]
  cases hsetting : env.setting? "indent_width" with
  | none => cases width <;> simp
  | some v =>
      cases hint : v.toInt "indent_width" with
      | error e => cases width <;> simp [hint]
      | ok n =>
          have hn := toInt_le hsetting hint
          by_cases hpos : 0 ≤ n
          · cases width <;> simp [hint, hpos, ofNat_toNat_eq_iff hpos hn]
          · cases width <;> simp [hint, hpos]
            omega

/-- The layer of the environment is the one that it says. -/
theorem layer_eq_ok_iff {layer : Layer} : env.layer = .ok layer ↔ env.Sets layer := by
  simp only [Environment.layer, bind_eq_ok_iff, order?_eq_ok_iff, indent?_eq_ok_iff, indentWidth?_eq_ok_iff]
  constructor
  · rintro ⟨order, horder, indent, hindent, width, hwidth, heq⟩
    cases heq
    exact ⟨horder, hindent, hwidth, rfl⟩
  · intro h
    refine ⟨layer.order, h.order, layer.indent, h.indent, layer.indentWidth, h.indentWidth, ?_⟩
    rw [separator?, ← h.separator]

end Environment

/-! ### Loading -/

/-- The value that the first of some layers to set it gives to a setting, or else the default. -/
def Layer.firstOf {α : Type} (setting : Layer → Option α) (layers : List Layer) (default : α) : α :=
  (layers.findSome? setting).getD default

namespace Settings

variable {disk : Disk} {env : Environment} {globalPath directory : Option String}

/-- What the three sources say. -/
structure Layered (disk : Disk) (env : Environment) (globalPath directory : Option String)
    (globalLayer localLayer envLayer : Layer) : Prop where
  globalFile : FileSays disk globalPath globalLayer
  localFile : FileSays disk (directory.map localPath) localLayer
  environment : env.Sets envLayer

/-- The settings in which each one comes from the highest layer that sets it. -/
structure Highest (globalLayer localLayer envLayer : Layer) (settings : Settings) : Prop where
  order : settings.order = Layer.firstOf Layer.order [envLayer, localLayer, globalLayer] .pre
  indent : settings.indent = Layer.firstOf Layer.indent [envLayer, localLayer, globalLayer] false
  indentWidth : settings.indentWidth = Layer.firstOf Layer.indentWidth [envLayer, localLayer, globalLayer] 2
  separator : settings.separator = Layer.firstOf Layer.separator [envLayer, localLayer, globalLayer] "\n"

theorem getD_getD_getD {α : Type} (setting : Layer → Option α) (lowest middle highest : Layer) (default : α) :
    (setting highest).getD ((setting middle).getD ((setting lowest).getD default)) =
      Layer.firstOf setting [highest, middle, lowest] default := by
  simp only [Layer.firstOf, List.findSome?]
  cases setting highest <;> cases setting middle <;> cases setting lowest <;> rfl

theorem highest_overlay (globalLayer localLayer envLayer : Layer) :
    Highest globalLayer localLayer envLayer
      ((({} : Settings).overlay globalLayer |>.overlay localLayer).overlay envLayer) where
  order := getD_getD_getD Layer.order _ _ _ _
  indent := getD_getD_getD Layer.indent _ _ _ _
  indentWidth := getD_getD_getD Layer.indentWidth _ _ _ _
  separator := getD_getD_getD Layer.separator _ _ _ _

theorem Highest.unique {globalLayer localLayer envLayer : Layer} {settings settings' : Settings}
    (h : Highest globalLayer localLayer envLayer settings)
    (h' : Highest globalLayer localLayer envLayer settings') : settings = settings' := by
  cases settings
  cases settings'
  simp only [mk.injEq]
  exact ⟨h.order.trans h'.order.symm, h.indent.trans h'.indent.symm, h.indentWidth.trans h'.indentWidth.symm,
    h.separator.trans h'.separator.symm⟩

theorem loadFrom_eq_ok_iff {settings : Settings} :
    loadFrom disk env globalPath directory = .ok settings ↔
      ∃ globalLayer localLayer envLayer, Layered disk env globalPath directory globalLayer localLayer envLayer ∧
        Highest globalLayer localLayer envLayer settings ∧ settings.separator ≠ "" := by
  simp only [loadFrom, bind_eq_ok_iff, fileLayer?_eq_ok_iff, mapError_eq_ok_iff, Environment.layer_eq_ok_iff]
  constructor
  · rintro ⟨globalLayer, hglobal, localLayer, hlocal, envLayer, henv, h⟩
    split at h
    · cases h
    · rename_i hseparator
      cases h
      exact ⟨globalLayer, localLayer, envLayer, ⟨hglobal, hlocal, henv⟩, highest_overlay _ _ _, hseparator⟩
  · rintro ⟨globalLayer, localLayer, envLayer, hlayered, hhighest, hseparator⟩
    obtain rfl := hhighest.unique (highest_overlay globalLayer localLayer envLayer)
    exact ⟨globalLayer, hlayered.globalFile, localLayer, hlayered.localFile, envLayer, hlayered.environment,
      if_neg hseparator⟩

/-- Loading succeeds exactly if both files and the environment say something and the separator that comes
out is not empty, whatever the lower layers say about it, and then each setting comes from the highest
layer that sets it. A source that says nothing right is an error whatever the others say, and where loading
does not succeed it ends with an error. -/
theorem loadFrom_by_layers (disk : Disk) (env : Environment) (globalPath directory : Option String) :
    (∀ settings, loadFrom disk env globalPath directory = .ok settings ↔
      ∃ globalLayer localLayer envLayer, Layered disk env globalPath directory globalLayer localLayer envLayer ∧
        Highest globalLayer localLayer envLayer settings ∧ settings.separator ≠ "") ∧
    (∀ globalLayer localLayer envLayer, Layered disk env globalPath directory globalLayer localLayer envLayer →
      Layer.firstOf Layer.separator [envLayer, localLayer, globalLayer] "\n" ≠ "" →
      ∃ settings, loadFrom disk env globalPath directory = .ok settings) ∧
    ((¬∃ layer, FileSays disk globalPath layer) ∨ (¬∃ layer, FileSays disk (directory.map localPath) layer) ∨
        (¬∃ layer, env.Sets layer) →
      ∃ error, loadFrom disk env globalPath directory = .error error) ∧
    ((∀ settings, loadFrom disk env globalPath directory ≠ .ok settings) →
      ∃ error, loadFrom disk env globalPath directory = .error error) := by
  have hfails : (∀ settings, loadFrom disk env globalPath directory ≠ .ok settings) →
      ∃ error, loadFrom disk env globalPath directory = .error error := by
    intro h
    cases hload : loadFrom disk env globalPath directory with
    | error error => exact ⟨error, rfl⟩
    | ok settings => exact absurd hload (h settings)
  refine ⟨fun settings => loadFrom_eq_ok_iff, fun globalLayer localLayer envLayer hlayered hseparator => ?_,
    fun h => hfails fun settings hload => ?_, hfails⟩
  · have hhighest := highest_overlay globalLayer localLayer envLayer
    refine ⟨_, loadFrom_eq_ok_iff.mpr ⟨globalLayer, localLayer, envLayer, hlayered, hhighest, ?_⟩⟩
    rw [hhighest.separator]
    exact hseparator
  · obtain ⟨globalLayer, localLayer, envLayer, hlayered, -⟩ := loadFrom_eq_ok_iff.mp hload
    rcases h with h | h | h
    · exact h ⟨globalLayer, hlayered.globalFile⟩
    · exact h ⟨localLayer, hlayered.localFile⟩
    · exact h ⟨envLayer, hlayered.environment⟩

end Settings

end TreeWalk
