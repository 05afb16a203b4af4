import TreeWalk.Proofs.Settings.Layers
import TreeWalk.Proofs.Toml.Words

/-!
Settings as a settings file. Whatever the files and the environment say, settings that can be loaded can be
written: their width fits 64 bits with a sign, because neither an integer of a file nor one of the
environment goes beyond that, and a width that nothing sets is 2. The written text, with the end of its
last line trimmed, says each of the four settings, so it loads as the settings it was written for.
-/

namespace TreeWalk

open Toml (Line Value Writes)

/-! ### Widths -/

/-- The layer sets no width that cannot be written. -/
def Layer.Writable (layer : Layer) : Prop := ∀ width ∈ layer.indentWidth, Decimal.fitsInt64 width.toNat

theorem exists_of_rel_some {α β : Type} {r : α → β → Prop} {a? : Option α} {b : β}
    (h : Option.Rel r a? (some b)) : ∃ a, a? = some a ∧ r a b := by
  cases h with
  | some h => exact ⟨_, rfl, h⟩

theorem Settings.FileSays.writable {disk : Disk} {path : Option String} {layer : Layer}
    (h : FileSays disk path layer) : layer.Writable := by
  intro width hwidth
  cases h with
  | unnamed => cases hwidth
  | absent _ => cases hwidth
  | @present _ _ table _ _ _ hparse hlayer =>
      have hrel := hlayer.indentWidth
      rw [Option.mem_def.mp hwidth] at hrel
      obtain ⟨v, hlookup, rfl⟩ := exists_of_rel_some hrel
      obtain ⟨-, hrange⟩ := Toml.nodup_and_inRange_of_parse? hparse
      obtain ⟨front, back, rfl, -⟩ := List.lookup_eq_some_iff.mp hlookup
      exact hrange "indent_width" _ (List.mem_append_right front List.mem_cons_self) _ rfl

theorem Environment.Sets.writable {env : Environment} {layer : Layer} (h : env.Sets layer) :
    layer.Writable := by
  intro width hwidth
  have hrel := h.indentWidth
  rw [Option.mem_def.mp hwidth] at hrel
  obtain ⟨v, hsetting, hint⟩ := exists_of_rel_some hrel
  have hle := toInt_le hsetting hint
  have hleast : Double.leastInt64 ≤ (width.toNat : Int) :=
    Int.le_trans (by decide) (Int.natCast_nonneg width.toNat)
  simp [Decimal.fitsInt64, hleast, hle]

theorem Layer.fitsInt64_firstOf {layers : List Layer} (h : ∀ layer ∈ layers, layer.Writable) {default : UInt64}
    (hdefault : Decimal.fitsInt64 default.toNat) :
    Decimal.fitsInt64 (firstOf Layer.indentWidth layers default).toNat := by
  rw [firstOf]
  cases hfound : layers.findSome? Layer.indentWidth with
  | none => exact hdefault
  | some width =>
      obtain ⟨layer, hlayer, hwidth⟩ := List.exists_of_findSome?_eq_some hfound
      exact h layer hlayer width hwidth

namespace Settings

/-- What all settings that can be loaded have in common. -/
structure Loadable (settings : Settings) : Prop where
  separator_ne : settings.separator ≠ ""
  fitsInt64 : Decimal.fitsInt64 settings.indentWidth.toNat

variable {disk : Disk} {env : Environment} {globalPath directory : Option String} {settings : Settings}

theorem loadable_of_loadFrom (h : loadFrom disk env globalPath directory = .ok settings) :
    settings.Loadable := by
  obtain ⟨globalLayer, localLayer, envLayer, hlayered, hhighest, hseparator⟩ := loadFrom_eq_ok_iff.mp h
  refine ⟨hseparator, ?_⟩
  rw [hhighest.indentWidth]
  refine Layer.fitsInt64_firstOf (fun layer hlayer => ?_) (by decide)
  simp only [List.mem_cons, List.not_mem_nil, or_false] at hlayer
  rcases hlayer with rfl | rfl | rfl
  · exact hlayered.environment.writable
  · exact hlayered.localFile.writable
  · exact hlayered.globalFile.writable

/-! ### The written text -/

/-- The lines of the first three settings. -/
def frontLines (settings : Settings) (h : settings.Loadable) : List Line :=
  [.value "order" (by decide) (Toml.writes_writeString settings.order.name),
    .value "indent" (by decide) (Toml.writes_toString_bool settings.indent),
    .value "indent_width" (by decide) (Toml.writes_toString_nat h.fitsInt64)]

/-- The written settings without the end of the last line. -/
def openText (settings : Settings) (h : settings.Loadable) : List Char :=
  (settings.frontLines h).flatMap Line.text ++
    Toml.openField "separator" (Toml.writeString settings.separator.toList)

theorem toToml_eq_openText (h : settings.Loadable) :
    settings.toToml = .ok (String.ofList (settings.openText h ++ ['\n'])) := by
  simp [toToml, h.fitsInt64, openText, frontLines, Line.value, Toml.writeField_eq_openField]

/-- The table that the written settings make. -/
def table (settings : Settings) : Toml.Table :=
  [("order", .string settings.order.name), ("indent", .boolean settings.indent),
    ("indent_width", .integer settings.indentWidth.toNat), ("separator", .string settings.separator)]

theorem parse?_openText (h : settings.Loadable) :
    Toml.parse? (String.ofList (settings.openText h)) = some settings.table := by
  have hreturn : ∀ line ∈ settings.frontLines h, '\r' ∉ line.text := by
    simp only [frontLines, List.forall_mem_cons, Line.return_not_mem_value, not_false_eq_true, true_and]
    exact List.forall_mem_nil _
  have hmark : (settings.openText h).head? ≠ some '\uFEFF' := by
    rw [show (settings.openText h).head? = some 'o' from rfl]
    decide
  rw [openText, Toml.parse?_lines_openField (by decide)
    (Toml.writes_writeString settings.separator) hreturn hmark]
  rfl

/-- The layer that sets everything as the settings have it. -/
def layer (settings : Settings) : Layer :=
  ⟨settings.order, settings.indent, settings.indentWidth, settings.separator⟩

theorem says_table (settings : Settings) : Layer.Says settings.table settings.layer where
  known := by simp [table, Layer.fieldNames]
  order := .some (.string settings.order)
  indent := .some rfl
  indentWidth := .some rfl
  separator := .some rfl

/-! ### Trimming -/

theorem exists_concat_writeString (s : List Char) :
    ∃ front quote, Toml.writeString s = front ++ [quote] ∧ Text.isBlank quote = false := by
  unfold Toml.writeString
  cases Toml.quoting s with
  | basic => exact ⟨_, '"', rfl, rfl⟩
  | literal => exact ⟨_, '\'', rfl, rfl⟩
  | basicBlock => exact ⟨_, '"', (List.append_assoc _ ['"', '"'] ['"']).symm, rfl⟩
  | literalBlock => exact ⟨_, '\'', (List.append_assoc _ ['\'', '\''] ['\'']).symm, rfl⟩

/-- The last line ends with a quote, so nothing but its end is trimmed. -/
theorem trimEnd_openText (h : settings.Loadable) :
    Text.trimEnd (String.ofList (settings.openText h ++ ['\n'])) = String.ofList (settings.openText h) := by
  obtain ⟨front, quote, hwrite, hquote⟩ := exists_concat_writeString settings.separator.toList
  have hblank : Text.isBlank '\n' = true := rfl
  have htext : settings.openText h =
      ((settings.frontLines h).flatMap Line.text ++ Toml.openField "separator" front) ++ [quote] := by
    simp [openText, Toml.openField, hwrite]
  rw [Text.trimEnd, htext]
  simp [hblank, hquote]

/-! ### Loading the written text -/

/-- The text is the content of the only settings file, be it the global one or that of the directory. -/
def OnlyFile (disk : Disk) (globalPath directory : Option String) (content : String) : Prop :=
  ∃ path ∈ globalPath.toList ++ (directory.map localPath).toList, disk path = .ok (.file content.toUTF8) ∧
    ∀ other ∈ globalPath.toList ++ (directory.map localPath).toList, other ≠ path → disk.contains other = false

end Settings

/-- No variable of the environment sets a key. -/
def Environment.Silent (env : Environment) : Prop :=
  ∀ name value, (name, value) ∈ env → ¬ variableStart <+: (Text.lower name).toList

theorem Environment.Silent.setting?_eq_none {env : Environment} (h : env.Silent) (key : String) :
    env.setting? key = none := by
  rw [setting?, List.findSome?_eq_none_iff]
  rintro ⟨name, value⟩ hmem
  have hstart := h name value (List.mem_reverse.mp hmem)
  simp [binding?, List.isPrefixOf_iff_prefix, hstart]

theorem Environment.Silent.sets {env : Environment} (h : env.Silent) : env.Sets {} := by
  constructor <;> simp [h.setting?_eq_none]

theorem Disk.read_eq_ok {disk : Disk} {path content : String} (h : disk path = .ok (.file content.toUTF8)) :
    disk.read path = .ok content := by
  have hdecode : String.fromUTF8? content.toUTF8 = some content := dif_pos content.isValidUTF8
  rw [Disk.read, h]
  simp only [hdecode]

namespace Settings

variable {disk : Disk} {env : Environment} {globalPath directory : Option String} {settings : Settings}

/-- A text that sets everything decides all settings where it is the only file. -/
theorem loadFrom_onlyFile {content : String} (hparse : Toml.parse? content = some settings.table)
    (hseparator : settings.separator ≠ "") (hfile : OnlyFile disk globalPath directory content)
    (henv : env.Silent) : loadFrom disk env globalPath directory = .ok settings := by
  obtain ⟨path, hpath, hcontent, hothers⟩ := hfile
  have hsource : ∀ source : Option String,
      source.toList ⊆ globalPath.toList ++ (directory.map localPath).toList →
      FileSays disk source (if source = some path then settings.layer else {}) := by
    intro source hsource
    cases source with
    | none => exact .unnamed
    | some other =>
        by_cases heq : other = path
        · subst heq
          rw [if_pos rfl]
          exact .present (by simp [Disk.contains, hcontent]) (Disk.read_eq_ok hcontent) hparse
            settings.says_table
        · rw [if_neg (by simpa using heq)]
          exact .absent (hothers other (hsource (by simp)) heq)
  have hone : globalPath = some path ∨ directory.map localPath = some path := by
    rw [List.mem_append, Option.mem_toList, Option.mem_toList] at hpath
    exact hpath
  refine loadFrom_eq_ok_iff.mpr ⟨_, _, {}, ⟨hsource _ (List.subset_append_left _ _),
    hsource _ (List.subset_append_right _ _), henv.sets⟩, ?_, hseparator⟩
  rcases hone with heq | heq
  · rw [if_pos heq]
    split <;> constructor <;> rfl
  · rw [if_pos heq]
    constructor <;> rfl

/-- Settings that were loaded from any files and environment can be written. The text ends with a line feed
and nothing more to trim, and without it, as the only settings file and with an environment that sets
nothing, the text loads as the same settings. -/
theorem loadFrom_toToml (h : loadFrom disk env globalPath directory = .ok settings) :
    ∃ text, settings.toToml = .ok text ∧ text = Text.trimEnd text ++ "\n" ∧
      ∀ (disk' : Disk) (env' : Environment) (globalPath' directory' : Option String),
        OnlyFile disk' globalPath' directory' (Text.trimEnd text) → env'.Silent →
        loadFrom disk' env' globalPath' directory' = .ok settings := by
  have hloadable := loadable_of_loadFrom h
  refine ⟨_, toToml_eq_openText hloadable, ?_, fun disk' env' globalPath' directory' hfile henv => ?_⟩
  · rw [trimEnd_openText]
    exact String.ofList_append
  · rw [trimEnd_openText] at hfile
    exact loadFrom_onlyFile (parse?_openText hloadable) hloadable.separator_ne hfile henv

/-- A disk with one file. -/
def shelf (path content : String) : Disk := fun p =>
  if p = path then .ok (.file content.toUTF8) else .error .notFound

theorem loadFrom_toToml_shelf :
    ∃ text, ({ indentWidth := 7, separator := " '\"\n" } : Settings).toToml = .ok text ∧
      loadFrom (shelf "d/.astwalk.toml" (Text.trimEnd text)) [("HOME", "/h")] (some "/g") (some "d") =
        .ok { indentWidth := 7, separator := " '\"\n" } := by
  have hload : loadFrom (shelf "/g" "indent_width = 7") [("ASTWALK_SEPARATOR", " '\"\\n")] (some "/g") none =
      .ok { indentWidth := 7, separator := " '\"\n" } := by
    refine toOption_eq_some_iff.mp ?_
    decide +kernel
  obtain ⟨text, hwrite, -, hround⟩ := loadFrom_toToml hload
  have hpath : localPath "d" = "d/.astwalk.toml" := by decide
  refine ⟨text, hwrite, hround _ _ _ _ ⟨"d/.astwalk.toml", ?_, ?_, ?_⟩ ?_⟩
  · simp [hpath]
  · exact if_pos rfl
  · simp [hpath, shelf, Disk.contains]
  · intro name value hmem
    simp only [List.mem_singleton, Prod.mk.injEq] at hmem
    rw [hmem.1]
    decide +kernel

end Settings

end TreeWalk
