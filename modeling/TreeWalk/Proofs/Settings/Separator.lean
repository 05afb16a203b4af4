import TreeWalk.Proofs.Decimal.Spelling
import TreeWalk.Proofs.Settings.Escapes
import TreeWalk.Proofs.Settings.Layers

/-!
The separator from the environment. A variable's value becomes a boolean, an integer or a floating-point number if
it looks like one, and the separator is what is written for that, so a value in another spelling than the usual one
does not come out as it went in. It does exactly if it looks like none of these, or is spelled as they are written.
-/

namespace TreeWalk

open Decimal (IsPlain IsIntegerText spell parseInt? parseDouble? fitsInt64)
open Double (IsShortestText specialTexts)

/-! ### Spellings -/

namespace EnvValue

/-- What a text looks like: a boolean in letters of any case, or else an integer of 64 bits, or else a
floating-point number, or else itself. -/
inductive LooksLike (s : String) : EnvValue → Prop where
  | boolean (b : Bool) (hword : Text.lower s = toString b) : LooksLike s (.boolean b)
  | integer {n : Int} (hword : ∀ b : Bool, Text.lower s ≠ toString b) (hread : parseInt? s.toList = some n)
      (hfits : fitsInt64 n) : LooksLike s (.integer n)
  | float {x : Double} (hword : ∀ b : Bool, Text.lower s ≠ toString b)
      (hinteger : ∀ n, parseInt? s.toList = some n → ¬ fitsInt64 n) (hread : parseDouble? s.toList = some x) :
      LooksLike s (.float x)
  | text (hword : ∀ b : Bool, Text.lower s ≠ toString b)
      (hinteger : ∀ n, parseInt? s.toList = some n → ¬ fitsInt64 n) (hread : parseDouble? s.toList = none) :
      LooksLike s (.text s)

theorem looksLike_ofText (s : String) : LooksLike s (ofText s) := by
  by_cases hword : ∃ b : Bool, Text.lower s = toString b
  · obtain ⟨b, hb⟩ := hword
    have heq : ofText s = .boolean b := by
      simp only [ofText, hb]
      cases b with
      | true => exact if_pos rfl
      | false => exact (if_neg (by decide)).trans (if_pos rfl)
    rw [heq]
    exact .boolean b hb
  · rw [not_exists] at hword
    have htrue : Text.lower s ≠ "true" := hword true
    have hfalse : Text.lower s ≠ "false" := hword false
    simp only [ofText, if_neg htrue, if_neg hfalse]
    split
    · rename_i n hn
      obtain ⟨hread, hfits⟩ := Option.filter_eq_some_iff.mp hn
      exact .integer hword hread hfits
    · rename_i hn
      have hinteger := Option.filter_eq_none_iff.mp hn
      split
      · rename_i x hread
        exact .float hword hinteger hread
      · rename_i hread
        exact .text hword hinteger hread

/-- A text that is what is written for the value it looks like. A boolean is in small letters, and an integer of 64
bits has neither a plus sign nor a zero in front. Another number is one of the words that are written for what is
not finite, or the shortest plain decimal of those that are read as it. -/
structure IsUsual (s : String) : Prop where
  boolean : ∀ b : Bool, Text.lower s = toString b → s = toString b
  integer : ∀ n, parseInt? s.toList = some n → fitsInt64 n → IsIntegerText s.toList
  float : ∀ x, (∀ n, parseInt? s.toList = some n → ¬ fitsInt64 n) → parseDouble? s.toList = some x →
    s ∈ specialTexts ∨ IsShortestText s.toList

theorem isUsual_toString (b : Bool) : IsUsual (toString b) := by
  have hno : ∀ b : Bool, parseInt? (toString b).toList = none ∧ parseDouble? (toString b).toList = none := by
    decide
  have hsmall : ∀ b : Bool, Text.lower (toString b) = toString b := by decide +kernel
  refine ⟨fun b' hb' => (hsmall b).symm.trans hb', fun n hn => ?_, fun x _ hx => ?_⟩
  · rw [(hno b).1] at hn
    cases hn
  · rw [(hno b).2] at hx
    cases hx

/-- What is written for a value is the text that it comes from exactly if that one is the usual one. -/
theorem LooksLike.exists_text {s : String} {v : EnvValue} (h : LooksLike s v) :
    ∃ t, v.toText? = some t ∧ (t = s ↔ IsUsual s) := by
  cases h with
  | boolean b hword =>
      refine ⟨toString b, rfl, ?_, fun husual => (husual.boolean b hword).symm⟩
      rintro rfl
      exact isUsual_toString b
  | @integer n hword hread hfits =>
      refine ⟨toString n, rfl, ?_⟩
      rw [← String.toList_inj, Decimal.toString_eq_iff_isIntegerText hread]
      constructor
      · intro htext
        exact ⟨fun b hb => absurd hb (hword b), fun _ _ _ => htext,
          fun x hinteger _ => absurd hfits (hinteger n hread)⟩
      · exact fun husual => husual.integer n hread hfits
  | @float x hword hinteger hread =>
      refine ⟨x.toText, rfl, ?_⟩
      rw [Double.toText_eq_iff hread]
      constructor
      · intro htext
        exact ⟨fun b hb => absurd hb (hword b), fun n hn hfits => absurd hfits (hinteger n hn), fun _ _ _ => htext⟩
      · exact fun husual => husual.float x hinteger hread
  | text hword hinteger hread =>
      refine ⟨s, rfl, fun _ => ?_, fun _ => rfl⟩
      refine ⟨fun b hb => absurd hb (hword b), fun n hn hfits => absurd hfits (hinteger n hn), fun x _ hx => ?_⟩
      rw [hread] at hx
      cases hx

/-- A text that is not empty and holds neither a backslash nor what an escape stands for. -/
structure IsClean (t : String) : Prop where
  ne_empty : t ≠ ""
  backslash : '\\' ∉ t.toList
  feed : '\n' ∉ t.toList
  tab : '\t' ∉ t.toList

/-- The words that are written for booleans and for numbers that are not finite. -/
theorem isClean_word {t : String} (h : t ∈ ["true", "false"] ++ specialTexts) : IsClean t := by
  have hwords : ∀ word ∈ ["true", "false"] ++ specialTexts,
      word ≠ "" ∧ '\\' ∉ word.toList ∧ '\n' ∉ word.toList ∧ '\t' ∉ word.toList := by decide
  obtain ⟨hne, hbackslash, hfeed, htab⟩ := hwords t h
  exact ⟨hne, hbackslash, hfeed, htab⟩

theorem isClean_of_spell {t : String} {negative : Bool} {whole fraction : List Char} (hplain : IsPlain whole fraction)
    (h : t.toList = spell negative whole fraction) : IsClean t := by
  have hmem : ∀ c ∈ t.toList, c.isDigit ∨ c = '-' ∨ c = '.' := by
    rw [h]
    exact fun c hc => hplain.mem_spell hc
  refine ⟨?_, fun hc => absurd (hmem _ hc) (by decide), fun hc => absurd (hmem _ hc) (by decide),
    fun hc => absurd (hmem _ hc) (by decide)⟩
  rintro rfl
  have hsign := hplain.splitSign_spell negative
  obtain ⟨c, rest, hcons, -⟩ := hplain.exists_pointed_cons
  rw [← h, hcons] at hsign
  simp [Decimal.splitSign] at hsign

/-- What is written for a value is clean, or it is the text that the value comes from. -/
theorem LooksLike.isClean_or {s t : String} {v : EnvValue} (h : LooksLike s v) (ht : v.toText? = some t) :
    IsClean t ∨ t = s := by
  cases h with
  | boolean b hword =>
      cases ht
      exact Or.inl (isClean_word (by cases b <;> decide))
  | @integer n hword hread hfits =>
      cases ht
      exact Or.inl (isClean_of_spell (Decimal.isPlain_toDigits n.natAbs) (Decimal.toList_toString_int n))
  | @float x hword hinteger hread =>
      cases ht
      cases x with
      | finite negative mantissa exponent =>
          obtain ⟨whole, fraction, hplain, htext, -⟩ :=
            Double.exists_plain_toText (Double.isNormal_of_parseDouble? hread) negative
          exact Or.inl (isClean_of_spell hplain htext)
      | infinity negative => exact Or.inl (isClean_word (by cases negative <;> decide))
      | nan => exact Or.inl (isClean_word (by decide))
  | text hword hinteger hread => exact Or.inr (Option.some.inj ht).symm

end EnvValue

/-! ### The variable -/

namespace Environment

open EnvValue (IsUsual looksLike_ofText)

variable {before after : Environment}

theorem binding?_eq_some {name value : String} {key : List Char}
    (hname : (Text.lower name).toList = variableStart ++ key) :
    binding? name value = some (splitKey key (.ofText value)) := by
  simp [binding?, hname, List.isPrefixOf_iff_prefix]

theorem splitKey_eq_self {key : List Char} (hkey : ∀ c ∈ key, isKeyChar c) (v : EnvValue) :
    splitKey key v = (key, v) := by
  have hfirst : key.takeWhile isKeyChar = key := List.takeWhile_eq_self_iff.mpr hkey
  have hrest : key.dropWhile isKeyChar = [] := List.dropWhile_eq_nil_iff.mpr hkey
  simp [splitKey, hfirst, hrest]

theorem binding?_separator (value : String) :
    binding? "ASTWALK_SEPARATOR" value = some ("separator".toList, .ofText value) := by
  have hname : (Text.lower "ASTWALK_SEPARATOR").toList = variableStart ++ "separator".toList := by decide +kernel
  have hkey : "separator".toList.all isKeyChar := by decide
  rw [binding?_eq_some hname, splitKey_eq_self (List.all_eq_true.mp hkey)]

/-- The last variable for a key decides. -/
theorem setting?_of_last {key name value : String} {v : EnvValue}
    (hbinding : binding? name value = some (key.toList, v)) (hafter : after.setting? key = none) :
    setting? (before ++ (name, value) :: after) key = some v := by
  rw [setting?] at hafter
  rw [setting?, List.reverse_append, List.reverse_cons, List.findSome?_append, List.findSome?_append, hafter]
  simp [hbinding]

/-- The separator is the value as it stands exactly if that is usual, and it is not empty if the value is not. -/
theorem exists_separator (before : Environment) (s : String) (hafter : after.setting? "separator" = none) :
    ∃ separator,
      ((setting? (before ++ ("ASTWALK_SEPARATOR", s) :: after) "separator").bind EnvValue.toText?).map unescape =
        some separator ∧
      (separator = unescape s ↔ IsUsual s) ∧ (unescape s ≠ "" → separator ≠ "") := by
  have hlooks := looksLike_ofText s
  obtain ⟨t, ht, husual⟩ := hlooks.exists_text
  refine ⟨unescape t, by
    rw [setting?_of_last (binding?_separator s) hafter, Option.bind_some, ht, Option.map_some], ?_⟩
  rw [← husual]
  rcases hlooks.isClean_or ht with hclean | rfl
  · refine ⟨unescape_eq_unescape_iff hclean.backslash hclean.feed hclean.tab, fun _ => ?_⟩
    rw [unescape_eq_of_not_mem hclean.backslash]
    exact hclean.ne_empty
  · exact ⟨⟨fun _ => rfl, fun _ => rfl⟩, id⟩

end Environment

namespace Settings

open Environment (unescape)
open EnvValue (IsUsual)

/-- Where the variable of the separator is the last one for it and not empty, the separator that is loaded is its
value with the escapes read exactly if that value is usual for what it looks like. Loading then succeeds exactly if
both files and the environment say something. -/
theorem loadFrom_separator_variable (disk : Disk) (globalPath directory : Option String) (before : Environment)
    {after : Environment} {s : String} (hs : unescape s ≠ "") (hafter : after.setting? "separator" = none) :
    (∀ settings, loadFrom disk (before ++ ("ASTWALK_SEPARATOR", s) :: after) globalPath directory = .ok settings →
      (settings.separator = unescape s ↔ IsUsual s)) ∧
    ((∃ settings, loadFrom disk (before ++ ("ASTWALK_SEPARATOR", s) :: after) globalPath directory = .ok settings) ↔
      (∃ layer, FileSays disk globalPath layer) ∧ (∃ layer, FileSays disk (directory.map localPath) layer) ∧
        ∃ layer, Environment.Sets (before ++ ("ASTWALK_SEPARATOR", s) :: after) layer) := by
  obtain ⟨separator, hseparator, husual, hne⟩ := Environment.exists_separator before s hafter
  have hfirst : ∀ {globalLayer localLayer envLayer : Layer},
      Environment.Sets (before ++ ("ASTWALK_SEPARATOR", s) :: after) envLayer →
      Layer.firstOf Layer.separator [envLayer, localLayer, globalLayer] "\n" = separator := by
    intro globalLayer localLayer envLayer hsets
    simp [Layer.firstOf, hsets.separator, hseparator]
  refine ⟨fun settings hload => ?_, ?_, ?_⟩
  · obtain ⟨globalLayer, localLayer, envLayer, hlayered, hhighest, -⟩ := loadFrom_eq_ok_iff.mp hload
    rw [hhighest.separator, hfirst hlayered.environment, husual]
  · rintro ⟨settings, hload⟩
    obtain ⟨globalLayer, localLayer, envLayer, hlayered, -⟩ := loadFrom_eq_ok_iff.mp hload
    exact ⟨⟨globalLayer, hlayered.globalFile⟩, ⟨localLayer, hlayered.localFile⟩, ⟨envLayer, hlayered.environment⟩⟩
  · rintro ⟨⟨globalLayer, hglobal⟩, ⟨localLayer, hlocal⟩, ⟨envLayer, hsets⟩⟩
    have hhighest := highest_overlay globalLayer localLayer envLayer
    refine ⟨_, loadFrom_eq_ok_iff.mpr ⟨globalLayer, localLayer, envLayer, ⟨hglobal, hlocal, hsets⟩, hhighest, ?_⟩⟩
    rw [hhighest.separator, hfirst hsets]
    exact hne hs

theorem loadFrom_separator_variable_dime :
    IsUsual "0.3" ∧ ¬ IsUsual "0.30" ∧
      ∀ s ∈ ["0.3", "0.30"], loadFrom (fun _ => .error .notFound)
        [("astwalk_separator", "x"), ("ASTWALK_SEPARATOR", s), ("ASTWALK_ORDER", "post")] none none =
          .ok { order := .post, separator := "0.3" } := by
  have hload : ∀ s ∈ ["0.3", "0.30"], loadFrom (fun _ => .error .notFound)
      [("astwalk_separator", "x"), ("ASTWALK_SEPARATOR", s), ("ASTWALK_ORDER", "post")] none none =
        .ok { order := .post, separator := "0.3" } := by
    simp only [List.forall_mem_cons, ← toOption_eq_some_iff]
    decide +kernel
  have hafter : Environment.setting? [("ASTWALK_ORDER", "post")] "separator" = none := by decide +kernel
  have husual : ∀ s ∈ ["0.3", "0.30"], unescape s ≠ "" → ("0.3" = unescape s ↔ IsUsual s) := fun s hs hne =>
    (loadFrom_separator_variable _ _ _ [("astwalk_separator", "x")] hne hafter).1 _ (hload s hs)
  refine ⟨(husual "0.3" (by decide) (by decide)).mp (by decide), ?_, hload⟩
  exact (husual "0.30" (by decide) (by decide)).not.mp (by decide)

/-- A boolean in capital letters comes out in small ones. -/
theorem loadFrom_separator_ne_unescape :
    ∃ settings, loadFrom (fun _ => .error .notFound) [("ASTWALK_SEPARATOR", "TRUE")] none none = .ok settings ∧
      settings.separator ≠ unescape "TRUE" := by
  refine ⟨{ separator := "true" }, toOption_eq_some_iff.mp ?_, by decide⟩
  decide +kernel

end Settings

end TreeWalk
