import TreeWalk.Proofs.IndentedWalks
import TreeWalk.Toml.Quotation

/-!
Labels are lines that can be read back. A quoted text may stand for any characters at all, but it never holds a
line feed itself, and each of its three ways to write a character can be told by its first one or two characters
and ends where it should. A kind without a double quote ends before the first one of its label. So the lines of a
walk that is not indented come back when its text is cut at the line feeds, and each of them gives its symbol.
-/

namespace TreeWalk

namespace Text

/-! ### Cutting at line feeds -/

theorem splitAt_eq_splitOn (separator : Char) (cs : List Char) : splitAt separator cs = cs.splitOn separator := by
  induction cs with
  | nil => rfl
  | cons c cs ih =>
      rw [List.splitOn, List.splitOnP_cons_eq_if_modifyHead, ← List.splitOn, ← ih]
      by_cases hc : c = separator
      · rw [splitAt, if_pos hc, if_pos (by simpa using hc)]
      · obtain ⟨first, more, hrest, hsplit⟩ := splitAt_cons_of_ne hc cs
        rw [hsplit, hrest, if_neg (by simpa using hc)]
        rfl

/-- A text that was put together with line feeds gives its lines back. -/
theorem splitAt_intercalate {lines : List String} (hne : lines ≠ [])
    (hlines : ∀ line ∈ lines, '\n' ∉ line.toList) :
    (splitAt '\n' ("\n".intercalate lines).toList).map String.ofList = lines := by
  have hchars : ∀ chars ∈ lines.map String.toList, '\n' ∉ chars := List.forall_mem_map.mpr hlines
  have hfeed : "\n".toList = ['\n'] := rfl
  rw [String.toList_intercalate, splitAt_eq_splitOn, hfeed,
    List.splitOn_intercalate '\n' hchars (by simpa using hne), List.map_map]
  exact (List.map_congr_left fun line _ => String.ofList_toList).trans (List.map_id' lines)

/-! ### Digits -/

theorem digitChar_facts : ∀ d < 16, Toml.hexValue? (Nat.digitChar d) = some d ∧ Nat.digitChar d ≠ '\x7b' ∧
    Nat.digitChar d ≠ '\x7d' ∧ Nat.digitChar d ≠ '\n' := by decide

theorem hexDigits_of_lt {n : Nat} (h : n < 16) : hexDigits n = [Nat.digitChar n] := Nat.toDigits_of_lt_base h

theorem hexDigits_of_le {n : Nat} (h : 16 ≤ n) : hexDigits n = hexDigits (n / 16) ++ [Nat.digitChar (n % 16)] :=
  Nat.toDigits_of_base_le (by decide) h

theorem feed_notMem_hexDigits (n : Nat) : '\n' ∉ hexDigits n := by
  induction n using Nat.strong_induction_on with
  | _ n ih =>
      by_cases hsmall : n < 16
      · rw [hexDigits_of_lt hsmall, List.mem_singleton]
        exact (digitChar_facts n hsmall).2.2.2.symm
      · have hlast : n % 16 < 16 := Nat.mod_lt n (by decide)
        rw [hexDigits_of_le (Nat.le_of_not_lt hsmall), List.mem_append, List.mem_singleton, not_or]
        exact ⟨ih (n / 16) (by omega), (digitChar_facts (n % 16) hlast).2.2.2.symm⟩

/-! ### Quoted texts -/

theorem feed_notMem_quoteChar (c : Char) : '\n' ∉ quoteChar c := by
  unfold quoteChar
  split
  · decide
  split
  · decide
  split
  · decide
  split
  · decide
  rename_i hfeed
  split
  · decide
  split
  · decide
  split
  · simp [feed_notMem_hexDigits]
  · simpa using fun h => hfeed h.symm

theorem feed_notMem_quote (s : String) : '\n' ∉ (quote s).toList := by
  simp [quote, feed_notMem_quoteChar]

/-- Where a reader of quoted text is: at a character that stands for itself or begins an escape, behind a backslash,
or in the number of a character. -/
inductive QuoteMode where
  | plain
  | escape
  | number (value : Nat)
deriving DecidableEq, Repr

/-- The character that a backslash and another one stand for. -/
def escapedChar (c : Char) : Char :=
  if c = 't' then '\t' else if c = 'n' then '\n' else if c = 'r' then '\r' else if c = '0' then '\x00' else c

/-- Reads a quoted text behind its first quote, up to the quote that ends it. -/
def readQuoted : QuoteMode → List Char → List Char
  | _, [] => []
  | .plain, c :: rest =>
      if c = '"' then []
      else if c = '\\' then readQuoted .escape rest
      else c :: readQuoted .plain rest
  | .escape, c :: rest =>
      if c = 'u' then readQuoted (.number 0) rest else escapedChar c :: readQuoted .plain rest
  | .number value, c :: rest =>
      if c = '\x7b' then readQuoted (.number value) rest
      else if c = '\x7d' then Char.ofNat value :: readQuoted .plain rest
      else readQuoted (.number (16 * value + (Toml.hexValue? c).getD 0)) rest

theorem readQuoted_digitChar {d : Nat} (hd : d < 16) (value : Nat) (rest : List Char) :
    readQuoted (.number value) (Nat.digitChar d :: rest) = readQuoted (.number (16 * value + d)) rest := by
  obtain ⟨hvalue, hopen, hclose, -⟩ := digitChar_facts d hd
  rw [readQuoted, if_neg hopen, if_neg hclose, hvalue]
  rfl

theorem readQuoted_hexDigits (n : Nat) (rest : List Char) :
    readQuoted (.number 0) (hexDigits n ++ rest) = readQuoted (.number n) rest := by
  induction n using Nat.strong_induction_on generalizing rest with
  | _ n ih =>
      by_cases hsmall : n < 16
      · rw [hexDigits_of_lt hsmall, List.singleton_append, readQuoted_digitChar hsmall, Nat.mul_zero, Nat.zero_add]
      · have hlast : n % 16 < 16 := Nat.mod_lt n (by decide)
        rw [hexDigits_of_le (Nat.le_of_not_lt hsmall), List.append_assoc, ih (n / 16) (by omega),
          List.singleton_append, readQuoted_digitChar hlast, Nat.div_add_mod]

/-- Each way to write a character is read as that character, whatever stands behind it. -/
theorem readQuoted_quoteChar (c : Char) (rest : List Char) :
    readQuoted .plain (quoteChar c ++ rest) = c :: readQuoted .plain rest := by
  unfold quoteChar
  split
  · subst c; rfl
  split
  · subst c; rfl
  split
  · subst c; rfl
  split
  · subst c; rfl
  split
  · subst c; rfl
  split
  · subst c; rfl
  rename_i hquote hbackslash _ _ _ _
  split
  · calc readQuoted .plain (['\\', 'u', '\x7b'] ++ hexDigits c.toNat ++ ['\x7d'] ++ rest)
        = readQuoted (.number 0) (hexDigits c.toNat ++ '\x7d' :: rest) := by
          rw [List.append_assoc, List.append_assoc]
          rfl
      _ = readQuoted (.number c.toNat) ('\x7d' :: rest) := readQuoted_hexDigits _ _
      _ = Char.ofNat c.toNat :: readQuoted .plain rest := rfl
      _ = c :: readQuoted .plain rest := by rw [Char.ofNat_toNat]
  · rw [List.singleton_append, readQuoted, if_neg hquote, if_neg hbackslash]

theorem readQuoted_flatMap (text rest : List Char) :
    readQuoted .plain (text.flatMap quoteChar ++ '"' :: rest) = text := by
  induction text with
  | nil => rfl
  | cons c text ih => rw [List.flatMap_cons, List.append_assoc, readQuoted_quoteChar, ih]

end Text

/-! ### Labels -/

namespace Symbol

/-- The symbol with a label: its kind ends a space before the first double quote, and its text begins behind it. -/
def ofLabel (label : String) : Symbol :=
  match label.toList.dropWhile (· ≠ '"') with
  | [] => ⟨label, none⟩
  | _ :: quoted =>
      ⟨String.ofList (label.toList.takeWhile (· ≠ '"')).dropLast, some (String.ofList (Text.readQuoted .plain quoted))⟩

theorem toList_label_some (kind text : String) :
    (label ⟨kind, some text⟩).toList =
      (kind.toList ++ [' ']) ++ '"' :: (text.toList.flatMap Text.quoteChar ++ ['"']) := by
  simp [label, Text.quote]

/-- A label gives its symbol back. -/
theorem ofLabel_label {symbol : Symbol} (h : '"' ∉ symbol.kind.toList) : ofLabel symbol.label = symbol := by
  obtain ⟨kind, text⟩ := symbol
  have hkind : ∀ c ∈ kind.toList, decide (c ≠ '"') = true := by
    intro c hc
    rw [decide_eq_true_eq]
    rintro rfl
    exact h hc
  cases text with
  | none =>
      have hrest : kind.toList.dropWhile (· ≠ '"') = [] := List.dropWhile_eq_nil_iff.mpr hkind
      simp only [ofLabel, label, hrest]
  | some text =>
      have hfront : ∀ c ∈ kind.toList ++ [' '], decide (c ≠ '"') = true := by
        intro c hc
        rcases List.mem_append.mp hc with hc | hc
        · exact hkind c hc
        · rw [List.mem_singleton.mp hc]
          decide
      have htake : (label ⟨kind, some text⟩).toList.takeWhile (· ≠ '"') = kind.toList ++ [' '] := by
        rw [toList_label_some, List.takeWhile_append_of_pos hfront]
        simp
      have hdrop : (label ⟨kind, some text⟩).toList.dropWhile (· ≠ '"') =
          '"' :: (text.toList.flatMap Text.quoteChar ++ ['"']) := by
        rw [toList_label_some, List.dropWhile_append_of_pos hfront]
        simp
      simp only [ofLabel, hdrop, htake, Text.readQuoted_flatMap, List.dropLast_concat, String.ofList_toList]

theorem feed_notMem_label {symbol : Symbol} (h : '\n' ∉ symbol.kind.toList) : '\n' ∉ symbol.label.toList := by
  obtain ⟨kind, text⟩ := symbol
  cases text with
  | none => exact h
  | some text => simpa [label, Text.feed_notMem_quote] using h

end Symbol

/-! ### Walks as one text -/

namespace Graph

open Source (Yields)

variable {G : Graph Symbol} {root : G.Node}

theorem nodes_ne_nil (h : G.AcyclicFrom root) (order : Order) : G.nodes order root ≠ [] := by
  obtain ⟨t, ht, rfl⟩ := acyclicFrom_iff_exists_unfolds.mp h
  have hroot : t.value ∈ G.nodes order t.value := (ht.nodes_perm order).mem_iff.mpr t.value_mem_preorder
  exact List.ne_nil_of_mem hroot

/-- Where no kind has a line feed or a double quote, the text of a walk that is not indented, with line feeds as
separators, gives its lines back when it is cut at the line feeds. There is one line for each node that the walk
gives, and each line alone gives the kind and the text of its node, whatever characters the text holds. -/
theorem renderWalk_split (h : G.AcyclicFrom root)
    (hkind : ∀ n, G.Reaches root n → '\n' ∉ (G.value n).kind.toList ∧ '"' ∉ (G.value n).kind.toList)
    {settings : Settings} (hseparator : settings.separator = "\n") (hindent : settings.indent = false)
    (order : Option Order) :
    ∃ text lines, G.renderWalk settings order root = .ok text ∧ G.walkLines settings order root = .ok lines ∧
      (Text.splitAt '\n' text.toList).map String.ofList = lines ∧
      Yields Walk.next (G.nodes (order.getD settings.order) root) (.start (order.getD settings.order) root) ∧
      lines = (G.nodes (order.getD settings.order) root).map G.label ∧
      lines.map Symbol.ofLabel = (G.nodes (order.getD settings.order) root).map G.value := by
  have hlines : G.walkLines settings order root =
      .ok ((G.nodes (order.getD settings.order) root).map G.label) := by simp [walkLines, hindent]
  have hreach : ∀ n ∈ G.nodes (order.getD settings.order) root, G.Reaches root n := by
    obtain ⟨t, ht, rfl⟩ := acyclicFrom_iff_exists_unfolds.mp h
    exact fun n hn => ht.reaches_of_mem_preorder ((ht.nodes_perm _).mem_iff.mp hn)
  refine ⟨_, _, by rw [renderWalk, hlines]; rfl, hlines, ?_, h.yields_nodes _, rfl, ?_⟩
  · rw [hseparator]
    apply Text.splitAt_intercalate
    · simpa using nodes_ne_nil h _
    · rw [List.forall_mem_map]
      exact fun n hn => Symbol.feed_notMem_label (hkind n (hreach n hn)).1
  · rw [List.map_map]
    exact List.map_congr_left fun n hn => Symbol.ofLabel_label (hkind n (hreach n hn)).2

/-- Texts that look like the end of a label and the beginning of another line, below a node with no kind. -/
def unruly : Graph Symbol :=
  .ofRows #[⟨⟨"", some "\\"⟩, [1, 2, 1], .row⟩, ⟨⟨"item", some "a\"\nitem \"b"⟩, [], .halves⟩,
    ⟨⟨"item ", some "\x00\\u301"⟩, [], .sequence⟩]

theorem renderWalk_split_unruly :
    (∀ n, '\n' ∉ (unruly.value n).kind.toList ∧ '"' ∉ (unruly.value n).kind.toList) ∧
      ∃ text lines, unruly.renderWalk {} (some .post) ⟨0, by decide⟩ = .ok text ∧
        (Text.splitAt '\n' text.toList).map String.ofList = lines ∧
        lines.map Symbol.ofLabel = [⟨"item", some "a\"\nitem \"b"⟩, ⟨"item ", some "\x00\\u301"⟩,
          ⟨"item", some "a\"\nitem \"b"⟩, ⟨"", some "\\"⟩] := by
  have hkind : ∀ n, '\n' ∉ (unruly.value n).kind.toList ∧ '"' ∉ (unruly.value n).kind.toList := by decide +kernel
  have hacyclic : unruly.AcyclicFrom ⟨0, by decide⟩ := acyclicFrom_of_lt (by decide +kernel) _
  have hvalues : (unruly.nodes .post ⟨0, by decide⟩).map unruly.value = [⟨"item", some "a\"\nitem \"b"⟩,
      ⟨"item ", some "\x00\\u301"⟩, ⟨"item", some "a\"\nitem \"b"⟩, ⟨"", some "\\"⟩] := by decide +kernel
  have hseparator : ({} : Settings).separator = "\n" := rfl
  obtain ⟨text, lines, htext, -, hsplit, -, -, hsymbols⟩ :=
    renderWalk_split hacyclic (fun n _ => hkind n) hseparator rfl (some .post)
  exact ⟨hkind, text, lines, htext, hsplit, hsymbols.trans hvalues⟩

end Graph

end TreeWalk
