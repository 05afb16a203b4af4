import Mathlib.Data.List.Basic
import TreeWalk.Toml.Quotation
import TreeWalk.Toml.Writer

/-!
Written strings read back. Whatever form the writer chooses, the reader gives the string and leaves what
stands behind it, as long as that does not start with one more quote. The forms in double quotes escape
what they cannot hold, so they are right for every string; those in single quotes escape nothing, and the
choice of form sees to it that nothing needs it.
-/

namespace TreeWalk.Toml

/-! ### Single characters -/

theorem hexValue?_capitalDigit : ∀ n < 16, hexValue? (capitalDigit n) = some n := by decide

theorem codeChar?_div_add_mod {c : Char} (h : c.toNat < 0x80) :
    codeChar? (16 * (c.toNat / 16) + c.toNat % 16) = some c := by
  have hlow : c.toNat < 0xD800 := by omega
  rw [Nat.div_add_mod, codeChar?, if_pos (by simp [hlow]), Char.ofNat_toNat]

/-- A character between double quotes stands for itself, behind a backslash as a letter, or behind a
backslash as its number. -/
theorem escapeChar_cases {c : Char} (hquote : c ≠ '"') :
    (∃ e, escapeChar c = ['\\', e] ∧ namedEscape? e = some c) ∨
    (escapeChar c = ['\\', 'u', '0', '0', capitalDigit (c.toNat / 16), capitalDigit (c.toNat % 16)] ∧
      c.toNat < 0x80) ∨
    (escapeChar c = [c] ∧ c ≠ '"' ∧ c ≠ '\\' ∧ isLineChar c) := by
  unfold escapeChar
  split
  · rename_i h
    exact Or.inl ⟨'\\', rfl, by rw [h]; rfl⟩
  split
  · rename_i h
    exact Or.inl ⟨'t', rfl, by rw [h]; rfl⟩
  split
  · rename_i h
    exact Or.inl ⟨'r', rfl, by rw [h]; rfl⟩
  split
  · rename_i h
    exact Or.inl ⟨'b', rfl, by rw [h]; rfl⟩
  split
  · rename_i h
    exact Or.inl ⟨'f', rfl, by rw [h]; rfl⟩
  split
  · rename_i h
    simp only [Bool.or_eq_true, decide_eq_true_eq] at h
    exact Or.inr (Or.inl ⟨rfl, by omega⟩)
  · rename_i hbackslash _ _ _ _ h
    simp only [Bool.or_eq_true, decide_eq_true_eq, not_or] at h
    refine Or.inr (Or.inr ⟨rfl, hquote, hbackslash, ?_⟩)
    simp only [isLineChar, Bool.or_eq_true, Bool.and_eq_true, decide_eq_true_eq]
    exact Or.inr ⟨by omega, h.2⟩

/-! ### A line in double quotes -/

theorem readBasic_named {e d : Char} (h : namedEscape? e = some d) (out rest : List Char) :
    readBasic .plain out ('\\' :: e :: rest) = readBasic .plain (d :: out) rest := by
  rw [readBasic, if_neg (by decide), if_pos rfl, readBasic, h]

theorem readBasic_code {c : Char} (h : c.toNat < 0x80) (out rest : List Char) :
    readBasic .plain out
      ('\\' :: 'u' :: '0' :: '0' :: capitalDigit (c.toNat / 16) :: capitalDigit (c.toNat % 16) :: rest) =
      readBasic .plain (c :: out) rest := by
  have hhigh := hexValue?_capitalDigit (c.toNat / 16) (by omega)
  have hlow := hexValue?_capitalDigit (c.toNat % 16) (by omega)
  have hzero : hexValue? '0' = some 0 := by decide
  simp [readBasic, namedEscape?, codeLength?, hhigh, hlow, hzero,
    codeChar?_div_add_mod h]

theorem readBasic_plain {c : Char} (hquote : c ≠ '"') (hbackslash : c ≠ '\\') (hline : isLineChar c)
    (out rest : List Char) :
    readBasic .plain out (c :: rest) = readBasic .plain (c :: out) rest := by
  rw [readBasic, if_neg hquote, if_neg hbackslash, if_pos hline]

theorem readBasic_escapeLineChar (c : Char) (out rest : List Char) :
    readBasic .plain out (escapeLineChar c ++ rest) = readBasic .plain (c :: out) rest := by
  unfold escapeLineChar
  split
  · rename_i h
    rw [h]
    exact readBasic_named rfl out rest
  split
  · rename_i h
    rw [h]
    exact readBasic_named rfl out rest
  · rename_i hquote _
    rcases escapeChar_cases hquote with ⟨e, he, hnamed⟩ | ⟨he, hcode⟩ | ⟨he, -, hbackslash, hline⟩
    · rw [he]
      exact readBasic_named hnamed out rest
    · rw [he]
      exact readBasic_code hcode out rest
    · rw [he]
      exact readBasic_plain hquote hbackslash hline out rest

theorem readBasic_escaped (s out rest : List Char) :
    readBasic .plain out (s.flatMap escapeLineChar ++ '"' :: rest) =
      some (String.ofList (out.reverse ++ s), rest) := by
  induction s generalizing out with
  | nil => simp [readBasic]
  | cons c s ih =>
      rw [List.flatMap_cons, List.append_assoc, readBasic_escapeLineChar, ih, List.reverse_cons,
        List.append_assoc]
      rfl

/-! ### A line in single quotes -/

theorem readLiteral_append {s : List Char} (h : ∀ c ∈ s, c ≠ '\'' ∧ isLineChar c)
    (out rest : List Char) :
    readLiteral out (s ++ '\'' :: rest) = some (String.ofList (out.reverse ++ s), rest) := by
  induction s generalizing out with
  | nil => simp [readLiteral]
  | cons c s ih =>
      obtain ⟨hquote, hline⟩ := h c List.mem_cons_self
      rw [List.cons_append, readLiteral, if_neg hquote, if_pos hline,
        ih (fun d hd => h d (List.mem_cons_of_mem c hd)), List.reverse_cons, List.append_assoc]
      rfl

/-! ### Closing a block -/

/-- Quotes before the three closing ones belong to the string, up to two of them. -/
theorem closeQuotes_replicate {quote : Char} {rest : List Char} (hrest : rest.head? ≠ some quote)
    {k : Nat} (hk : k ≤ 2) (out : List Char) :
    closeQuotes quote out (List.replicate k quote ++ rest) =
      (String.ofList (out.reverse ++ List.replicate k quote), rest) := by
  have hne : ∀ a tail, rest = a :: tail → a ≠ quote := by
    rintro a tail rfl rfl
    exact hrest rfl
  match k, hk with
  | 0, _ =>
      cases rest with
      | nil => simp [closeQuotes]
      | cons a tail =>
          have ha := hne a tail rfl
          cases tail <;> simp [closeQuotes, ha]
  | 1, _ =>
      cases rest with
      | nil => simp [closeQuotes]
      | cons a tail =>
          have ha := hne a tail rfl
          simp [closeQuotes, ha]
  | 2, _ => simp [closeQuotes, List.replicate_succ]

/-! ### A block in double quotes -/

theorem readBasicBlock_close {rest : List Char} (hrest : rest.head? ≠ some '"') {quotes : Nat}
    (hquotes : quotes ≤ 2) (out : List Char) :
    readBasicBlock (.text quotes false) out ('"' :: '"' :: '"' :: rest) =
      some (String.ofList (out.reverse ++ List.replicate quotes '"'), rest) := by
  have hclose := closeQuotes_replicate hrest hquotes out
  match quotes, hquotes with
  | 0, _ => simpa [readBasicBlock] using hclose
  | 1, _ => simpa [readBasicBlock] using hclose
  | 2, _ => simpa [readBasicBlock, List.replicate_succ] using hclose

theorem readBasicBlock_named {e d : Char} (h : namedEscape? e = some d) (quotes : Nat)
    (out rest : List Char) :
    readBasicBlock (.text quotes false) out ('\\' :: e :: rest) =
      readBasicBlock (.text 0 false) (d :: (List.replicate quotes '"' ++ out)) rest := by
  simp [readBasicBlock, h]

theorem readBasicBlock_code {c : Char} (h : c.toNat < 0x80) (quotes : Nat) (out rest : List Char) :
    readBasicBlock (.text quotes false) out
      ('\\' :: 'u' :: '0' :: '0' :: capitalDigit (c.toNat / 16) :: capitalDigit (c.toNat % 16) :: rest) =
      readBasicBlock (.text 0 false) (c :: (List.replicate quotes '"' ++ out)) rest := by
  have hhigh := hexValue?_capitalDigit (c.toNat / 16) (by omega)
  have hlow := hexValue?_capitalDigit (c.toNat % 16) (by omega)
  have hzero : hexValue? '0' = some 0 := by decide
  simp [readBasicBlock, namedEscape?, codeLength?, hhigh, hlow, hzero,
    codeChar?_div_add_mod h]

theorem readBasicBlock_plain {c : Char} (hquote : c ≠ '"') (hbackslash : c ≠ '\\')
    (hline : c = '\n' ∨ isLineChar c) (quotes : Nat) (out rest : List Char) :
    readBasicBlock (.text quotes false) out (c :: rest) =
      readBasicBlock (.text 0 false) (c :: (List.replicate quotes '"' ++ out)) rest := by
  have hheld : (decide (c = '\n') || isLineChar c) = true := by simpa using hline
  simp [readBasicBlock, hquote, hbackslash, hheld]

theorem readBasicBlock_escapeChar {c : Char} (hquote : c ≠ '"') (quotes : Nat)
    (out rest : List Char) :
    readBasicBlock (.text quotes false) out (escapeChar c ++ rest) =
      readBasicBlock (.text 0 false) (c :: (List.replicate quotes '"' ++ out)) rest := by
  rcases escapeChar_cases hquote with ⟨e, he, hnamed⟩ | ⟨he, hcode⟩ | ⟨he, -, hbackslash, hline⟩
  · rw [he]
    exact readBasicBlock_named hnamed quotes out rest
  · rw [he]
    exact readBasicBlock_code hcode quotes out rest
  · rw [he]
    exact readBasicBlock_plain hquote hbackslash (Or.inr hline) quotes out rest

/-- Writer and reader count the same quotes in a row, of which there are never more than two. -/
theorem readBasicBlock_escaped {rest : List Char} (hrest : rest.head? ≠ some '"') (s : List Char)
    {quotes : Nat} (hquotes : quotes ≤ 2) (out : List Char) :
    readBasicBlock (.text quotes false) out (escapeBlock quotes s ++ '"' :: '"' :: '"' :: rest) =
      some (String.ofList (out.reverse ++ List.replicate quotes '"' ++ s), rest) := by
  induction s generalizing quotes out with
  | nil =>
      rw [escapeBlock, List.nil_append, readBasicBlock_close hrest hquotes, List.append_nil]
  | cons c s ih =>
      rw [escapeBlock]
      split
      · rename_i hquote
        subst hquote
        split
        · rename_i hfew
          have hcount : List.replicate (quotes + 1) '"' ++ s = List.replicate quotes '"' ++ '"' :: s := by
            rw [List.replicate_succ', List.append_assoc]
            rfl
          rw [List.cons_append, readBasicBlock, if_pos rfl, if_neg (by omega), ih (by omega),
            List.append_assoc, hcount, List.append_assoc]
        · rw [List.cons_append, List.cons_append, readBasicBlock_named rfl, ih (by omega)]
          simp
      split
      · rename_i hquote hfeed
        rw [List.cons_append, readBasicBlock_plain hquote (by rw [hfeed]; decide) (Or.inl hfeed),
          ih (by omega)]
        simp
      · rename_i hquote _
        rw [List.append_assoc, readBasicBlock_escapeChar hquote, ih (by omega)]
        simp

/-! ### A block in single quotes -/

theorem best_le_longestRunFrom (c : Char) (run best : Nat) (s : List Char) :
    best ≤ longestRunFrom c run best s := by
  induction s generalizing run best with
  | nil => exact Nat.le_max_right run best
  | cons d s ih =>
      rw [longestRunFrom]
      split
      · exact ih (run + 1) best
      · exact Nat.le_trans (Nat.le_max_right run best) (ih 0 (max run best))

theorem run_le_longestRunFrom (c : Char) (run best : Nat) (s : List Char) :
    run ≤ longestRunFrom c run best s := by
  induction s generalizing run best with
  | nil => exact Nat.le_max_left run best
  | cons d s ih =>
      rw [longestRunFrom]
      split
      · exact Nat.le_trans (Nat.le_succ run) (ih (run + 1) best)
      · exact Nat.le_trans (Nat.le_max_left run best) (best_le_longestRunFrom c 0 (max run best) s)

theorem not_mem_of_longestRunFrom_eq_zero {c : Char} {run best : Nat} {s : List Char}
    (h : longestRunFrom c run best s = 0) : c ∉ s := by
  induction s generalizing run best with
  | nil => exact List.not_mem_nil
  | cons d s ih =>
      rw [longestRunFrom] at h
      split at h
      · have hrun := run_le_longestRunFrom c (run + 1) best s
        omega
      · rename_i hd
        rw [List.mem_cons, not_or]
        exact ⟨fun hc => hd hc.symm, ih h⟩

theorem readLiteralBlock_close {rest : List Char} (hrest : rest.head? ≠ some '\'') {quotes : Nat}
    (hquotes : quotes ≤ 2) (out : List Char) :
    readLiteralBlock quotes out ('\'' :: '\'' :: '\'' :: rest) =
      some (String.ofList (out.reverse ++ List.replicate quotes '\''), rest) := by
  have hclose := closeQuotes_replicate hrest hquotes out
  match quotes, hquotes with
  | 0, _ => simpa [readLiteralBlock] using hclose
  | 1, _ => simpa [readLiteralBlock] using hclose
  | 2, _ => simpa [readLiteralBlock, List.replicate_succ] using hclose

/-- No run of quotes in the text is as long as the closing one, so the reader never stops inside. -/
theorem readLiteralBlock_append {rest : List Char} (hrest : rest.head? ≠ some '\'') {s : List Char}
    (hs : ∀ c ∈ s, c = '\n' ∨ isLineChar c) {quotes best : Nat}
    (hruns : longestRunFrom '\'' quotes best s ≤ 2) (out : List Char) :
    readLiteralBlock quotes out (s ++ '\'' :: '\'' :: '\'' :: rest) =
      some (String.ofList (out.reverse ++ List.replicate quotes '\'' ++ s), rest) := by
  induction s generalizing quotes best out with
  | nil =>
      have hquotes := Nat.le_trans (run_le_longestRunFrom '\'' quotes best []) hruns
      rw [List.nil_append, readLiteralBlock_close hrest hquotes, List.append_nil]
  | cons c s ih =>
      have hheld : (decide (c = '\n') || isLineChar c) = true := by simpa using hs c List.mem_cons_self
      have htail : ∀ d ∈ s, d = '\n' ∨ isLineChar d := fun d hd => hs d (List.mem_cons_of_mem c hd)
      rw [longestRunFrom] at hruns
      rw [List.cons_append, readLiteralBlock]
      split at hruns
      · rename_i hquote
        have hfew := Nat.le_trans (run_le_longestRunFrom '\'' (quotes + 1) best s) hruns
        rw [if_pos hquote, if_neg (by omega), ih htail hruns, List.replicate_succ', hquote]
        simp
      · rename_i hquote
        rw [if_neg hquote, if_pos hheld, ih htail hruns]
        simp

/-! ### The choice of form -/

theorem isLineChar_of_not_isControl {c : Char} (h : ¬ isControl c) : c = '\n' ∨ isLineChar c := by
  simp only [isControl, Bool.or_eq_true, Bool.and_eq_true, decide_eq_true_eq, not_or, not_and,
    not_not, ne_eq] at h
  simp only [isLineChar, Bool.or_eq_true, Bool.and_eq_true, decide_eq_true_eq]
  by_cases htab : c = '\t'
  · exact Or.inr (Or.inl htab)
  by_cases hlow : c.toNat < 0x20
  · exact Or.inl (h.1 ⟨hlow, htab⟩)
  · exact Or.inr (Or.inr ⟨by omega, h.2⟩)

/-- The forms in double quotes are open to every text. A form in single quotes is chosen only for texts
that need no escape in it. -/
theorem quoting_cases (s : List Char) :
    quoting s = .basic ∨ quoting s = .basicBlock ∨
    (quoting s = .literal ∧ ∀ c ∈ s, c ≠ '\'' ∧ isLineChar c) ∨
    (quoting s = .literalBlock ∧ longestRun '\'' s ≤ 2 ∧ ∀ c ∈ s, c = '\n' ∨ isLineChar c) := by
  have hplain (h : (!s.any isControl) = true) : ∀ c ∈ s, c = '\n' ∨ isLineChar c := by
    intro c hc
    rw [Bool.not_eq_true', List.any_eq_false] at h
    exact isLineChar_of_not_isControl (h c hc)
  simp only [quoting]
  split
  · exact Or.inl rfl
  split
  · rename_i h
    simp only [Bool.and_eq_true, decide_eq_true_eq] at h
    obtain ⟨⟨hcontrol, hsingles⟩, hfeed⟩ := h
    refine Or.inr (Or.inr (Or.inl ⟨rfl, fun c hc => ⟨?_, ?_⟩⟩))
    · exact fun hquote => not_mem_of_longestRunFrom_eq_zero hsingles (hquote ▸ hc)
    · exact (hplain hcontrol c hc).resolve_left fun h => hfeed (h ▸ hc)
  split
  · exact Or.inr (Or.inl rfl)
  split
  · rename_i h
    simp only [Bool.and_eq_true, decide_eq_true_eq] at h
    exact Or.inr (Or.inr (Or.inr ⟨rfl, h.2, hplain h.1⟩))
  split
  · exact Or.inr (Or.inl rfl)
  · exact Or.inl rfl

/-! ### All forms -/

theorem readString_basic {cs : List Char} (h : cs.take 2 ≠ ['"', '"']) :
    readString ('"' :: cs) = readBasic .plain [] cs := by
  rcases cs with _ | ⟨a, _ | ⟨b, cs⟩⟩
  · simp [readString]
  · simp [readString]
  · rw [readString]
    rintro rest ⟨rfl, rfl, rfl⟩
    exact h rfl

theorem readString_literal {cs : List Char} (h : cs.take 2 ≠ ['\'', '\'']) :
    readString ('\'' :: cs) = readLiteral [] cs := by
  rcases cs with _ | ⟨a, _ | ⟨b, cs⟩⟩
  · simp [readString]
  · simp [readString]
  · rw [readString]
    rintro rest ⟨rfl, rfl, rfl⟩
    exact h rfl

theorem take_two_ne {quote : Char} {text rest : List Char} (htext : text.head? ≠ some quote)
    (hrest : rest.head? ≠ some quote) : (text ++ quote :: rest).take 2 ≠ [quote, quote] := by
  cases text with
  | nil => cases rest <;> simp_all
  | cons a text => simp_all

theorem dropLineFeed_blockStart {s text : List Char} (h : text.head? = some '\n' → '\n' ∈ s) :
    dropLineFeed (blockStart s ++ text) = text := by
  unfold blockStart
  split
  · rfl
  · rename_i hfeed
    rw [List.nil_append]
    unfold dropLineFeed
    split
    · exact absurd (h rfl) hfeed
    · rfl

theorem head?_escapeLineChar_ne (c : Char) (rest : List Char) :
    (escapeLineChar c ++ rest).head? ≠ some '"' := by
  unfold escapeLineChar
  split
  · simp
  split
  · simp
  · rename_i hquote _
    rcases escapeChar_cases hquote with ⟨e, he, -⟩ | ⟨he, -⟩ | ⟨he, -⟩ <;> simp [he, hquote]

theorem mem_of_head?_escapeBlock {s rest : List Char} {quotes : Nat}
    (h : (escapeBlock quotes s ++ '"' :: rest).head? = some '\n') : '\n' ∈ s := by
  cases s with
  | nil => simp [escapeBlock] at h
  | cons c s =>
      rw [escapeBlock] at h
      split at h
      · rename_i hquote
        split at h <;> simp [hquote] at h
      split at h
      · rename_i hfeed
        rw [hfeed]
        exact List.mem_cons_self
      · rename_i hquote hfeed
        rcases escapeChar_cases hquote with ⟨e, he, -⟩ | ⟨he, -⟩ | ⟨he, -⟩ <;> simp_all

/-- A written string reads back, in front of anything but one more quote. -/
theorem readString_writeString (s : List Char) {rest : List Char} (hdouble : rest.head? ≠ some '"')
    (hsingle : rest.head? ≠ some '\'') :
    readString (writeString s ++ rest) = some (String.ofList s, rest) := by
  unfold writeString
  rcases quoting_cases s with hform | hform | ⟨hform, hline⟩ | ⟨hform, hruns, hline⟩
  · have htext : (s.flatMap escapeLineChar).head? ≠ some '"' := by
      cases s with
      | nil => simp
      | cons c s => exact head?_escapeLineChar_ne c (s.flatMap escapeLineChar)
    simp only [hform, List.cons_append, List.append_assoc, List.nil_append]
    rw [readString_basic (take_two_ne htext hdouble), readBasic_escaped]
    rfl
  · simp only [hform, List.cons_append, List.append_assoc, List.nil_append]
    rw [readString, dropLineFeed_blockStart mem_of_head?_escapeBlock,
      readBasicBlock_escaped hdouble s (Nat.zero_le 2)]
    rfl
  · have htext : s.head? ≠ some '\'' := fun h => (hline '\'' (List.mem_of_mem_head? h)).1 rfl
    simp only [hform, List.cons_append, List.append_assoc, List.nil_append]
    rw [readString_literal (take_two_ne htext hsingle), readLiteral_append hline]
    rfl
  · have hhead : (s ++ '\'' :: '\'' :: '\'' :: rest).head? = some '\n' → '\n' ∈ s := by
      cases s with
      | nil => simp
      | cons c s => simp_all
    simp only [hform, List.cons_append, List.append_assoc, List.nil_append]
    rw [readString, dropLineFeed_blockStart hhead, readLiteralBlock_append hsingle hline hruns]
    rfl

/-! ### Carriage returns -/

theorem capitalDigit_ne_return {n : Nat} (h : n < 16) : capitalDigit n ≠ '\r' := by
  intro hreturn
  have hvalue := hexValue?_capitalDigit n h
  rw [hreturn] at hvalue
  cases hvalue

theorem return_not_mem_escapeChar {c : Char} (hquote : c ≠ '"') : '\r' ∉ escapeChar c := by
  rcases escapeChar_cases hquote with ⟨e, he, hnamed⟩ | ⟨he, hcode⟩ | ⟨he, -, -, hline⟩
  · have hreturn : e ≠ '\r' := by
      rintro rfl
      cases hnamed
    simp [he, hreturn.symm]
  · have hhigh := capitalDigit_ne_return (n := c.toNat / 16) (by omega)
    have hlow := capitalDigit_ne_return (n := c.toNat % 16) (by omega)
    simp [he, hhigh.symm, hlow.symm]
  · have hreturn : c ≠ '\r' := by
      rintro rfl
      cases hline
    simp [he, hreturn.symm]

theorem return_not_mem_escapeLineChar (c : Char) : '\r' ∉ escapeLineChar c := by
  unfold escapeLineChar
  split
  · decide
  split
  · decide
  · exact return_not_mem_escapeChar ‹_›

theorem return_not_mem_escapeBlock (quotes : Nat) (s : List Char) : '\r' ∉ escapeBlock quotes s := by
  induction s generalizing quotes with
  | nil => exact List.not_mem_nil
  | cons c s ih =>
      rw [escapeBlock]
      split
      · rename_i hquote
        split <;> simp [hquote, ih]
      split
      · rename_i hfeed
        simp [hfeed, ih]
      · rename_i hquote _
        rw [List.mem_append, not_or]
        exact ⟨return_not_mem_escapeChar hquote, ih 0⟩

/-- A written string holds no carriage return, so making line ends single line feeds leaves it alone. -/
theorem return_not_mem_writeString (s : List Char) : '\r' ∉ writeString s := by
  have hstart : '\r' ∉ blockStart s := by
    unfold blockStart
    split <;> decide
  unfold writeString
  rcases quoting_cases s with hform | hform | ⟨hform, hline⟩ | ⟨hform, -, hline⟩
  · simpa [hform] using fun c _ => return_not_mem_escapeLineChar c
  · simp [hform, hstart, return_not_mem_escapeBlock]
  · have hs : '\r' ∉ s := fun h => absurd (hline '\r' h).2 (by decide)
    simp [hform, hs]
  · have hs : '\r' ∉ s := fun h => absurd (hline '\r' h) (by decide)
    simp [hform, hstart, hs]

end TreeWalk.Toml
