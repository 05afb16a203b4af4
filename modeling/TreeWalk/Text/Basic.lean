/-!
Texts: sets of characters, cutting a text at a character, and the blanks at its ends.
-/

namespace TreeWalk.Text

/-! ### Sets of characters

Sets of code points as sorted, disjoint ranges, the form in which the tables of character properties
are written. -/

/-- Whether a number lies in one of the ranges; both ends of a range belong to it. -/
def inRanges (ranges : Array (Nat × Nat)) (n : Nat) : Bool :=
  ranges.any fun (first, last) => first ≤ n && n ≤ last

/-! ### Cutting texts

Cutting texts at a character. -/

/-- The texts between the occurrences of a character, one more than there are occurrences. -/
def splitAt (separator : Char) : List Char → List (List Char)
  | [] => [[]]
  | c :: rest =>
      if c = separator then [] :: splitAt separator rest
      else
        match splitAt separator rest with
        | [] => [[c]]
        | first :: more => (c :: first) :: more

theorem splitAt_ne_nil (separator : Char) (cs : List Char) : splitAt separator cs ≠ [] := by
  fun_cases splitAt separator cs <;> simp

/-- The first text starts as the whole text does. -/
theorem splitAt_cons_of_ne {separator c : Char} (hc : c ≠ separator) (cs : List Char) :
    ∃ first more, splitAt separator cs = first :: more ∧
      splitAt separator (c :: cs) = (c :: first) :: more := by
  obtain ⟨first, more, hsplit⟩ := List.exists_cons_of_ne_nil (splitAt_ne_nil separator cs)
  refine ⟨first, more, hsplit, ?_⟩
  rw [splitAt, if_neg hc, hsplit]

theorem eq_nil_or_of_splitAt {separator : Char} {cs : List Char} {more : List (List Char)}
    (h : splitAt separator cs = [] :: more) : cs = [] ∨ ∃ rest, cs = separator :: rest := by
  cases cs with
  | nil => exact Or.inl rfl
  | cons c rest =>
      by_cases hc : c = separator
      · exact Or.inr ⟨rest, by rw [hc]⟩
      · obtain ⟨first, more', -, hsplit⟩ := splitAt_cons_of_ne hc rest
        rw [hsplit] at h
        cases h

/-- A line without the carriage return at its end. -/
def dropReturn (line : List Char) : List Char :=
  if line.getLast? = some '\r' then line.dropLast else line

/-- The lines of a text. A line ends at a line feed, perhaps with a carriage return before it; the last
one may end with the text. -/
def splitLines (s : String) : List String :=
  let pieces := splitAt '\n' s.toList
  let ended := pieces.dropLast.map dropReturn
  let unended := pieces.getLast?.filter (· ≠ [])
  (ended ++ unended.toList).map String.ofList

/-! ### Blanks

Blank characters, those with the Unicode property White_Space, and the texts without them at their
ends. -/

/-- The Unicode property White_Space. -/
def isBlank (c : Char) : Bool :=
  let n := c.toNat
  (0x9 ≤ n && n ≤ 0xD) || n == 0x20 || n == 0x85 || n == 0xA0 || n == 0x1680
    || (0x2000 ≤ n && n ≤ 0x200A) || n == 0x2028 || n == 0x2029 || n == 0x202F || n == 0x205F
    || n == 0x3000

/-- The text without the blanks at its end. -/
def trimEnd (s : String) : String :=
  String.ofList (s.toList.reverse.dropWhile isBlank).reverse

/-- The text without the blanks at either end. -/
def trim (s : String) : String :=
  String.ofList ((s.toList.dropWhile isBlank).reverse.dropWhile isBlank).reverse

/-- The text with the capital letters A to Z made small. -/
def lowerLatin (s : String) : String := String.ofList (s.toList.map Char.toLower)

end TreeWalk.Text
