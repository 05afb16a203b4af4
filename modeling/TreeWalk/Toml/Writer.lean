/-!
Writing TOML strings. The form is the first that shows the text best: a line in double quotes if nothing
needs an escape, a line in single quotes, a block in three double quotes or in three single quotes, and
only then an escaped form. Blocks of texts with line feeds start on a line of their own.
-/

namespace TreeWalk.Toml

/-- Controls that no unescaped form can hold. -/
def isControl (c : Char) : Bool :=
  (c.toNat < 0x20 && c ≠ '\t' && c ≠ '\n') || c.toNat = 0x7F

/-- The length of the longest run of a character, given the run that has just ended and the longest one
before. -/
def longestRunFrom (c : Char) : Nat → Nat → List Char → Nat
  | run, best, [] => max run best
  | run, best, d :: rest =>
      if d = c then longestRunFrom c (run + 1) best rest else longestRunFrom c 0 (max run best) rest

/-- The length of the longest run of a character. -/
def longestRun (c : Char) (s : List Char) : Nat := longestRunFrom c 0 0 s

/-- The four ways to quote a string. -/
inductive Quoting where
  | basic
  | literal
  | basicBlock
  | literalBlock
deriving DecidableEq, Repr

/-- The form in which a string is written. -/
def quoting (s : List Char) : Quoting :=
  let plain := !s.any isControl
  let noBackslash := '\\' ∉ s
  let oneLine := '\n' ∉ s
  let doubles := longestRun '"' s
  let singles := longestRun '\'' s
  if plain && noBackslash && doubles = 0 && oneLine then .basic
  else if plain && singles = 0 && oneLine then .literal
  else if plain && noBackslash && doubles ≤ 2 then .basicBlock
  else if plain && singles ≤ 2 then .literalBlock
  else if !oneLine then .basicBlock
  else .basic

/-- A digit in base 16, with capital letters. -/
def capitalDigit (n : Nat) : Char := (Nat.digitChar n).toUpper

/-- A character between double quotes, other than a quote or a line feed. -/
def escapeChar (c : Char) : List Char :=
  if c = '\\' then ['\\', '\\']
  else if c = '\t' then ['\\', 't']
  else if c = '\r' then ['\\', 'r']
  else if c = '\x08' then ['\\', 'b']
  else if c = '\x0c' then ['\\', 'f']
  else if c.toNat < 0x20 || c.toNat = 0x7F then
    ['\\', 'u', '0', '0', capitalDigit (c.toNat / 16), capitalDigit (c.toNat % 16)]
  else [c]

/-- A character of a line in double quotes. -/
def escapeLineChar (c : Char) : List Char :=
  if c = '"' then ['\\', '"'] else if c = '\n' then ['\\', 'n'] else escapeChar c

/-- The text of a block in three double quotes, behind `quotes` quotes in a row: of three in a row the
last one is escaped. -/
def escapeBlock : Nat → List Char → List Char
  | _, [] => []
  | quotes, c :: rest =>
      if c = '"' then
        if quotes < 2 then c :: escapeBlock (quotes + 1) rest
        else '\\' :: '"' :: escapeBlock 0 rest
      else if c = '\n' then c :: escapeBlock 0 rest
      else escapeChar c ++ escapeBlock 0 rest

/-- The line feed that a block starts with if its text has any. -/
def blockStart (s : List Char) : List Char := if '\n' ∈ s then ['\n'] else []

/-- A string in its form. -/
def writeString (s : List Char) : List Char :=
  match quoting s with
  | .basic => '"' :: s.flatMap escapeLineChar ++ ['"']
  | .literal => '\'' :: s ++ ['\'']
  | .basicBlock => ['"', '"', '"'] ++ blockStart s ++ escapeBlock 0 s ++ ['"', '"', '"']
  | .literalBlock => ['\'', '\'', '\''] ++ blockStart s ++ s ++ ['\'', '\'', '\'']

/-- A line that gives a key its value. -/
def writeField (key : String) (value : List Char) : List Char :=
  key.toList ++ [' ', '=', ' '] ++ value ++ ['\n']

end TreeWalk.Toml
