/-!
Reading TOML strings. Each reader starts behind the opening quotes, goes over the text one character at
a time, and gives the string and what stands behind the closing quotes. Line ends are single line
feeds by then. The text read so far is carried along with its last character first.
-/

namespace TreeWalk.Toml

/-- Characters that may stand in a line: all but the controls, of which the tab is allowed. -/
def isLineChar (c : Char) : Bool := c = '\t' || (0x20 ≤ c.toNat && c.toNat ≠ 0x7F)

def isSpace (c : Char) : Bool := c = ' ' || c = '\t'

/-- The character that a backslash and a letter stand for. -/
def namedEscape? (c : Char) : Option Char :=
  if c = 'b' then some '\x08'
  else if c = 't' then some '\t'
  else if c = 'n' then some '\n'
  else if c = 'f' then some '\x0c'
  else if c = 'r' then some '\r'
  else if c = '"' then some '"'
  else if c = '\\' then some '\\'
  else none

/-- How many digits follow a backslash and one of the two letters for a character number. -/
def codeLength? (c : Char) : Option Nat :=
  if c = 'u' then some 4 else if c = 'U' then some 8 else none

/-- The value of a digit in base 16. -/
def hexValue? (c : Char) : Option Nat :=
  if '0' ≤ c && c ≤ '9' then some (c.toNat - '0'.toNat)
  else if 'a' ≤ c && c ≤ 'f' then some (c.toNat - 'a'.toNat + 10)
  else if 'A' ≤ c && c ≤ 'F' then some (c.toNat - 'A'.toNat + 10)
  else none

/-- The character with a number, if there is one: surrogates and numbers past the end have none. -/
def codeChar? (n : Nat) : Option Char :=
  if n < 0xD800 || (0xDFFF < n && n < 0x110000) then some (Char.ofNat n) else none

/-- Where the reader of a quoted line is: in plain text, behind a backslash, or in a character number
with some digits missing. -/
inductive LineMode where
  | plain
  | escape
  | code (missing value : Nat)
deriving DecidableEq, Repr

/-- Reads a string in double quotes on one line. -/
def readBasic : LineMode → List Char → List Char → Option (String × List Char)
  | _, _, [] => none
  | .plain, out, c :: rest =>
      if c = '"' then some (String.ofList out.reverse, rest)
      else if c = '\\' then readBasic .escape out rest
      else if isLineChar c then readBasic .plain (c :: out) rest
      else none
  | .escape, out, c :: rest =>
      match namedEscape? c, codeLength? c with
      | some d, _ => readBasic .plain (d :: out) rest
      | none, some n => readBasic (.code n 0) out rest
      | none, none => none
  | .code missing value, out, c :: rest =>
      match hexValue? c with
      | none => none
      | some digit =>
          if missing ≤ 1 then
            match codeChar? (16 * value + digit) with
            | none => none
            | some d => readBasic .plain (d :: out) rest
          else readBasic (.code (missing - 1) (16 * value + digit)) out rest

/-- Reads a string in single quotes on one line. -/
def readLiteral : List Char → List Char → Option (String × List Char)
  | _, [] => none
  | out, c :: rest =>
      if c = '\'' then some (String.ofList out.reverse, rest)
      else if isLineChar c then readLiteral (c :: out) rest
      else none

/-- Up to two more quotes directly behind three closing ones belong to the string. -/
def closeQuotes (quote : Char) (out rest : List Char) : String × List Char :=
  match rest with
  | a :: b :: tail =>
      if a = quote && b = quote then (String.ofList (quote :: quote :: out).reverse, tail)
      else if a = quote then (String.ofList (quote :: out).reverse, b :: tail)
      else (String.ofList out.reverse, rest)
  | [a] =>
      if a = quote then (String.ofList (quote :: out).reverse, [])
      else (String.ofList out.reverse, rest)
  | [] => (String.ofList out.reverse, [])

/-- Where the reader of a block in double quotes is: in text behind some quotes that may be the first
of the closing ones, perhaps with blanks being passed over; behind a backslash; behind a backslash and
blanks, which only the end of the line may follow; or in a character number. -/
inductive BlockMode where
  | text (quotes : Nat) (trimming : Bool)
  | escape
  | blank
  | code (missing value : Nat)
deriving DecidableEq, Repr

/-- Reads a string in three double quotes. A backslash at the end of a line passes over all blanks and
line feeds behind it. -/
def readBasicBlock : BlockMode → List Char → List Char → Option (String × List Char)
  | _, _, [] => none
  | .text quotes trimming, out, c :: rest =>
      if c = '"' then
        if 2 ≤ quotes then some (closeQuotes '"' out rest)
        else readBasicBlock (.text (quotes + 1) false) out rest
      else if trimming && (isSpace c || c = '\n') then readBasicBlock (.text 0 true) out rest
      else
        let out := List.replicate quotes '"' ++ out
        if c = '\\' then readBasicBlock .escape out rest
        else if c = '\n' || isLineChar c then readBasicBlock (.text 0 false) (c :: out) rest
        else none
  | .escape, out, c :: rest =>
      match namedEscape? c, codeLength? c with
      | some d, _ => readBasicBlock (.text 0 false) (d :: out) rest
      | none, some n => readBasicBlock (.code n 0) out rest
      | none, none =>
          if c = '\n' then readBasicBlock (.text 0 true) out rest
          else if isSpace c then readBasicBlock .blank out rest
          else none
  | .blank, out, c :: rest =>
      if c = '\n' then readBasicBlock (.text 0 true) out rest
      else if isSpace c then readBasicBlock .blank out rest
      else none
  | .code missing value, out, c :: rest =>
      match hexValue? c with
      | none => none
      | some digit =>
          if missing ≤ 1 then
            match codeChar? (16 * value + digit) with
            | none => none
            | some d => readBasicBlock (.text 0 false) (d :: out) rest
          else readBasicBlock (.code (missing - 1) (16 * value + digit)) out rest

/-- Reads a string in three single quotes, behind some quotes that may be the first of the closing
ones. -/
def readLiteralBlock : Nat → List Char → List Char → Option (String × List Char)
  | _, _, [] => none
  | quotes, out, c :: rest =>
      if c = '\'' then
        if 2 ≤ quotes then some (closeQuotes '\'' out rest)
        else readLiteralBlock (quotes + 1) out rest
      else if c = '\n' || isLineChar c then
        readLiteralBlock 0 (c :: (List.replicate quotes '\'' ++ out)) rest
      else none

/-- A line feed directly behind the opening quotes of a block does not count. -/
def dropLineFeed : List Char → List Char
  | '\n' :: rest => rest
  | rest => rest

/-- Reads a string of any of the four forms. -/
def readString : List Char → Option (String × List Char)
  | '"' :: '"' :: '"' :: rest => readBasicBlock (.text 0 false) [] (dropLineFeed rest)
  | '"' :: rest => readBasic .plain [] rest
  | '\'' :: '\'' :: '\'' :: rest => readLiteralBlock 0 [] (dropLineFeed rest)
  | '\'' :: rest => readLiteral [] rest
  | _ => none

end TreeWalk.Toml
