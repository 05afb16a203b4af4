import TreeWalk.Decimal
import TreeWalk.Settings.Basic
import TreeWalk.Text.Basic
import TreeWalk.Text.Lower

/-!
Settings from environment variables. A variable whose name starts with `ASTWALK_`, in letters of any
case, sets the key behind that; a key may go on with parts behind dots and positions in brackets, and
then it makes a map or a sequence of its first part. A value that looks like a boolean, an integer or a
floating-point number is one, and is turned back into text where text is wanted.
-/

namespace TreeWalk

/-- The variables of a process, by name. -/
abbrev Environment : Type := List (String × String)

/-- The value of a variable, nothing if it is not set. -/
def Environment.get? (env : Environment) (name : String) : Option String :=
  (env.reverse.find? fun (n, _) => n = name).map (·.2)

/-- The environment that a block describes: entries ended by NUL, each a name and a value around its
first equals sign. -/
def Environment.ofBlock (block : String) : Environment :=
  (Text.splitAt '\x00' block.toList).filterMap fun entry =>
    match entry.dropWhile (· ≠ '=') with
    | [] => none
    | _ :: value => some (String.ofList (entry.takeWhile (· ≠ '=')), String.ofList value)

/-- What a key of the environment holds. -/
inductive EnvValue where
  | boolean (b : Bool)
  | integer (n : Int)
  | float (x : Double)
  | text (s : String)
  | map
  | sequence
deriving DecidableEq, Repr

/-- What is wrong with a setting from the environment. -/
inductive EnvError where
  | unknownOrder (unknown : Order.Unknown)
  /-- A text that is no value of the wanted type. -/
  | badText (text wanted key : String)
  /-- A map or a sequence, as `found` says, in place of a value. -/
  | badShape (found wanted key : String)
  | negativeWidth (n : Int)
deriving DecidableEq, Repr

def EnvError.message : EnvError → String
  | unknownOrder unknown => unknown.message
  | badText text wanted key =>
      "invalid type: string " ++ Text.quote text ++ ", expected " ++ wanted ++ " for key `" ++ key
        ++ "` in the environment"
  | badShape found wanted key =>
      "invalid type: " ++ found ++ ", expected " ++ wanted ++ " for key `" ++ key ++ "`"
  | negativeWidth n => "indent_width must not be negative: " ++ toString n

namespace EnvValue

/-- The value that a variable's text looks like. -/
def ofText (s : String) : EnvValue :=
  let word := Text.lower s
  if word = "true" then boolean true
  else if word = "false" then boolean false
  else
    match (Decimal.parseInt? s.toList).filter Decimal.fitsInt64 with
    | some n => integer n
    | none =>
        match Decimal.parseDouble? s.toList with
        | some x => float x
        | none => text s

/-- The value as text. -/
def toText? : EnvValue → Option String
  | boolean b => some (toString b)
  | integer n => some (toString n)
  | float x => some x.toText
  | text s => some s
  | map => none
  | sequence => none

def yesWords : List String := ["true", "on", "yes"]

def noWords : List String := ["false", "off", "no"]

/-- The value as a boolean. -/
def toBool (key : String) : EnvValue → Except EnvError Bool
  | boolean b => .ok b
  | integer n => .ok (n ≠ 0)
  | float x => .ok x.isNonzero
  | text s =>
      let word := Text.lower s
      if word = "1" || word ∈ yesWords then .ok true
      else if word = "0" || word ∈ noWords then .ok false
      else .error (.badText word "a boolean" key)
  | map => .error (.badShape "map" "a boolean" key)
  | sequence => .error (.badShape "sequence" "a boolean" key)

/-- The value as an integer. -/
def toInt (key : String) : EnvValue → Except EnvError Int
  | boolean b => .ok (if b then 1 else 0)
  | integer n => .ok n
  | float x => .ok x.toInt64
  | text s =>
      let word := Text.lower s
      if word ∈ yesWords then .ok 1
      else if word ∈ noWords then .ok 0
      else .error (.badText s "an integer" key)
  | map => .error (.badShape "map" "an integer" key)
  | sequence => .error (.badShape "sequence" "an integer" key)

end EnvValue

namespace Environment

/-- What the names of the variables start with, in small letters. -/
def variableStart : List Char := "astwalk_".toList

/-- Characters of a part of a key. -/
def isKeyChar (c : Char) : Bool := c.isAlphanum || c = ' ' || c = '_' || c = '-'

def isKeyBlank (c : Char) : Bool := c = ' ' || c = '\t' || c = '\n' || c = '\r'

/-- Reads a position in brackets, behind the opening one: digits, perhaps behind a minus, with blanks
around them. -/
def readPosition? (cs : List Char) : Option (List Char) :=
  let cs := cs.dropWhile isKeyBlank
  let (negative, cs) :=
    match cs with
    | '-' :: rest => (true, rest)
    | _ => (false, cs)
  let digits := cs.takeWhile Char.isDigit
  let n : Int := Decimal.digitsToNat digits
  if digits.isEmpty || !Decimal.fitsInt64 (if negative then -n else n) then none
  else
    match (cs.dropWhile Char.isDigit).dropWhile isKeyBlank with
    | ']' :: rest => some rest
    | _ => none

/-- Whether a key goes on with parts and positions up to its end; `fuel` is at least the length of the
text. -/
def isKeyTail : Nat → List Char → Bool
  | _, [] => true
  | 0, _ => false
  | fuel + 1, '.' :: rest =>
      !(rest.takeWhile isKeyChar).isEmpty && isKeyTail fuel (rest.dropWhile isKeyChar)
  | fuel + 1, '[' :: rest =>
      match readPosition? rest with
      | some rest => isKeyTail fuel rest
      | none => false
  | _, _ => false

/-- The first part of a key and what the key makes of it: the value itself, a map or a sequence. A key
that cannot be cut into parts is one part. -/
def splitKey (key : List Char) (v : EnvValue) : List Char × EnvValue :=
  let first := key.takeWhile isKeyChar
  let rest := key.dropWhile isKeyChar
  if first.isEmpty || !isKeyTail rest.length rest then (key, v)
  else
    match rest with
    | [] => (first, v)
    | '.' :: _ => (first, .map)
    | _ => (first, .sequence)

/-- The key and value that a variable sets, if its name is one of ours. -/
def binding? (name value : String) : Option (List Char × EnvValue) :=
  let small := (Text.lower name).toList
  if variableStart.isPrefixOf small then
    some (splitKey (small.drop variableStart.length) (.ofText value))
  else none

/-- The value of a key; of several variables for it the last one counts. Where these differ behind the key, as
`ASTWALK_ORDER` and `ASTWALK_ORDER.X` do, an environment does not determine which of them is taken last, and
their order in the list is one of the possible ones. -/
def setting? (env : Environment) (key : String) : Option EnvValue :=
  (env.reverse.findSome? fun (name, value) =>
    (binding? name value).bind fun (k, v) => if k = key.toList then some v else none)

/-- Replaces each backslash followed by `letter` with the character `replacement`. -/
def replaceEscape (letter replacement : Char) : List Char → List Char
  | [] => []
  | [c] => [c]
  | c :: d :: rest =>
      if c = '\\' && d = letter then replacement :: replaceEscape letter replacement rest
      else c :: replaceEscape letter replacement (d :: rest)

/-- Turns `\n` and `\t` into a line feed and a tab. -/
def unescape (s : String) : String :=
  String.ofList (replaceEscape 't' '\t' (replaceEscape 'n' '\n' s.toList))

/-- The order that the environment sets. What is no text sets none. -/
def order? (env : Environment) : Except EnvError (Option Order) :=
  match (env.setting? "order").bind EnvValue.toText? with
  | none => .ok none
  | some text =>
      match Order.parse text with
      | .ok order => .ok (some order)
      | .error unknown => .error (.unknownOrder unknown)

def indent? (env : Environment) : Except EnvError (Option Bool) :=
  match env.setting? "indent" with
  | none => .ok none
  | some v => (v.toBool "indent").map some

def indentWidth? (env : Environment) : Except EnvError (Option UInt64) :=
  match env.setting? "indent_width" with
  | none => .ok none
  | some v =>
      match v.toInt "indent_width" with
      | .error e => .error e
      | .ok n => if 0 ≤ n then .ok (some (UInt64.ofNat n.toNat)) else .error (.negativeWidth n)

/-- The separator that the environment sets. What is no text sets none. -/
def separator? (env : Environment) : Option String :=
  ((env.setting? "separator").bind EnvValue.toText?).map unescape

/-- The layer that the environment sets; the first setting in the order of the fields that is wrong
decides. -/
def layer (env : Environment) : Except EnvError Layer := do
  let order ← env.order?
  let indent ← env.indent?
  let indentWidth ← env.indentWidth?
  .ok { order, indent, indentWidth, separator := env.separator? }

end Environment

end TreeWalk
