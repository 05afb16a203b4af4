import TreeWalk.Decimal
import TreeWalk.Text.Quoted

/-!
TOML values, and how one can fail to be what a reader of it wants.
-/

namespace TreeWalk.Toml

/-! ### Values

TOML values. A table keeps its entries in the order in which they were made, with each key once. An
array that headers made of tables is kept apart from one that was written in brackets. -/

inductive Value where
  | string (s : String)
  | integer (n : Int)
  | float (x : Double)
  | boolean (b : Bool)
  /-- A date, a time or both, as written. -/
  | datetime (text : String)
  | array (items : List Value)
  | table (entries : List (String × Value))
  | tables (rows : List (List (String × Value)))
deriving Repr

/-- The entries of a table. -/
abbrev Table : Type := List (String × Value)

namespace Value

/-- The value in a message about its type. A date or time shows as the map it is carried by. -/
def found : Value → String
  | string s => "string " ++ Text.quote s
  | integer n => "integer `" ++ toString n ++ "`"
  | float x => "floating point `" ++ x.toPointText ++ "`"
  | boolean b => "boolean `" ++ toString b ++ "`"
  | datetime _ => "map"
  | array _ => "sequence"
  | table _ => "map"
  | tables _ => "sequence"

/-- The name of the value's type. -/
def typeName : Value → String
  | string _ => "string"
  | integer _ => "integer"
  | float _ => "float"
  | boolean _ => "boolean"
  | datetime _ => "datetime"
  | array _ => "array"
  | table _ => "table"
  | tables _ => "array of tables"

end Value

/-! ### Mismatches

How a TOML value can fail to be what a reader of it wants. -/

inductive Mismatch where
  /-- A value of another type than the wanted one. -/
  | wrongType (found : Value) (wanted : String)
  /-- A value of the wanted type out of its bounds. -/
  | outOfBounds (found : Value) (wanted : String)
  | missingField (name : String)
  | tooShort (length : Nat) (wanted : String)
  | unknownField (name : String) (known : List String)
  | unknownVariant (name : String) (known : List String)
  | notStringOrTable
  | notOneEntry (found : Nat)
  /-- A variant holds a value that is no table. -/
  | notTable (found : Value)
  /-- A variant holds something in a table or array. -/
  | notEmptyTable
  /-- A variant holds something in an array of tables. -/
  | notEmptyArray
deriving Repr

/-- Names in backquotes, one after the other. -/
def backquoted (names : List String) : String :=
  ", ".intercalate (names.map fun name => "`" ++ name ++ "`")

namespace Mismatch

def message : Mismatch → String
  | wrongType found wanted => "invalid type: " ++ found.found ++ ", expected " ++ wanted
  | outOfBounds found wanted => "invalid value: " ++ found.found ++ ", expected " ++ wanted
  | missingField name => "missing field `" ++ name ++ "`"
  | tooShort length wanted => "invalid length " ++ toString length ++ ", expected " ++ wanted
  | unknownField name known =>
      "unknown field `" ++ name ++ "`, expected one of " ++ backquoted known
  | unknownVariant name known =>
      "unknown variant `" ++ name ++ "`, expected one of " ++ backquoted known
  | notStringOrTable => "wanted string or table"
  | notOneEntry found =>
      if found = 0 then "wanted exactly 1 element, found 0 elements"
      else "wanted exactly 1 element, more than 1 element"
  | notTable found => "expected table, found " ++ found.typeName
  | notEmptyTable => "expected empty table"
  | notEmptyArray => "expected empty array"

end Mismatch

/-- The text of a string value. -/
def Value.asString : Value → Except Mismatch String
  | .string s => .ok s
  | v => .error (.wrongType v "a string")

/-- Why a text does not describe what it should: it is no TOML, or its values do not fit. -/
inductive ReadError where
  | notToml
  | mismatch (mismatch : Mismatch)
deriving Repr

def ReadError.message : ReadError → String
  | notToml => "<toml syntax error>"
  | mismatch m => m.message

end TreeWalk.Toml
