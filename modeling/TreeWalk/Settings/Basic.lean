import TreeWalk.Toml.Reader
import TreeWalk.Toml.Value
import TreeWalk.Walk

/-!
Settings, which say how a walk is listed, and the layers that they are put together from.
-/

namespace TreeWalk

/-! ### Settings

Settings: how a walk is listed. -/

structure Settings where
  /-- The order of a walk for which none is asked. -/
  order : Order := .pre
  /-- Whether labels are indented by depth. -/
  indent : Bool := false
  /-- Spaces per step down, a 64-bit word. -/
  indentWidth : UInt64 := 2
  /-- What stands between two labels. -/
  separator : String := "\n"
deriving DecidableEq, Repr

/-! ### Layers

Layers of settings. A layer sets some of the settings and leaves the others to the layers below it. A
settings file is a TOML table of the four settings and nothing else. -/

/-- Settings of which each may be left open. -/
structure Layer where
  order : Option Order := none
  indent : Option Bool := none
  indentWidth : Option UInt64 := none
  separator : Option String := none
deriving DecidableEq, Repr

/-- The settings with those of a layer in their place. -/
def Settings.overlay (settings : Settings) (layer : Layer) : Settings where
  order := layer.order.getD settings.order
  indent := layer.indent.getD settings.indent
  indentWidth := layer.indentWidth.getD settings.indentWidth
  separator := layer.separator.getD settings.separator

namespace Layer

open Toml (Value Mismatch)

/-- The names of the settings. -/
def fieldNames : List String := ["order", "indent", "indent_width", "separator"]

def orderNames : List String := ["pre", "post", "level"]

def readOrderName (name : String) : Except Mismatch Order :=
  match Order.ofName? name with
  | some order => .ok order
  | none => .error (.unknownVariant name orderNames)

/-- What stands beside the name of an order must be empty. -/
def checkEmpty : Value → Except Mismatch Unit
  | .table [] => .ok ()
  | .array [] => .ok ()
  | .tables [] => .ok ()
  | .table _ => .error .notEmptyTable
  | .array _ => .error .notEmptyTable
  | .tables _ => .error .notEmptyArray
  | v => .error (.notTable v)

/-- An order is its name, or a table whose only key is its name and holds nothing. -/
def readOrder : Value → Except Mismatch Order
  | .string name => readOrderName name
  | .table [(name, v)] => do
      let order ← readOrderName name
      checkEmpty v
      .ok order
  | .table entries => .error (.notOneEntry entries.length)
  | _ => .error .notStringOrTable

def readBool : Value → Except Mismatch Bool
  | .boolean b => .ok b
  | v => .error (.wrongType v "a boolean")

def readWidth : Value → Except Mismatch UInt64
  | .integer n =>
      if 0 ≤ n then .ok (UInt64.ofNat n.toNat) else .error (.outOfBounds (.integer n) "usize")
  | v => .error (.wrongType v "usize")

/-- Takes in the entries of a table in their order. -/
def readEntries (layer : Layer) : Toml.Table → Except Mismatch Layer
  | [] => .ok layer
  | (key, v) :: rest =>
      if key = "order" then do
        let order ← readOrder v
        readEntries { layer with order := some order } rest
      else if key = "indent" then do
        let indent ← readBool v
        readEntries { layer with indent := some indent } rest
      else if key = "indent_width" then do
        let width ← readWidth v
        readEntries { layer with indentWidth := some width } rest
      else if key = "separator" then do
        let separator ← v.asString
        readEntries { layer with separator := some separator } rest
      else .error (.unknownField key fieldNames)

/-- The layer that a settings file describes. -/
def parse (content : String) : Except Toml.ReadError Layer :=
  match Toml.parse? content with
  | none => .error .notToml
  | some table => (readEntries {} table).mapError .mismatch

end Layer

end TreeWalk
