import TreeWalk.Parents
import TreeWalk.Settings.Basic
import TreeWalk.Symbol
import TreeWalk.Tree
import TreeWalk.Walk

/-!
Listings of a graph of symbols: the labels along a walk, indented by depth if the settings say so, the
pairs of a child and its parent, and the drawn tree. Depth needs a parent map, so an indented walk and
the pairs fail on anything but a tree. A line is indented by a 64-bit product of depth and width, and
by no more than 65535 columns.
-/

namespace TreeWalk

/-- Why a line cannot be indented. -/
inductive IndentError where
  | overflow
  | tooWide
deriving DecidableEq, Repr

def IndentError.message : IndentError → String
  | overflow => "attempt to multiply with overflow"
  | tooWide => "Formatting argument out of range"

/-- Why a listing fails. -/
inductive ListingError (ν : Type) where
  | duplicateParent (duplicate : DuplicateParent ν)
  | indent (error : IndentError)
deriving DecidableEq, Repr

/-- The widest indentation of a line. -/
def maxIndent : Nat := 65535

/-- The columns before a label at the given depth. -/
def indentColumns (width : UInt64) (depth : Nat) : Except IndentError Nat :=
  let columns := depth * width.toNat
  if UInt64.size ≤ columns then .error .overflow
  else if maxIndent < columns then .error .tooWide
  else .ok columns

/-- A label behind its indentation. -/
def indentLine (width : UInt64) (depth : Nat) (label : String) : Except IndentError String :=
  (indentColumns width depth).map fun columns => "".pushn ' ' columns ++ label

/-- The lines of labels that each know their depth; the first one that cannot be indented decides. -/
def indentLines (width : UInt64) (items : List (Nat × String)) : Except IndentError (List String) :=
  items.mapM fun (depth, label) => indentLine width depth label

namespace Graph

variable (G : Graph Symbol)

/-- The depth that a table knows for a node, 0 if it knows none. -/
def depthIn (depths : G.DepthTable) (n : G.Node) : Nat := depths[n].getD 0

/-- The labels along a walk in the given order, or in the order of the settings. -/
def walkLines (settings : Settings) (order : Option Order) (root : G.Node) :
    Except (ListingError G.Node) (List String) :=
  let nodes := G.nodes (order.getD settings.order) root
  if settings.indent then
    match ParentMap.build root with
    | .error duplicate => .error (.duplicateParent duplicate)
    | .ok map =>
        let depths := map.depths
        (indentLines settings.indentWidth
          (nodes.map fun n => (G.depthIn depths n, G.label n))).mapError .indent
  else .ok (nodes.map G.label)

/-- The lines of a walk as one text, with the separator of the settings between them. -/
def renderWalk (settings : Settings) (order : Option Order) (root : G.Node) :
    Except (ListingError G.Node) String :=
  (G.walkLines settings order root).map settings.separator.intercalate

/-- The labels of each node below the root and of its parent, in pre-order. -/
def parentPairs (root : G.Node) : Except (DuplicateParent G.Node) (List (String × String)) :=
  (ParentMap.build root).map fun map =>
    (G.preOrder root).filterMap fun n =>
      (map.parentOf n).map fun parent => (G.label n, G.label parent)

/-- The drawn tree under a root from which no cycle is reached. -/
def renderTree (root : G.Node) : String := (G.labelTree G.label root).draw

end Graph

end TreeWalk
