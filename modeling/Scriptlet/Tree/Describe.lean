import Scriptlet.Decimal.Numeral
import Scriptlet.Text.Json
import Scriptlet.Text.Quoted
import Scriptlet.Tree.Node

/-!
# Descriptions of syntax trees

A tree as one line of text, which shows at most three children of each node, and
as a JSON document, which shows everything.
-/

namespace Scriptlet.Node

mutual

def describe : Node → String
  | ⟨kind, value, children, elseBranch, isMutable, _⟩ =>
    "ASTNode(" ++ kind.name ++
      (match value with
        | .absent => ""
        | v => ", value=" ++ describeValue v) ++
      (if isMutable then ", mutable=True" else "") ++
      (if children.isEmpty then ""
        else ", children=[" ++ Text.commaSeparated (describeFirst 3 children) ++
          (if children.length > 3 then ", ...]" else "]")) ++
      (if elseBranch.isEmpty then ""
        else ", else_children=[" ++ Text.commaSeparated (describeFirst 3 elseBranch) ++ "]") ++ ")"

def describeValue : Datum Node → String
  | .absent => "None"
  | .bool b => if b then "True" else "False"
  | .text s => Text.quoted s
  | .int n => toString n
  | .float x => String.ofList (Decimal.reportText x)
  | .node n => describe n

/-- The descriptions of the first `k` nodes. -/
def describeFirst : Nat → List Node → List String
  | 0, _ => []
  | _, [] => []
  | k + 1, n :: ns => describe n :: describeFirst k ns

end

/-- The text of a value inside a message, where texts are not quoted. -/
def valueText : Datum Node → String
  | .text s => s
  | v => describeValue v

/-- A float in a document, where the values that are no numbers have names. -/
def floatJson (x : Float) : Json :=
  .number <|
    if x.isNaN then "NaN"
    else if x.isInf then (if x < 0 then "-Infinity" else "Infinity")
    else String.ofList (Decimal.reportText x)

mutual

def toJson : Node → Json
  | ⟨kind, value, children, elseBranch, isMutable, position⟩ =>
    .object [
      ("kind", .string kind.name),
      ("value", valueToJson value),
      ("line", .number (toString position.line)),
      ("col", .number (toString position.column)),
      ("index", .number (toString position.index)),
      ("mutable", .bool isMutable),
      ("children", .array (allToJson children)),
      ("else_children", .array (allToJson elseBranch))]

def valueToJson : Datum Node → Json
  | .absent => .null
  | .bool b => .bool b
  | .text s => .string s
  | .int n => .number (toString n)
  | .float x => floatJson x
  | .node n => toJson n

def allToJson : List Node → List Json
  | [] => []
  | n :: ns => toJson n :: allToJson ns

end

-- Describing goes through five levels for each child that is shown, and through
-- three for each tree that is a value.

mutual

/-- The levels that describing a tree goes through below it. -/
def describedDepth : Node → Nat
  | ⟨_, value, children, elseBranch, _, _⟩ =>
    max (describedDepthOfValue value)
      (max (describedDepthOfFirst 3 children) (describedDepthOfFirst 3 elseBranch))

def describedDepthOfValue : Datum Node → Nat
  | .node n => describedDepth n + 3
  | _ => 0

/-- The levels that describing the first `k` nodes goes through. -/
def describedDepthOfFirst : Nat → List Node → Nat
  | 0, _ => 0
  | _, [] => 0
  | k + 1, n :: ns => max (describedDepth n + 5) (describedDepthOfFirst k ns)

end

-- A document nests an object for each node and a list for each of its branches.

mutual

/-- The levels of objects and lists in the document of a tree. -/
def documentDepth : Node → Nat
  | ⟨_, value, children, elseBranch, _, _⟩ =>
    max (documentDepthOfValue value)
      (max (documentDepthOfAll children) (documentDepthOfAll elseBranch)) + 1

def documentDepthOfValue : Datum Node → Nat
  | .node n => documentDepth n
  | _ => 0

/-- The levels below and including a list of trees. -/
def documentDepthOfAll : List Node → Nat
  | [] => 1
  | n :: ns => max (documentDepth n + 1) (documentDepthOfAll ns)

end

end Scriptlet.Node
