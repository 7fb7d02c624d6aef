import Scriptlet.Number
import Scriptlet.Tree.Node

/-!
# The data of trees

What trees made by hand hold may be data of any type. Here is what all types have
in common: a name, a truth value, and an equality that looks at the meaning, for
which truth values are the numbers one and zero.
-/

namespace Scriptlet.Datum

/-- The type of a value as messages name it. -/
def typeName {ν : Type} : Datum ν → String
  | absent => "NoneType"
  | bool _ => "bool"
  | text _ => "str"
  | int _ => "int"
  | float _ => "float"
  | node _ => "ASTNode"

/-- Does the value count as true? Zeros, the empty text and the absent value do not. -/
def isTruthy {ν : Type} : Datum ν → Bool
  | absent => false
  | bool b => b
  | text s => !s.isEmpty
  | int n => n ≠ 0
  | float x => !(x == 0.0)
  | node _ => true

def number? {ν : Type} : Datum ν → Option Number
  | bool b => some (.whole (if b then 1 else 0))
  | int n => some (.whole n)
  | float x => some (.float x)
  | _ => none

def ofNumber {ν : Type} : Number → Datum ν
  | .whole n => int n
  | .float x => float x

/-- Do the two mean the same? -/
def equals : Datum Node → Datum Node → Bool
  | absent, absent => true
  | text s, text t => s = t
  | node m, node n => m.alike n
  | a, b =>
    match a.number?, b.number? with
    | some x, some y => x.same y
    | _, _ => false

@[simp] theorem equals_text (s t : String) :
    equals (.text s) (.text t) = decide (s = t) := by
  simp [equals]

end Scriptlet.Datum
