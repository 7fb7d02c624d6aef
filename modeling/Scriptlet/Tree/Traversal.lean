import Scriptlet.Tree.Node

/-!
# Traversal of syntax trees

`walk` visits a node, then the node in its value, its children and its else
branch, each with all that is below it. It keeps the nodes still to visit in a
list and does not recurse into the tree. `preorder` is the same order by
recursion on the tree.
-/

namespace Scriptlet.Node

mutual

/-- The number of nodes in a tree. -/
def size : Node → Nat
  | ⟨_, v, cs, es, _, _⟩ => sizeOfValue v + sizeOfAll cs + sizeOfAll es + 1

def sizeOfValue : Datum Node → Nat
  | .node n => size n
  | _ => 0

def sizeOfAll : List Node → Nat
  | [] => 0
  | n :: ns => size n + sizeOfAll ns

end

mutual

def preorder : Node → List Node
  | ⟨k, v, cs, es, m, p⟩ =>
    ⟨k, v, cs, es, m, p⟩ :: (preorderOfValue v ++ preorderOfAll cs ++ preorderOfAll es)

def preorderOfValue : Datum Node → List Node
  | .node n => preorder n
  | _ => []

def preorderOfAll : List Node → List Node
  | [] => []
  | n :: ns => preorder n ++ preorderOfAll ns

end

/-- The node in a value, if there is one. -/
def ofValue : Datum Node → List Node
  | .node n => [n]
  | _ => []

/-- The nodes right below a node, in order. -/
def parts (n : Node) : List Node := ofValue n.value ++ n.children ++ n.elseBranch

theorem sizeOfAll_append (xs ys : List Node) :
    sizeOfAll (xs ++ ys) = sizeOfAll xs + sizeOfAll ys := by
  induction xs with
  | nil => simp [sizeOfAll]
  | cons x xs ih => simp only [List.cons_append, sizeOfAll, ih]; omega

theorem sizeOfAll_ofValue (v : Datum Node) : sizeOfAll (ofValue v) = sizeOfValue v := by
  cases v <;> simp [ofValue, sizeOfAll, sizeOfValue]

theorem size_eq (n : Node) : n.size = sizeOfAll n.parts + 1 := by
  cases n
  simp [size, parts, sizeOfAll_append, sizeOfAll_ofValue, Nat.add_assoc]

/-- Visits all that is pending. -/
def walkAll (pending : List Node) : List Node :=
  match pending with
  | [] => []
  | n :: rest => n :: walkAll (n.parts ++ rest)
termination_by sizeOfAll pending
decreasing_by
  simp only [sizeOfAll_append, sizeOfAll, size_eq]
  omega

def walk (n : Node) : List Node := walkAll [n]

/-- Does any of the trees hold an error node? -/
def containsErrors (ns : List Node) : Bool := ns.any fun n => n.walk.any isError

end Scriptlet.Node
