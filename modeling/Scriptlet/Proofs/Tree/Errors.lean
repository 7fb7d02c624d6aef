import Scriptlet.Tree.Traversal

/-!
# Error nodes in trees

The traversal that keeps its pending nodes in a list visits them in the order of the
recursive one, so that looking for error nodes can be done part by part. So can a property of
all nodes of a tree be shown: it is one of the root and of all nodes of the parts.
-/

namespace Scriptlet.Node

theorem preorderOfAll_append (xs ys : List Node) :
    preorderOfAll (xs ++ ys) = preorderOfAll xs ++ preorderOfAll ys := by
  induction xs with
  | nil => rfl
  | cons x xs ih => simp only [List.cons_append, preorderOfAll, ih, List.append_assoc]

theorem preorderOfAll_ofValue (v : Datum Node) : preorderOfAll (ofValue v) = preorderOfValue v := by
  cases v <;> simp [ofValue, preorderOfAll, preorderOfValue]

/-- The last expression of a block is its value. -/
theorem ofValue_last (last : Option Node) : ofValue (last.elim .absent .node) = last.toList := by
  cases last <;> rfl

theorem preorder_eq (n : Node) : n.preorder = n :: preorderOfAll n.parts := by
  cases n
  simp only [preorder, parts, preorderOfAll_append, preorderOfAll_ofValue]

/-- Going through what is pending visits each tree in preorder. -/
theorem walkAll_eq_preorderOfAll (ns : List Node) : walkAll ns = preorderOfAll ns := by
  induction ns using walkAll.induct with
  | case1 => rw [walkAll, preorderOfAll]
  | case2 n rest ih =>
    rw [walkAll, ih, preorderOfAll, preorder_eq, preorderOfAll_append, List.cons_append]

theorem walk_eq_preorder (n : Node) : n.walk = n.preorder := by
  rw [walk, walkAll_eq_preorderOfAll, preorderOfAll, preorderOfAll, List.append_nil]

theorem containsErrors_eq_any (ns : List Node) :
    containsErrors ns = (preorderOfAll ns).any isError := by
  induction ns with
  | nil => rfl
  | cons n ns ih =>
    have hcons : containsErrors (n :: ns) = (n.walk.any isError || containsErrors ns) := rfl
    rw [hcons, ih, walk_eq_preorder, preorderOfAll, List.any_append]

@[simp] theorem containsErrors_nil : containsErrors [] = false := rfl

@[simp] theorem containsErrors_append (xs ys : List Node) :
    containsErrors (xs ++ ys) = (containsErrors xs || containsErrors ys) := by
  simp only [containsErrors_eq_any, preorderOfAll_append, List.any_append]

theorem containsErrors_cons (n : Node) (ns : List Node) :
    containsErrors (n :: ns) = (containsErrors [n] || containsErrors ns) :=
  containsErrors_append [n] ns

theorem containsErrors_singleton (n : Node) :
    containsErrors [n] = (n.isError || containsErrors n.parts) := by
  simp only [containsErrors_eq_any, preorderOfAll, List.append_nil]
  rw [preorder_eq, List.any_cons]

theorem containsErrors_of_isError {n : Node} (h : n.isError = true) :
    containsErrors [n] = true := by
  rw [containsErrors_singleton, h, Bool.true_or]

theorem containsErrors_ofError (message : String) (p : Position) :
    containsErrors [ofError message p] = true :=
  containsErrors_of_isError rfl

/-- A tree that is put together holds the errors of its parts and no others. -/
theorem containsErrors_make {k : Kind} (hk : k ≠ .error) (p : Position) (v : Datum Node)
    (cs : List Node) :
    containsErrors [make k p v cs] = (containsErrors (ofValue v) || containsErrors cs) := by
  rw [containsErrors_singleton]
  simp [isError, make, parts, hk]

section Everywhere

variable {P : Node → Prop}

/-- Does the property hold of all nodes of the tree? -/
def Everywhere (P : Node → Prop) (n : Node) : Prop := ∀ m ∈ n.preorder, P m

theorem forall_preorderOfAll {ns : List Node} :
    (∀ m ∈ preorderOfAll ns, P m) ↔ ∀ n ∈ ns, n.Everywhere P := by
  induction ns with
  | nil => simp [preorderOfAll]
  | cons n ns ih => rw [preorderOfAll, List.forall_mem_append, ih, List.forall_mem_cons, Everywhere]

theorem everywhere_iff {n : Node} : n.Everywhere P ↔ P n ∧ ∀ m ∈ n.parts, m.Everywhere P := by
  rw [Everywhere, preorder_eq, List.forall_mem_cons, forall_preorderOfAll]

theorem everywhere_make {k : Kind} {p : Position} {v : Datum Node} {cs : List Node} :
    (make k p v cs).Everywhere P ↔
      P (make k p v cs) ∧ (∀ m ∈ ofValue v, m.Everywhere P) ∧ ∀ m ∈ cs, m.Everywhere P := by
  rw [everywhere_iff]
  simp [parts, make, or_imp, forall_and]

end Everywhere

end Scriptlet.Node
