import Scriptlet.Session.Scope

/-!
# Slots

The slot of a binding is its index in the order in which bindings were made. What the
session does by recursion on its list, from the newest binding on, is said here in
terms of these indices.
-/

namespace Scriptlet

theorem getElem?_reverse_cons {α : Type} (a : α) (as : List α) (i : Nat) :
    (a :: as).reverse[i]? = if i = as.length then some a else as.reverse[i]? := by
  rw [List.reverse_cons]
  grind

theorem findBinding_slot {name : Datum Node} {bs : List Binding} {slot : Nat} {b : Binding}
    (h : findBinding name bs = some (slot, b)) :
    bs.reverse[slot]? = some b ∧ b.name.equals name = true := by
  induction bs with
  | nil => cases h
  | cons newest older ih =>
    rw [getElem?_reverse_cons]
    rw [findBinding] at h
    split at h
    · next hname =>
      cases h
      exact ⟨if_pos rfl, hname⟩
    · have hslot := ih h
      grind

theorem valueAt?_eq (slot : Nat) (bs : List Binding) :
    valueAt? slot bs = bs.reverse[slot]?.map (·.value) := by
  induction bs with
  | nil => rfl
  | cons newest older ih =>
    rw [valueAt?, getElem?_reverse_cons, ih]
    grind

theorem length_setBinding (slot : Nat) (v : Value) (bs : List Binding) :
    (setBinding slot v bs).length = bs.length := by
  induction bs with
  | nil => rfl
  | cons newest older ih => grind [setBinding]

/-- Setting a slot changes the value there and nothing else. -/
theorem getElem?_setBinding (slot i : Nat) (v : Value) (bs : List Binding) :
    (setBinding slot v bs).reverse[i]? =
      bs.reverse[i]?.map fun b => if i = slot then { b with value := v } else b := by
  induction bs with
  | nil => rfl
  | cons newest older ih =>
    rw [setBinding, getElem?_reverse_cons]
    split
    · rw [getElem?_reverse_cons]
      grind
    · rw [getElem?_reverse_cons, length_setBinding, ih]
      grind

end Scriptlet
