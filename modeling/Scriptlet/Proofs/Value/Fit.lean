import Scriptlet.Value.Misfit

/-!
# Values without misfits

On values that hold no misfit the operations are those of the language, and fail only for
its own reasons.
-/

namespace Scriptlet

theorem BinaryOp.ofName?_name (op : BinaryOp) : BinaryOp.ofName? op.name = some op := by
  cases op with
  | arithmetic op => cases op <;> rfl
  | _ => rfl

theorem UnaryOp.ofName?_name (op : UnaryOp) : UnaryOp.ofName? op.name = some op := by
  cases op <;> rfl

namespace Value

mutual

/-- Is there no misfit in the value, however deep? -/
def Fit : Value → Prop
  | tuple vs _ => AllFit vs
  | array vs _ => AllFit vs
  | misfit _ _ _ => False
  | _ => True

def AllFit : List Value → Prop
  | [] => True
  | v :: vs => Fit v ∧ AllFit vs

end

theorem allFit_iff (vs : List Value) : AllFit vs ↔ ∀ v ∈ vs, v.Fit := by
  induction vs with
  | nil => simp [AllFit]
  | cons v vs ih => simp only [AllFit, ih, List.forall_mem_cons]

theorem Fit.isMisfit {v : Value} (h : v.Fit) : v.isMisfit = false := by
  cases v with
  | misfit => exact h.elim
  | _ => rfl

section Operators

variable {a b v : Value}

theorem unary_eq (op : UnaryOp) (ha : a.Fit) :
    unary op.name a = (applyUnary op a).mapError .operation := by
  have hnamed : unaryNamed op.name a = (applyUnary op a).mapError .operation := by
    rw [unaryNamed, UnaryOp.ofName?_name]
  cases a with
  | misfit => exact ha.elim
  | _ => exact hnamed

theorem binary_eq (op : BinaryOp) (ha : a.Fit) (hb : b.Fit) :
    binary op.name a b = applyBinary op a b := by
  rw [binary, ha.isMisfit, hb.isMisfit, binaryNamed, BinaryOp.ofName?_name]
  rfl

end Operators

theorem itemAt_eq {a i : Value} (ha : a.Fit) (hi : i.Fit) :
    itemAt a i = (a.index i).mapError .operation := by
  unfold itemAt
  split
  · exact ha.elim
  · exact hi.elim
  · rfl

mutual

theorem Fit.unreadable? : (v : Value) → v.Fit → v.unreadable? = none
  | tuple vs _, h => AllFit.firstUnreadable? vs h
  | array vs _, h => AllFit.firstUnreadable? vs h
  | misfit _ _ _, h => h.elim
  | integer _, _ => rfl
  | float _ _, _ => rfl
  | bool _, _ => rfl
  | string _, _ => rfl
  | unit, _ => rfl
  | function _, _ => rfl

theorem AllFit.firstUnreadable? : (vs : List Value) → AllFit vs → firstUnreadable? vs = none
  | [], _ => rfl
  | v :: vs, h => by
    rw [Value.firstUnreadable?, Fit.unreadable? v h.1, AllFit.firstUnreadable? vs h.2]
    rfl

end

end Value

namespace Builtin

open Value (AllFit)

variable {vs : List Value}

theorem hidden?_eq_none {v : Value} (h : v.Fit) : hidden? v = none := by
  unfold hidden?
  split
  · rfl
  · rw [h.unreadable?]
    rfl

theorem firstUnprinted?_eq_none (h : AllFit vs) (place : Nat) :
    firstUnprinted? place vs = none := by
  induction vs generalizing place with
  | nil => rfl
  | cons v vs ih =>
    cases v with
    | misfit => exact h.1.elim
    | _ => exact ih h.2 (place + 1)

theorem obstacle?_eq_none (b : Builtin) (h : AllFit vs) : obstacle? b vs = none := by
  unfold obstacle?
  split
  · exact h.1.elim
  · exact hidden?_eq_none h.1
  · rw [firstUnprinted?_eq_none h 0, List.findSome?_eq_none_iff.mpr]
    · rfl
    · exact fun v hv => hidden?_eq_none ((Value.allFit_iff vs).mp h v hv)
  · rfl

theorem apply_eq (b : Builtin) (h : AllFit vs) : b.apply vs = (b.call vs).mapError .operation := by
  unfold apply
  rw [obstacle?_eq_none b h]
  split
  · contradiction
  · exact h.1.elim
  · rfl

end Builtin

end Scriptlet
