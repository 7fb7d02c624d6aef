import Scriptlet.Proofs.Decimal.Finite
import Scriptlet.Proofs.Value.Fit

/-!
# The domain of values

The values that programs work on: integers of 64 bits, finite floats, truth values, strings,
the unit, the builtins, and rows of such values, of which a tuple has an item at least. The
operations of the language lead from these values to these values, or fail for reasons of the
language.
-/

namespace Scriptlet

namespace Value

/-- Is the value, and is everything inside it, of the kinds that programs work on? -/
inductive InDomain : Value → Prop where
  | integer {n : Int} : inRange n = true → InDomain (.integer n)
  | float {x : Float} {mark : Nat} : x.isFinite = true → InDomain (.float x mark)
  | bool (b : Bool) : InDomain (.bool b)
  | string (s : String) : InDomain (.string s)
  | unit : InDomain .unit
  | tuple {vs : List Value} {mark : Nat} : vs ≠ [] → (∀ v ∈ vs, InDomain v) →
      InDomain (.tuple vs mark)
  | array {vs : List Value} {mark : Nat} : (∀ v ∈ vs, InDomain v) → InDomain (.array vs mark)
  | function (b : Builtin) : InDomain (.function b)

theorem InDomain.fit {v : Value} (h : v.InDomain) : v.Fit := by
  induction h with
  | tuple _ _ ih => exact (allFit_iff _).mpr ih
  | array _ ih => exact (allFit_iff _).mpr ih
  | _ => trivial

theorem allFit_of_inDomain {vs : List Value} (h : ∀ v ∈ vs, v.InDomain) : AllFit vs :=
  (allFit_iff vs).mpr fun v hv => (h v hv).fit

theorem InDomain.withMark {v : Value} (mark : Nat) (h : v.InDomain) : (v.withMark mark).InDomain := by
  cases h with
  | float hx => exact .float hx
  | tuple hne hvs => exact .tuple hne hvs
  | array hvs => exact .array hvs
  | integer hn => exact .integer hn
  | bool b => exact .bool b
  | string s => exact .string s
  | unit => exact .unit
  | function b => exact .function b

/-- A value of the domain, or a failure that the language knows. -/
def Regular (r : Except Failure Value) : Prop :=
  match r with
  | .ok v => v.InDomain
  | .error (.operation _) => True
  | .error _ => False

theorem regular_mapError {r : Except OperationError Value} (h : ∀ v, r = .ok v → v.InDomain) :
    Regular (r.mapError .operation) := by
  cases r with
  | ok v => exact h v rfl
  | error e => trivial

theorem inDomain_checked {n : Int} {v : Value} (h : checked n = .ok v) : v.InDomain := by
  rw [checked] at h
  split at h
  · next hn =>
    cases h
    exact .integer hn
  · cases h

theorem inDomain_checkedFloat {x : Float} {v : Value} (h : checkedFloat x = .ok v) :
    v.InDomain := by
  rw [checkedFloat] at h
  split at h
  · next hx =>
    cases h
    exact .float hx
  · cases h

section Operators

variable {a b v : Value}

theorem inDomain_applyUnary {op : UnaryOp} (ha : a.InDomain) (h : applyUnary op a = .ok v) :
    v.InDomain := by
  unfold applyUnary at h
  split at h
  · exact inDomain_checked h
  · cases h
    cases ha with
    | float hx => exact .float (Decimal.isFinite_neg hx)
  · cases h
  · cases h
    exact .bool _
  · cases h

theorem regular_unary (op : UnaryOp) (ha : a.InDomain) : Regular (unary op.name a) := by
  rw [unary_eq op ha.fit]
  exact regular_mapError fun v => inDomain_applyUnary ha

theorem inDomain_arithmetic {op : ArithmeticOp} (h : arithmetic op a b = .ok v) :
    v.InDomain := by
  unfold arithmetic at h
  split at h
  · unfold integerArithmetic at h
    split at h
    iterate 3 exact inDomain_checked h
    split at h
    · cases h
    · exact inDomain_checked h
  · unfold floatArithmetic at h
    split at h
    iterate 3 exact inDomain_checkedFloat h
    split at h
    · cases h
    · exact inDomain_checkedFloat h
  · split at h
    · cases h
      exact .string _
    · cases h
  · cases h

/-- All operators but `and` and `or`, which are not operations on values. -/
theorem regular_binary {op : BinaryOp} (hand : op ≠ .and) (hor : op ≠ .or) (ha : a.InDomain)
    (hb : b.InDomain) : Regular (binary op.name a b) := by
  rw [binary_eq op ha.fit hb.fit]
  cases op with
  | arithmetic op => exact regular_mapError fun v => inDomain_arithmetic
  | equal => exact .bool _
  | notEqual => exact .bool _
  | member =>
    refine regular_mapError fun v h => ?_
    cases hc : contains .member a b <;> rw [hc] at h <;> cases h
    exact .bool _
  | notMember =>
    refine regular_mapError fun v h => ?_
    cases hc : contains .notMember a b <;> rw [hc] at h <;> cases h
    exact .bool _
  | and => exact absurd rfl hand
  | or => exact absurd rfl hor

end Operators

theorem inDomain_item? {a v : Value} {i : Nat} (ha : a.InDomain) (h : a.item? i = some v) :
    v.InDomain := by
  cases ha with
  | string s =>
    obtain ⟨c, -, rfl⟩ := Option.map_eq_some_iff.mp h
    exact .string _
  | tuple _ hvs => exact hvs v (List.mem_of_getElem? h)
  | array hvs => exact hvs v (List.mem_of_getElem? h)
  | _ => cases h

theorem regular_itemAt {a i : Value} (ha : a.InDomain) (hi : i.InDomain) :
    Regular (itemAt a i) := by
  rw [itemAt_eq ha.fit hi.fit]
  refine regular_mapError fun v h => ?_
  unfold index at h
  split at h
  · next n i _ =>
    split at h
    · next w hw =>
      cases h
      split at hw
      · cases hw
      · exact inDomain_item? ha hw
    · cases h
  · cases h

theorem inDomain_call {b : Builtin} {vs : List Value} {r : Reply} (h : b.call vs = .ok r) :
    r.value.InDomain := by
  unfold Builtin.call at h
  split at h
  · next v =>
    split at h
    · next n _ =>
      cases hc : checked n with
      | error e =>
        rw [hc] at h
        cases h
      | ok w =>
        rw [hc] at h
        cases h
        exact inDomain_checked hc
    · cases h
  · cases h
    exact .string _
  · cases h
    exact .string _
  · cases h
    exact .unit
  · cases h

end Value

end Scriptlet
