import Scriptlet.Proofs.Session.Displayed
import Scriptlet.Proofs.Session.Variation

/-!
# Arithmetic on integers

Sums, differences, products and quotients of integers are exact or fail: they are what they are
for whole numbers, as long as that fits into 64 bits. The quotient is the one whose remainder is
smaller than the divisor and of the sign of the dividend. It leaves the 64 bits in one case only,
and in all other cases the remainder can be computed from it without leaving them either.
-/

namespace Scriptlet

open Number (wholeQuotient)

/-- Taking `b` away from `a`, `q` times, leaves `m`: less than `b`, and on the side of `a`. -/
structure Leaves (a b q m : Int) : Prop where
  parts : a = b * q + m
  smaller : m.natAbs < b.natAbs
  sign : m = 0 ∨ m.sign = a.sign

section Quotients

variable {a b q m q' m' : Int}

theorem Leaves.nonneg (h : Leaves a b q m) (ha : 0 ≤ a) : 0 ≤ m := by
  rcases h.sign with hm | hm
  · omega
  · rw [← Int.sign_nonneg_iff, hm]
    exact Int.sign_nonneg_iff.mpr ha

theorem Leaves.neg (h : Leaves a b q m) : Leaves (-a) b (-q) (-m) where
  parts := by
    have hparts := h.parts
    rw [Int.mul_neg]
    omega
  smaller := by
    have hsmaller := h.smaller
    omega
  sign := by
    rcases h.sign with hm | hm
    · left
      omega
    · right
      rw [Int.sign_neg, Int.sign_neg, hm]

theorem Leaves.nonpos (h : Leaves a b q m) (ha : a ≤ 0) : m ≤ 0 := by
  have hm : 0 ≤ -m := h.neg.nonneg (by omega)
  omega

/-- Two remainders differ by a multiple of the divisor and lie less than the divisor apart. -/
theorem Leaves.unique (h : Leaves a b q m) (h' : Leaves a b q' m') : q = q' ∧ m = m' := by
  have hb : b ≠ 0 := by
    have hsmaller := h.smaller
    omega
  have hdifference : b * (q - q') = m' - m := by
    have hparts := h.parts
    have hparts' := h'.parts
    rw [Int.mul_sub]
    omega
  have hapart : (m' - m).natAbs < b.natAbs := by
    have hsmaller := h.smaller
    have hsmaller' := h'.smaller
    rcases Int.le_total 0 a with ha | ha
    · have hm := h.nonneg ha
      have hm' := h'.nonneg ha
      omega
    · have hm := h.nonpos ha
      have hm' := h'.nonpos ha
      omega
  have hm : m' - m = 0 :=
    Int.eq_zero_of_dvd_of_natAbs_lt_natAbs ⟨q - q', hdifference.symm⟩ hapart
  have hq : q - q' = 0 := by
    rw [hm] at hdifference
    exact (Int.mul_eq_zero.mp hdifference).resolve_left hb
  omega

/-- What is taken away lies between zero and the dividend. -/
theorem Leaves.between (h : Leaves a b q m) : min 0 a ≤ b * q ∧ b * q ≤ max 0 a := by
  -- It is enough to look at a dividend that is not negative.
  have hupward {a q m : Int} (h : Leaves a b q m) (ha : 0 ≤ a) : 0 ≤ b * q ∧ b * q ≤ a := by
    have hparts := h.parts
    have hsmaller := h.smaller
    have hm := h.nonneg ha
    refine ⟨?_, by omega⟩
    by_contra hneg
    have hq : 1 ≤ q.natAbs := by
      rw [Nat.one_le_iff_ne_zero, Int.natAbs_ne_zero]
      rintro rfl
      omega
    have hsize : b.natAbs * 1 ≤ (b * q).natAbs := by
      rw [Int.natAbs_mul]
      exact Nat.mul_le_mul_left _ hq
    omega
  rcases Int.le_total 0 a with ha | ha
  · have hbounds := hupward h ha
    omega
  · have hbounds := hupward h.neg (by omega)
    rw [Int.mul_neg] at hbounds
    omega

theorem natAbs_wholeQuotient (a b : Int) :
    (wholeQuotient a b).natAbs = a.natAbs / b.natAbs := by
  unfold wholeQuotient
  split
  · rfl
  · exact Int.natAbs_neg _

/-- The sign test takes zero for positive on the one side and for negative on the other. That
makes no difference, since a dividend of zero has the quotient zero, and no divisor is zero. -/
theorem wholeQuotient_eq (a : Int) (hb : b ≠ 0) :
    wholeQuotient a b = a.sign * b.sign * (a.natAbs / b.natAbs : Nat) := by
  unfold wholeQuotient
  rcases Int.lt_trichotomy a 0 with ha | rfl | ha
  · have hsign : ¬ 0 ≤ a := by omega
    rcases Int.lt_or_gt_of_ne hb with hneg | hpos
    · have hsign' : ¬ 0 < b := by omega
      rw [Int.sign_eq_neg_one_of_neg ha, Int.sign_eq_neg_one_of_neg hneg]
      simp [hsign, hsign']
    · rw [Int.sign_eq_neg_one_of_neg ha, Int.sign_eq_one_of_pos hpos]
      simp [hsign, hpos]
  · simp
  · have hsign : 0 ≤ a := by omega
    rcases Int.lt_or_gt_of_ne hb with hneg | hpos
    · have hsign' : ¬ 0 < b := by omega
      rw [Int.sign_eq_one_of_pos ha, Int.sign_eq_neg_one_of_neg hneg]
      simp [hsign, hsign']
    · rw [Int.sign_eq_one_of_pos ha, Int.sign_eq_one_of_pos hpos]
      simp [hsign, hpos]

theorem mul_wholeQuotient (a : Int) (hb : b ≠ 0) :
    b * wholeQuotient a b = a.sign * (b.natAbs * (a.natAbs / b.natAbs) : Nat) := by
  calc b * wholeQuotient a b
      = a.sign * ((b * b.sign) * (a.natAbs / b.natAbs : Nat)) := by
        rw [wholeQuotient_eq a hb, Int.mul_assoc, Int.mul_left_comm, Int.mul_assoc]
    _ = a.sign * (b.natAbs * (a.natAbs / b.natAbs) : Nat) := by
        rw [Int.mul_sign_self, Int.natCast_mul]

theorem leaves_wholeQuotient (a : Int) (hb : b ≠ 0) :
    Leaves a b (wholeQuotient a b) (a.sign * (a.natAbs % b.natAbs : Nat)) where
  parts := by
    rw [mul_wholeQuotient a hb, ← Int.mul_add, ← Int.natCast_add, Nat.div_add_mod,
      Int.sign_mul_natAbs]
  smaller := by
    have hsmaller : a.natAbs % b.natAbs < b.natAbs := Nat.mod_lt _ (by omega)
    rw [Int.natAbs_mul, Int.natAbs_natCast, Int.natAbs_sign]
    split <;> omega
  sign := by
    by_cases hm : a.natAbs % b.natAbs = 0
    · left
      rw [hm, Int.natCast_zero, Int.mul_zero]
    · right
      rw [Int.sign_mul, Int.sign_sign, Int.sign_natCast_of_ne_zero hm, Int.mul_one]

end Quotients

namespace Value

/-- What an operation comes to for whole numbers of any size. -/
def Exact (op : ArithmeticOp) (a b r : Int) : Prop :=
  match op with
  | .add => r = a + b
  | .sub => r = a - b
  | .mul => r = a * b
  | .div => ∃ m, Leaves a b r m

section Integers

variable {a b r : Int} {op : ArithmeticOp}

theorem exists_exact (h : op = .div → b ≠ 0) : ∃ r, Exact op a b r := by
  cases op with
  | add => exact ⟨_, rfl⟩
  | sub => exact ⟨_, rfl⟩
  | mul => exact ⟨_, rfl⟩
  | div => exact ⟨_, _, leaves_wholeQuotient a (h rfl)⟩

theorem Exact.unique {r' : Int} (h : Exact op a b r) (h' : Exact op a b r') : r' = r := by
  cases op with
  | add => exact Eq.trans h' (Eq.symm h)
  | sub => exact Eq.trans h' (Eq.symm h)
  | mul => exact Eq.trans h' (Eq.symm h)
  | div =>
    obtain ⟨m, hm⟩ := h
    obtain ⟨m', hm'⟩ := h'
    exact (hm'.unique hm).1

theorem arithmetic_of_exact (h : Exact op a b r) :
    arithmetic op (integer a) (integer b) = checked r := by
  cases op with
  | add => exact congrArg checked (Eq.symm h)
  | sub => exact congrArg checked (Eq.symm h)
  | mul => exact congrArg checked (Eq.symm h)
  | div =>
    obtain ⟨m, hm⟩ := h
    have hb : b ≠ 0 := by
      have hsmaller := hm.smaller
      omega
    rw [arithmetic, integerArithmetic, if_neg hb, (leaves_wholeQuotient a hb).unique hm |>.1]

theorem checked_of_inRange {n : Int} (h : inRange n = true) : checked n = .ok (integer n) :=
  if_pos h

theorem checked_ne_divisionByZero (n : Int) : checked n ≠ .error .divisionByZero := by
  unfold checked
  split <;> exact nofun

theorem checked_eq_integerOverflow {n : Int} :
    checked n = .error .integerOverflow ↔ inRange n = false := by
  unfold checked
  cases hn : inRange n with
  | true => exact ⟨nofun, nofun⟩
  | false => exact ⟨fun _ => rfl, fun _ => rfl⟩

theorem arithmetic_div_zero (a : Int) :
    arithmetic .div (integer a) (integer 0) = .error .divisionByZero := rfl

/-- Only the least integer has a quotient that is too large, and it has one. -/
theorem inRange_wholeQuotient (ha : inRange a = true) (hb : b ≠ 0) :
    inRange (wholeQuotient a b) = true ↔ ¬ (a = leastInteger ∧ b = -1) := by
  constructor
  · rintro h ⟨rfl, rfl⟩
    revert h
    decide
  · intro h
    have hdistance : leastInteger = -(greatestInteger : Int) - 1 := rfl
    have hsize := natAbs_wholeQuotient a b
    have hone := (leaves_wholeQuotient a hb).between
    rw [inRange_iff] at ha ⊢
    by_cases hunit : b.natAbs = 1
    · rcases (by omega : b = 1 ∨ b = -1) with rfl | rfl
      · omega
      · omega
    · have hhalf : a.natAbs / b.natAbs ≤ a.natAbs / 2 :=
        Nat.div_le_div_left (by omega) (by omega)
      omega

/-- What the quotient takes away, and what it leaves, fits wherever the dividend does. -/
theorem inRange_of_leaves {q m : Int} (ha : inRange a = true) (h : Leaves a b q m) :
    inRange (b * q) = true ∧ inRange m = true := by
  have hbetween := h.between
  have hparts := h.parts
  have hleast : leastInteger ≤ 0 := by decide
  have hgreatest : (0 : Int) ≤ greatestInteger := by decide
  rw [inRange_iff] at ha ⊢
  rw [inRange_iff]
  omega

theorem negate_eq_sub (b : Int) :
    applyUnary .negate (integer b) = arithmetic .sub (integer 0) (integer b) := by
  rw [applyUnary, arithmetic, integerArithmetic, Int.zero_sub]

end Integers

end Value

namespace Node

open ExceptT (outcome_bind)
open Value (integer)

/-- Whatever marks are in use, the tree comes to the value in the session, and the session stays
as it is but for the marks. -/
def Yields (n : Node) (room : Nat) (s : Session) (v : Value) : Prop :=
  ∀ mark, ∃ next, (eval room n).outcome { s with nextMark := mark } =
    (.ok v, { s with nextMark := next })

section Yields

variable {n l r : Node} {room : Nat} {s : Session} {p : Position} {v : Value} {a b c : Int}

theorem Yields.mono {room' : Nat} (h : n.Yields room s v) (hroom : room ≤ room') :
    n.Yields room' s v := by
  intro mark
  obtain ⟨next, hnext⟩ := h mark
  obtain hdeep | hsame := outcome_eval_of_le hroom n { s with nextMark := mark }
  · rw [hnext] at hdeep
    cases hdeep
  · exact ⟨next, hsame.symm.trans hnext⟩

theorem yields_identifier {name : String} {slot : Nat} {bound : Binding} (room : Nat)
    (h : s.find? (.text name) = some (slot, bound)) :
    (Term.nameNode p name).Yields (room + 2) s bound.value := by
  intro mark
  have heval : eval (room + 2) (Term.nameNode p name) =
      Eval.identifier (Term.nameNode p name) := by
    cases room <;> rfl
  have hfind : { s with nextMark := mark }.find? (Term.nameNode p name).value =
      some (slot, bound) := h
  refine ⟨mark, ?_⟩
  rw [heval, Eval.identifier, ExceptT.outcome_get_bind, hfind]
  rfl

/-- The tree of an arithmetic operation. -/
def operation (p : Position) (op : ArithmeticOp) (l r : Node) : Node :=
  .make .binary p (.text op.name) [l, r]

theorem eval_operation (room : Nat) (p : Position) (op : ArithmeticOp) (l r : Node) :
    eval (room + 3) (operation p op l r) = (do
      let x ← eval (room + 1) l
      let y ← eval (room + 1) r
      Eval.needDepth (room + 1) (Value.binaryDepth op.name x y)
      Eval.made (← Eval.ofAny (operation p op l r) (Value.binary op.name x y))) := by
  cases op <;> rfl

theorem yields_operation {op : ArithmeticOp} (hl : l.Yields (room + 1) s (integer a))
    (hr : r.Yields (room + 1) s (integer b))
    (h : Value.arithmetic op (integer a) (integer b) = .ok (integer c)) :
    (operation p op l r).Yields (room + 3) s (integer c) := by
  have hdepth : Value.binaryDepth op.name (integer a) (integer b) = 0 := by
    cases op <;> rfl
  have hvalue : Value.binary op.name (integer a) (integer b) = .ok (integer c) := by
    have hfit (n : Int) : (integer n).Fit := trivial
    have hbinary := Value.binary_eq (.arithmetic op) (hfit a) (hfit b)
    rw [Value.applyBinary, h] at hbinary
    exact hbinary
  intro mark
  obtain ⟨next, hl⟩ := hl mark
  obtain ⟨next', hr⟩ := hr next
  refine ⟨next' + 1, ?_⟩
  rw [eval_operation, outcome_bind, hl]
  dsimp only
  rw [outcome_bind, hr]
  dsimp only
  rw [hdepth, hvalue]
  rfl

end Yields

/-- The tree of `l - (l / r) * r`. -/
def remainder (p q t : Position) (l r : Node) : Node :=
  operation p .sub l (operation q .mul (operation t .div l r) r)

end Node

open Value (integer inRange arithmetic applyUnary checked leastInteger Exact)

section Remainders

variable {a b q m : Int} {s : Session} {l r : Node}

theorem Node.yields_remainder {room : Nat} (p₁ p₂ p₃ : Position) (ha : inRange a = true)
    (hq : inRange q = true) (h : Leaves a b q m) (hl : l.Yields (room + 1) s (integer a))
    (hr : r.Yields (room + 1) s (integer b)) :
    (remainder p₁ p₂ p₃ l r).Yields (room + 7) s (integer m) := by
  obtain ⟨hproduct, hm⟩ := Value.inRange_of_leaves ha h
  have hdiv : arithmetic .div (integer a) (integer b) = .ok (integer q) := by
    have hexact : Exact .div a b q := ⟨m, h⟩
    rw [Value.arithmetic_of_exact hexact, Value.checked_of_inRange hq]
  have hmul : arithmetic .mul (integer q) (integer b) = .ok (integer (b * q)) := by
    have hexact : Exact .mul q b (b * q) := Int.mul_comm b q
    rw [Value.arithmetic_of_exact hexact, Value.checked_of_inRange hproduct]
  have hsub : arithmetic .sub (integer a) (integer (b * q)) = .ok (integer m) := by
    have hexact : Exact .sub a (b * q) m := by
      have hparts := h.parts
      change m = a - b * q
      omega
    rw [Value.arithmetic_of_exact hexact, Value.checked_of_inRange hm]
  have hquotient := yields_operation (p := p₃) hl hr hdiv
  have htaken := yields_operation (p := p₂) hquotient (hr.mono (by omega)) hmul
  exact yields_operation (hl.mono (by omega)) htaken hsub

theorem Session.evaluate_yields {n : Node} {v : Value}
    (hclean : Node.containsErrors [n] = false) (h : n.Yields evaluationLimit s v) :
    ∃ next, s.evaluate [n] = (.value (some v), { s with nextMark := next }) := by
  obtain ⟨next, hnext⟩ := h s.nextMark
  refine ⟨next, ?_⟩
  have heval : (eval evaluationLimit n).outcome s = (.ok v, { s with nextMark := next }) := hnext
  rw [evaluate_eq hclean, Eval.outcome_statements_cons, Eval.outcome_statement, heval]
  rfl

theorem Node.containsErrors_remainder {p₁ p₂ p₃ : Position}
    (hclean : containsErrors [l, r] = false) :
    containsErrors [remainder p₁ p₂ p₃ l r] = false := by
  rw [containsErrors_cons, Bool.or_eq_false_iff] at hclean
  obtain ⟨hl, hr⟩ := hclean
  have hoperation {p : Position} {op : ArithmeticOp} {x y : Node}
      (hx : containsErrors [x] = false) (hy : containsErrors [y] = false) :
      containsErrors [operation p op x y] = false := by
    rw [operation, containsErrors_make (by decide), containsErrors_cons, hx, hy]
    rfl
  exact hoperation hl (hoperation (hoperation hl hr) hr)

end Remainders

/-- Arithmetic on integers of 64 bits is that of whole numbers, with a failure wherever the exact
result leaves the 64 bits or would be a quotient by zero. The operands of the remainder may be any
expressions that come to the two integers, in the room that is left for them. -/
theorem integer_arithmetic_is_exact {a b : Int} (ha : inRange a = true) :
    (∀ op, (op = .div → b ≠ 0) →
        ∃ r, Exact op a b r ∧ (∀ r', Exact op a b r' → r' = r) ∧
          arithmetic op (integer a) (integer b) =
            if inRange r then .ok (integer r) else .error .integerOverflow) ∧
      (∀ op, arithmetic op (integer a) (integer b) = .error .divisionByZero ↔
        op = .div ∧ b = 0) ∧
      (arithmetic .div (integer a) (integer b) = .error .integerOverflow ↔
        a = leastInteger ∧ b = -1) ∧
      applyUnary .negate (integer b) = arithmetic .sub (integer 0) (integer b) ∧
      OperationError.message .integerOverflow = "integer overflow" ∧
      OperationError.message .divisionByZero = "division by zero" ∧
      (b ≠ 0 → ¬ (a = leastInteger ∧ b = -1) →
        ∃ q m, Leaves a b q m ∧
          ∀ (p₁ p₂ p₃ : Position) (s : Session) (l r : Node),
            Node.containsErrors [l, r] = false →
            l.Yields (evaluationLimit - 6) s (integer a) →
            r.Yields (evaluationLimit - 6) s (integer b) →
            ∃ next, s.evaluate [Node.remainder p₁ p₂ p₃ l r] =
              (.value (some (integer m)), { s with nextMark := next })) := by
  refine ⟨?_, ?_, ?_, Value.negate_eq_sub b, rfl, rfl, ?_⟩
  · intro op hop
    obtain ⟨r, hr⟩ := Value.exists_exact (a := a) hop
    exact ⟨r, hr, fun r' => hr.unique, Value.arithmetic_of_exact hr⟩
  · intro op
    constructor
    · intro h
      by_contra hop
      have hdefined : op = .div → b ≠ 0 := fun hdiv hzero => hop ⟨hdiv, hzero⟩
      obtain ⟨r, hr⟩ := Value.exists_exact (a := a) hdefined
      rw [Value.arithmetic_of_exact hr] at h
      exact Value.checked_ne_divisionByZero r h
    · rintro ⟨rfl, rfl⟩
      exact Value.arithmetic_div_zero a
  · by_cases hzero : b = 0
    · subst hzero
      rw [Value.arithmetic_div_zero]
      exact ⟨nofun, fun h => absurd h.2 (by decide)⟩
    · have hexact : Exact .div a b (wholeQuotient a b) := ⟨_, leaves_wholeQuotient a hzero⟩
      rw [Value.arithmetic_of_exact hexact, Value.checked_eq_integerOverflow,
        ← Bool.not_eq_true, Value.inRange_wholeQuotient ha hzero, not_not]
  · intro hzero hleast
    have hq := (Value.inRange_wholeQuotient ha hzero).mpr hleast
    have hleaves := leaves_wholeQuotient a hzero
    refine ⟨_, _, hleaves, fun p₁ p₂ p₃ s l r hclean hl hr => ?_⟩
    exact Session.evaluate_yields (Node.containsErrors_remainder hclean)
      (Node.yields_remainder p₁ p₂ p₃ ha hq hleaves hl hr)

/-- What the remainder is written as is read as its tree. -/
example :
    Node.alikeAll (Node.unplacedAll (Reading.ofText "a - (a / b) * b".toList).statements)
      [Node.remainder {} {} {} (Term.nameNode {} "a") (Term.nameNode {} "b")] = true := by
  decide +kernel

/-- The least integer has a remainder by minus ten, of variables that hold the two. -/
theorem remainder_of_least_integer :
    let a := Term.nameNode {} "a"
    let b := Term.nameNode {} "b"
    let s := (Session.withBuiltins.define (.text "a") (integer leastInteger) true).define
      (.text "b") (integer (-10)) true
    ∃ next, s.evaluate [Node.remainder {} {} {} a b] =
      (.value (some (integer (-8))), { s with nextMark := next }) := by
  intro a b s
  have ha : a.Yields (evaluationLimit - 6) s (integer leastInteger) :=
    Node.yields_identifier 972 (rfl : s.find? (.text "a") = some (4, _))
  have hb : b.Yields (evaluationLimit - 6) s (integer (-10)) :=
    Node.yields_identifier 972 (rfl : s.find? (.text "b") = some (5, _))
  obtain ⟨-, -, -, -, -, -, hremainder⟩ :=
    integer_arithmetic_is_exact (a := leastInteger) (b := -10) (by decide)
  obtain ⟨q, m, hleaves, hevaluate⟩ := hremainder (by decide) (by decide)
  have hparts : Leaves leastInteger (-10) 922337203685477580 (-8) :=
    ⟨by decide, by decide, .inr (by decide)⟩
  obtain ⟨-, rfl⟩ := hleaves.unique hparts
  exact hevaluate {} {} {} s a b (by decide +kernel) ha hb

end Scriptlet
