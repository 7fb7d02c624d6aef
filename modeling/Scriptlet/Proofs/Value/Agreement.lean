import Scriptlet.Proofs.Value.Fit
import Scriptlet.Proofs.Value.Written

/-!
# Equality, membership and places

Two values without floats are equal when they are made up alike: of the same kinds, with the same
contents, in the same order. The other operations that look at contents agree with that. What is in
a row is equal to the item at some place of it, a string is in another when its characters are equal
to those from some place on, and the places are the numbers below the length.
-/

namespace Scriptlet

namespace Value

mutual

/-- The value without the marks that tell apart values made up alike. -/
def unmarked : Value → Value
  | tuple vs _ => tuple (allUnmarked vs) 0
  | array vs _ => array (allUnmarked vs) 0
  | v => v.withMark 0

def allUnmarked : List Value → List Value
  | [] => []
  | v :: vs => unmarked v :: allUnmarked vs

end

def isFloat : Value → Bool
  | float _ _ => true
  | _ => false

/-- Is there no float in the value, however deep, and no misfit? -/
structure FloatFree (v : Value) : Prop where
  fit : v.Fit
  floats : v.holds isFloat = false

/-- Only floats are odd among the values without misfits. -/
theorem isOneOdd_eq_false {a b : Value} (ha : a.Fit)
    (h : a.holds isFloat = false ∨ b.holds isFloat = false) : isOneOdd a b = false := by
  cases a with
  | float x m =>
    cases b with
    | float y n => rcases h with h | h <;> cases h
    | _ => rfl
  | misfit => exact ha.elim
  | _ => rfl

/-- Rows are compared item by item. -/
theorem sameAll_iff {as bs : List Value}
    (h : ∀ a ∈ as, ∀ b ∈ bs, (same a b || isOneOdd a b) = true ↔ a.unmarked = b.unmarked) :
    sameAll as bs = true ↔ allUnmarked as = allUnmarked bs := by
  induction as generalizing bs with
  | nil => cases bs <;> simp [sameAll, allUnmarked]
  | cons a as ih =>
    cases bs with
    | nil => simp [sameAll, allUnmarked]
    | cons b bs =>
      have hhead := h a List.mem_cons_self b List.mem_cons_self
      have htail := ih fun a ha b hb =>
        h a (List.mem_cons_of_mem _ ha) b (List.mem_cons_of_mem _ hb)
      rw [sameAll, Bool.and_eq_true, hhead, htail, allUnmarked, allUnmarked, List.cons.injEq]

/-- It is enough that one of the two is free of floats. -/
theorem same_iff {a b : Value} (ha : a.Fit) (hb : b.Fit)
    (h : a.holds isFloat = false ∨ b.holds isFloat = false) :
    same a b = true ↔ a.unmarked = b.unmarked := by
  induction a using Value.induction generalizing b with
  | h a ih =>
    have hitems (hfit : AllFit a.items) (hfit' : AllFit b.items) :
        sameAll a.items b.items = true ↔ allUnmarked a.items = allUnmarked b.items := by
      refine sameAll_iff fun u hu w hw => ?_
      have hfree := h.imp (fun h => (holds_eq_false.mp h).2 u hu)
        fun h => (holds_eq_false.mp h).2 w hw
      have hu' := (allFit_iff _).mp hfit u hu
      have hw' := (allFit_iff _).mp hfit' w hw
      rw [isOneOdd_eq_false hu' hfree, Bool.or_false]
      exact ih u hu hu' hw' hfree
    cases a with
    | tuple as m =>
      cases b with
      | tuple bs n =>
        have hitems : sameAll as bs = true ↔ allUnmarked as = allUnmarked bs := hitems ha hb
        rw [same, hitems, unmarked, unmarked, tuple.injEq]
        exact ⟨fun h => ⟨h, rfl⟩, And.left⟩
      | misfit => exact hb.elim
      | _ => simp [same, unmarked, withMark]
    | array as m =>
      cases b with
      | array bs n =>
        have hitems : sameAll as bs = true ↔ allUnmarked as = allUnmarked bs := hitems ha hb
        rw [same, hitems, unmarked, unmarked, array.injEq]
        exact ⟨fun h => ⟨h, rfl⟩, And.left⟩
      | misfit => exact hb.elim
      | _ => simp [same, unmarked, withMark]
    | float x m =>
      cases b with
      | float y n => rcases h with h | h <;> cases h
      | misfit => exact hb.elim
      | _ => simp [same, unmarked, withMark]
    | misfit => exact ha.elim
    | _ =>
      cases b with
      | misfit => exact hb.elim
      | _ => simp [same, unmarked, withMark]

section Operators

variable {a b : Value}

theorem binary_equal (ha : a.Fit) (hb : b.Fit) :
    binary BinaryOp.equal.name a b = .ok (bool (same a b)) := by
  rw [binary_eq .equal ha hb, applyBinary, (compare a b).2]

theorem binary_notEqual (ha : a.Fit) (hb : b.Fit) :
    binary BinaryOp.notEqual.name a b = .ok (bool !same a b) := by
  rw [binary_eq .notEqual ha hb, applyBinary, (compare a b).2]

/-- Whether membership can be asked for, and what it is, does not depend on the operator. -/
theorem toOption_contains (op op' : BinaryOp) (a b : Value) :
    (contains op a b).toOption = (contains op' a b).toOption := by
  unfold contains
  split
  · rfl
  · rfl
  · split <;> rfl
  · rfl

theorem toOption_misfitContains (op op' : BinaryOp) (a b : Value) :
    (misfitContains op a b).toOption = (misfitContains op' a b).toOption := by
  have hcontains := toOption_contains op op' a b
  have hmapped (op : BinaryOp) : ((contains op a b).mapError Failure.operation).toOption =
      (contains op a b).toOption := by
    cases contains op a b <;> rfl
  unfold misfitContains
  split
  · rw [hmapped, hmapped, hcontains]
  · rfl
  · rfl
  · rw [hmapped, hmapped, hcontains]

theorem misfitContains_eq {op : BinaryOp} (ha : a.isMisfit = false) (hb : b.isMisfit = false) :
    misfitContains op a b = (contains op a b).mapError .operation := by
  cases a with
  | misfit => cases ha
  | string s =>
    cases b with
    | misfit => cases hb
    | _ => rfl
  | _ => rfl

/-- Membership and its negation, for all values. -/
theorem binary_member (a b : Value) :
    binary BinaryOp.member.name a b = (misfitContains .member a b).map (fun r => bool r) ∧
      binary BinaryOp.notMember.name a b =
        (misfitContains .notMember a b).map (fun r => bool !r) := by
  by_cases hmisfit : (a.isMisfit || b.isMisfit) = true
  · rw [binary, binary, if_pos hmisfit, if_pos hmisfit]
    exact ⟨rfl, rfl⟩
  · rw [binary, binary, if_neg hmisfit, if_neg hmisfit]
    rw [Bool.not_eq_true, Bool.or_eq_false_iff] at hmisfit
    rw [misfitContains_eq hmisfit.1 hmisfit.2, misfitContains_eq hmisfit.1 hmisfit.2, binaryNamed,
      binaryNamed, BinaryOp.ofName?_name, BinaryOp.ofName?_name]
    simp only [applyBinary]
    constructor
    · cases contains .member a b <;> rfl
    · cases contains .notMember a b <;> rfl

theorem member_iff_notMember (a b : Value) :
    (∀ r, binary BinaryOp.member.name a b = .ok (bool r) ↔
        binary BinaryOp.notMember.name a b = .ok (bool !r)) ∧
      ((∃ e, binary BinaryOp.member.name a b = .error e) ↔
        ∃ e, binary BinaryOp.notMember.name a b = .error e) := by
  obtain ⟨hmember, hnotMember⟩ := binary_member a b
  have hsame := toOption_misfitContains .member .notMember a b
  rw [hmember, hnotMember]
  rcases hr : misfitContains .member a b with e | r <;>
    rcases hr' : misfitContains .notMember a b with e' | r' <;>
    rw [hr, hr'] at hsame
  · exact ⟨fun _ => ⟨nofun, nofun⟩, ⟨fun _ => ⟨e', rfl⟩, fun _ => ⟨e, rfl⟩⟩⟩
  · cases hsame
  · cases hsame
  · cases hsame
    refine ⟨fun q => ?_, ⟨nofun, nofun⟩⟩
    simp [Except.map]

end Operators

section Places

variable {c x v : Value} {n : Nat}

theorem item?_isSome {i : Nat} (hlength : c.length? = some n) :
    (c.item? i).isSome = true ↔ i < n := by
  cases c with
  | string s =>
    cases hlength
    rw [item?, Option.isSome_map, isSome_getElem?, String.length_toList]
  | tuple vs m =>
    cases hlength
    rw [item?, isSome_getElem?]
  | array vs m =>
    cases hlength
    rw [item?, isSome_getElem?]
  | _ => cases hlength

theorem index_integer (hlength : c.length? = some n) (i : Int) :
    c.index (integer i) =
      match if i < 0 then none else c.item? i.toNat with
      | some v => .ok v
      | none => .error (.outOfRange i c.kind n) := by
  unfold index
  generalize c.length? = l at hlength ⊢
  cases hlength
  rfl

theorem itemAt_natural (hc : c.Fit) (hlength : c.length? = some n) (i : Nat) :
    itemAt c (integer i) = .ok v ↔ c.item? i = some v := by
  have hfit : (integer i).Fit := trivial
  rw [itemAt_eq hc hfit, index_integer hlength, if_neg (Int.not_lt.mpr (Int.natCast_nonneg i)),
    Int.toNat_natCast]
  cases c.item? i with
  | none => exact ⟨nofun, nofun⟩
  | some w => exact ⟨fun h => by cases h; rfl, fun h => by cases h; rfl⟩

/-- There is an item exactly at the integers from zero to below the length. -/
theorem itemAt_isOk {place : Value} (hc : c.Fit) (hplace : place.Fit)
    (hlength : c.length? = some n) :
    (∃ v, itemAt c place = .ok v) ↔ ∃ i : Int, place = integer i ∧ 0 ≤ i ∧ i < n := by
  have hnatural (i : Nat) : (∃ v, itemAt c (integer i) = .ok v) ↔ i < n := by
    rw [← item?_isSome hlength, Option.isSome_iff_exists]
    exact exists_congr fun v => itemAt_natural hc hlength i
  constructor
  · rintro ⟨v, hv⟩
    have hindex := hv
    rw [itemAt_eq hc hplace] at hindex
    cases place with
    | integer i =>
      have hnonneg : 0 ≤ i := by
        by_contra hneg
        rw [index_integer hlength, if_pos (Int.not_le.mp hneg)] at hindex
        cases hindex
      obtain ⟨k, rfl⟩ := Int.eq_ofNat_of_zero_le hnonneg
      have hk := (hnatural k).mp ⟨v, hv⟩
      exact ⟨k, rfl, hnonneg, Int.ofNat_lt.mpr hk⟩
    | _ =>
      simp only [index, hlength] at hindex
      cases hindex
  · rintro ⟨i, rfl, hnonneg, hi⟩
    obtain ⟨k, rfl⟩ := Int.eq_ofNat_of_zero_le hnonneg
    exact (hnatural k).mpr (Int.ofNat_lt.mp hi)

theorem Fit.item? {i : Nat} (hc : c.Fit) (h : c.item? i = some v) : v.Fit := by
  cases c with
  | string s =>
    obtain ⟨a, -, rfl⟩ := Option.map_eq_some_iff.mp h
    trivial
  | tuple vs m => exact (allFit_iff vs).mp hc v (List.mem_of_getElem? h)
  | array vs m => exact (allFit_iff vs).mp hc v (List.mem_of_getElem? h)
  | _ => cases h

/-- What is in a row is equal to the item at some place of it. -/
theorem binary_member_row (hc : c.Fit) (hx : x.FloatFree) (hlength : c.length? = some n)
    (hrow : c.kind = .tuple ∨ c.kind = .array) :
    ∃ r, binary BinaryOp.member.name x c = .ok (bool r) ∧
      (r = true ↔ ∃ i : Int, 0 ≤ i ∧ i < n ∧ ∃ v, itemAt c (integer i) = .ok v ∧
        binary BinaryOp.equal.name v x = .ok (bool true)) := by
  have hfound : ∃ r, binary BinaryOp.member.name x c = .ok (bool r) ∧
      (r = true ↔ ∃ (i : Nat) (v : Value), c.item? i = some v ∧ same x v = true) := by
    have hmember : binary BinaryOp.member.name x c = applyBinary .member x c :=
      binary_eq .member hx.fit hc
    have hany (vs : List Value) : (vs.any fun v => (compare x v).1) = true ↔
        ∃ (i : Nat) (v : Value), vs[i]? = some v ∧ same x v = true := by
      rw [List.any_eq_true]
      constructor
      · rintro ⟨v, hv, hsame⟩
        obtain ⟨i, hi⟩ := List.getElem?_of_mem hv
        exact ⟨i, v, hi, (compare x v).2 ▸ hsame⟩
      · rintro ⟨i, v, hi, hsame⟩
        exact ⟨v, List.mem_of_getElem? hi, (compare x v).2.trans hsame⟩
    cases c with
    | tuple vs m => exact ⟨_, hmember, hany vs⟩
    | array vs m => exact ⟨_, hmember, hany vs⟩
    | misfit => exact hc.elim
    | _ => rcases hrow with h | h <;> cases h
  obtain ⟨r, hr, hiff⟩ := hfound
  refine ⟨r, hr, hiff.trans ?_⟩
  have hequal {i : Nat} {v : Value} (hi : c.item? i = some v) :
      same x v = true ↔ binary BinaryOp.equal.name v x = .ok (bool true) := by
    have hv := hc.item? hi
    have hswap : same x v = same v x := by
      rw [Bool.eq_iff_iff, same_iff hx.fit hv (.inl hx.floats), same_iff hv hx.fit (.inr hx.floats)]
      exact eq_comm
    rw [binary_equal hv hx.fit, hswap]
    simp
  constructor
  · rintro ⟨i, v, hi, hsame⟩
    have hlt := (item?_isSome hlength).mp (Option.isSome_iff_exists.mpr ⟨v, hi⟩)
    exact ⟨i, Int.natCast_nonneg i, Int.ofNat_lt.mpr hlt, v, (itemAt_natural hc hlength i).mpr hi,
      (hequal hi).mp hsame⟩
  · rintro ⟨i, hnonneg, -, v, hv, hsame⟩
    obtain ⟨k, rfl⟩ := Int.eq_ofNat_of_zero_le hnonneg
    have hk := (itemAt_natural hc hlength k).mp hv
    exact ⟨k, v, hk, (hequal hk).mpr hsame⟩

end Places

theorem occursIn_iff {s t : List Char} : occursIn s t = true ↔ s <:+: t := by
  induction t with
  | nil => rw [occursIn, List.infix_nil, List.isEmpty_iff]
  | cons c t ih =>
    rw [occursIn, Bool.or_eq_true, ih, List.isPrefixOf_iff_prefix, List.infix_cons_iff]

/-- The string of the character at a place. -/
theorem itemAt_string (s : String) (i : Nat) (v : Value) :
    itemAt (string s) (integer i) = .ok v ↔
      ∃ c, s.toList[i]? = some c ∧ v = string (String.singleton c) := by
  have hfit : (string s).Fit := trivial
  rw [itemAt_natural hfit rfl, item?, Option.map_eq_some_iff]
  simp only [eq_comm]

theorem equal_singletons (c d : Char) :
    binary BinaryOp.equal.name (string (String.singleton c)) (string (String.singleton d)) =
      .ok (bool true) ↔ c = d := by
  have hfit (s : String) : (string s).Fit := trivial
  rw [binary_equal (hfit _) (hfit _), same]
  simp

theorem binary_member_string (s t : String) :
    ∃ r, binary BinaryOp.member.name (string s) (string t) = .ok (bool r) ∧
      (r = true ↔ ∃ k : Nat, k + s.length ≤ t.length ∧ ∀ j < s.length, ∃ v w,
        itemAt (string t) (integer (k + j : Nat)) = .ok v ∧
          itemAt (string s) (integer (j : Nat)) = .ok w ∧
          binary BinaryOp.equal.name v w = .ok (bool true)) := by
  refine ⟨occursIn s.toList t.toList, rfl, ?_⟩
  rw [occursIn_iff, List.infix_iff_getElem?]
  refine exists_congr fun k => ?_
  rw [← String.length_toList, ← String.length_toList, Nat.add_comm]
  refine and_congr_right fun _ => forall_congr' fun j => forall_congr' fun hj => ?_
  have hchar : s.toList[j]? = some s.toList[j] := List.getElem?_eq_getElem hj
  constructor
  · intro h
    refine ⟨_, _, (itemAt_string t _ _).mpr ⟨s.toList[j], ?_, rfl⟩,
      (itemAt_string s _ _).mpr ⟨s.toList[j], hchar, rfl⟩, (equal_singletons _ _).mpr rfl⟩
    rw [Nat.add_comm, h]
  · rintro ⟨v, w, hv, hw, hequal⟩
    obtain ⟨c, hc, rfl⟩ := (itemAt_string t _ _).mp hv
    obtain ⟨d, hd, rfl⟩ := (itemAt_string s _ _).mp hw
    obtain rfl := (equal_singletons c d).mp hequal
    rw [Nat.add_comm, hc, ← hd, hchar]

theorem len_apply {c : Value} {n : Nat} (hc : c.Fit) (hlength : c.length? = some n)
    (hn : n ≤ greatestInteger) : Builtin.len.apply [c] = .ok ⟨integer n, ""⟩ := by
  have hfit : AllFit [c] := ⟨hc, trivial⟩
  have hrange : inRange n = true := by
    rw [inRange, Bool.and_eq_true, decide_eq_true_iff, decide_eq_true_iff]
    have hleast : leastInteger ≤ 0 := by decide
    omega
  rw [Builtin.apply_eq .len hfit]
  simp only [Builtin.call, hlength, checked, hrange, if_true]
  rfl

/-- Equality never fails and sees what values are made up of, if there are no floats. The values
with a length are the strings, the tuples and the arrays; those that have items by places have them
at the numbers below it, and what is in them is what is equal to one of these. A length beyond the
64 bits would be no integer. -/
theorem equality_membership_and_places_agree :
    (∀ a b : Value, a.FloatFree → b.FloatFree →
        ∃ r, binary BinaryOp.equal.name a b = .ok (bool r) ∧
          binary BinaryOp.notEqual.name a b = .ok (bool !r) ∧
          (r = true ↔ a.unmarked = b.unmarked)) ∧
      (∀ (c x : Value) (n : Nat), c.Fit → x.FloatFree → c.length? = some n →
        (c.kind = .tuple ∨ c.kind = .array) →
        ∃ r, binary BinaryOp.member.name x c = .ok (bool r) ∧
          (r = true ↔ ∃ i : Int, 0 ≤ i ∧ i < n ∧ ∃ v, itemAt c (integer i) = .ok v ∧
            binary BinaryOp.equal.name v x = .ok (bool true))) ∧
      (∀ s t : String,
        ∃ r, binary BinaryOp.member.name (string s) (string t) = .ok (bool r) ∧
          (r = true ↔ ∃ k : Nat, k + s.length ≤ t.length ∧ ∀ j < s.length, ∃ v w,
            itemAt (string t) (integer (k + j : Nat)) = .ok v ∧
              itemAt (string s) (integer (j : Nat)) = .ok w ∧
              binary BinaryOp.equal.name v w = .ok (bool true))) ∧
      (∀ x c : Value,
        (∀ r, binary BinaryOp.member.name x c = .ok (bool r) ↔
            binary BinaryOp.notMember.name x c = .ok (bool !r)) ∧
          ((∃ e, binary BinaryOp.member.name x c = .error e) ↔
            ∃ e, binary BinaryOp.notMember.name x c = .error e)) ∧
      (∀ (c place : Value) (n : Nat), c.Fit → place.Fit → c.length? = some n →
        ((∃ v, itemAt c place = .ok v) ↔ ∃ i : Int, place = integer i ∧ 0 ≤ i ∧ i < n)) ∧
      (∀ (c : Value) (n : Nat), c.Fit → c.length? = some n → n ≤ greatestInteger →
        Builtin.len.apply [c] = .ok ⟨integer n, ""⟩) := by
  refine ⟨fun a b ha hb => ?_, fun c x n hc hx => binary_member_row hc hx, binary_member_string,
    member_iff_notMember, fun c place n => itemAt_isOk, fun c n => len_apply⟩
  exact ⟨same a b, binary_equal ha.fit hb.fit, binary_notEqual ha.fit hb.fit,
    same_iff ha.fit hb.fit (.inl ha.floats)⟩

/-- A tuple that was made twice is in an array of the other one, behind a float. -/
theorem tuple_in_array_agrees :
    let x := tuple [bool true, array [integer 1] 1] 2
    let y := tuple [bool true, array [integer 1] 3] 4
    let c := array [float 0.5 5, y] 6
    binary BinaryOp.equal.name x y = .ok (bool true) ∧
      binary BinaryOp.notMember.name x c = .ok (bool false) ∧
      (∃ v, itemAt c (integer 1) = .ok v) ∧
      Builtin.len.apply [c] = .ok ⟨integer 2, ""⟩ := by
  intro x y c
  have hx : x.FloatFree := ⟨⟨trivial, ⟨trivial, trivial⟩, trivial⟩, by decide⟩
  have hy : y.FloatFree := ⟨⟨trivial, ⟨trivial, trivial⟩, trivial⟩, by decide⟩
  have hc : c.Fit := ⟨trivial, hy.fit, trivial⟩
  obtain ⟨hequality, hrows, -, hnegation, hplaces, hlengths⟩ :=
    equality_membership_and_places_agree
  obtain ⟨r, hequal, -, hr⟩ := hequality y x hy hx
  obtain rfl : r = true := hr.mpr rfl
  have hitem := (hplaces c (integer 1) 2 hc trivial rfl).mpr ⟨1, rfl, by decide, by decide⟩
  obtain ⟨found, hmember, hfound⟩ := hrows c x 2 hc hx rfl (.inr rfl)
  obtain rfl : found = true := hfound.mpr ⟨1, by decide, by decide, y, rfl, hequal⟩
  obtain ⟨r, hequal, -, hr⟩ := hequality x y hx hy
  obtain rfl : r = true := hr.mpr rfl
  exact ⟨hequal, ((hnegation x c).1 true).mp hmember, hitem, hlengths c 2 hc rfl (by decide)⟩

end Value

end Scriptlet
