import Mathlib.Algebra.Group.Nat.Defs
import Scriptlet.Decimal.Numeral

/-!
# Which floats are finite

A float is finite if it is neither infinite nor a NaN, which shows in the bits of its exponent.
From the logical model of floats two facts are drawn: a finite float has a finite negative, and
no numeral without an exponent is read as a NaN.
-/

namespace Scriptlet.Decimal

open Float.Model (Format UnpackedFloat)
open Float.Model.UnpackedFloat (unpackExponent unpackMantissa packComponents)

section Unpacked

variable {spec : Format}

/-- What a float is, by its bits. All bits of the exponent are set for infinite floats and NaNs
only. The exponent of a finite float is no larger than these bits say, or than one. -/
inductive Unpacked (b : BitVec spec.numBits) : UnpackedFloat → Prop where
  | infinity {s : UnpackedFloat.Sign} : unpackExponent b = -1#_ → unpackMantissa b = 0#_ →
      Unpacked b (.infinity s)
  | notANumber : unpackExponent b = -1#_ → unpackMantissa b ≠ 0#_ → Unpacked b .notANumber
  | zero {s : UnpackedFloat.Sign} : unpackExponent b ≠ -1#_ → Unpacked b (.zero s)
  | finite {s : UnpackedFloat.Sign} {m : Nat} {e : Int} {hm : 0 < m} : unpackExponent b ≠ -1#_ →
      e + spec.exponentBias + spec.mantissaBitsWithoutImplicit ≤
        (max 1 (unpackExponent b).toNat : Nat) →
      Unpacked b (.finite s m e hm)

theorem unpacked_unpack (b : BitVec spec.numBits) :
    Unpacked b (UnpackedFloat.unpack spec b) := by
  unfold UnpackedFloat.unpack
  dsimp only
  by_cases hones : unpackExponent b = -1#_
  · rw [if_pos hones]
    by_cases hnone : unpackMantissa b = 0#_
    · rw [if_pos hnone]
      exact .infinity hones hnone
    · rw [if_neg hnone]
      exact .notANumber hones hnone
  · rw [if_neg hones]
    by_cases hzero : unpackExponent b = 0#_
    · rw [if_pos hzero]
      by_cases hnone : unpackMantissa b = 0#_
      · rw [dif_pos hnone]
        exact .zero hones
      · have hleast : (unpackExponent b).toNat = 0 := by
          rw [hzero, BitVec.toNat_ofNat, Nat.zero_mod]
        rw [dif_neg hnone]
        exact .finite hones (by omega)
    · rw [if_neg hzero]
      exact .finite hones (by omega)

theorem isFinite_unpack {b : BitVec spec.numBits} (h : unpackExponent b ≠ -1#_) :
    (UnpackedFloat.unpack spec b).isFinite = true := by
  have hb := unpacked_unpack b
  generalize UnpackedFloat.unpack spec b = u at hb
  cases hb with
  | infinity hones => exact absurd hones h
  | notANumber hones => exact absurd hones h
  | zero => rfl
  | finite => rfl

/-- An infinite float has no bits besides those of its exponent. -/
theorem isNaN_unpack_eq_false {b : BitVec spec.numBits}
    (h : unpackExponent b ≠ -1#_ ∨ unpackMantissa b = 0#_) :
    (UnpackedFloat.unpack spec b).isNaN = false := by
  have hb := unpacked_unpack b
  generalize UnpackedFloat.unpack spec b = u at hb
  cases hb with
  | notANumber hones hnone => exact absurd (h.resolve_left fun hne => hne hones) hnone
  | _ => rfl

theorem ofNat_ne_ones {n : Nat} (h : ¬ 2 ^ spec.exponentBits ≤ n + 1) :
    BitVec.ofNat spec.exponentBits n ≠ -1#_ := by
  intro hones
  have hnat := congrArg BitVec.toNat hones
  rw [BitVec.neg_one_eq_allOnes, BitVec.toNat_allOnes, BitVec.toNat_ofNat,
    Nat.mod_eq_of_lt (by omega)] at hnat
  omega

theorem zero_ne_ones (spec : Format) : BitVec.ofNat spec.exponentBits 0 ≠ -1#_ := by
  have hpos := spec.he
  intro hones
  have hnat := congrArg BitVec.toNat hones
  rw [BitVec.neg_one_eq_allOnes, BitVec.toNat_allOnes, BitVec.toNat_ofNat, Nat.zero_mod] at hnat
  have htwo : 2 ^ 1 ≤ 2 ^ spec.exponentBits := Nat.pow_le_pow_right (by decide) hpos
  omega

/-- Packing makes no NaN of a float that is none. -/
theorem isNaN_pack {u : UnpackedFloat} (h : u.isNaN = false) :
    (UnpackedFloat.unpack spec (UnpackedFloat.pack spec u)).isNaN = false := by
  apply isNaN_unpack_eq_false
  fun_cases UnpackedFloat.pack spec u with
  | case1 => cases h
  | case2 s => exact .inr (UnpackedFloat.unpackMantissa_packComponents ..)
  | case3 s => exact .inr (UnpackedFloat.unpackMantissa_packComponents ..)
  | case4 s m e hm biased hover => exact .inr (UnpackedFloat.unpackMantissa_packComponents ..)
  | case5 s m e hm actual biased hover hnormal =>
    rw [UnpackedFloat.unpackExponent_packComponents]
    exact .inl (ofNat_ne_ones hover)
  | case6 s m e hm actual biased hover hnormal =>
    rw [UnpackedFloat.unpackExponent_packComponents]
    exact .inl (zero_ne_ones spec)

theorem isNaN_dite {c : Prop} [Decidable c] {t : c → UnpackedFloat} {e : ¬ c → UnpackedFloat}
    (ht : ∀ h, (t h).isNaN = false) (he : ∀ h, (e h).isNaN = false) :
    (if h : c then t h else e h).isNaN = false := by
  by_cases h : c
  · rw [dif_pos h, ht]
  · rw [dif_neg h, he]

theorem isNaN_ite {c : Prop} [Decidable c] {u v : UnpackedFloat} (hu : u.isNaN = false)
    (hv : v.isNaN = false) : (if c then u else v).isNaN = false :=
  isNaN_dite (fun _ => hu) fun _ => hv

/-- Rounding gives zero or a finite float, whatever comes of it when it is packed. -/
theorem isNaN_roundWithAccuracy (s : UnpackedFloat.Sign) (m : Nat) (e : Int)
    (a : UnpackedFloat.Accuracy) :
    (UnpackedFloat.roundWithAccuracy spec s m e a).isNaN = false := by
  unfold UnpackedFloat.roundWithAccuracy
  dsimp only
  exact isNaN_dite (fun _ => rfl) fun _ => rfl

theorem isNaN_ofScientific (m : Nat) (e : Int) :
    (UnpackedFloat.ofScientific spec m e).isNaN = false := by
  unfold UnpackedFloat.ofScientific
  refine isNaN_dite (fun _ => rfl) fun _ => ?_
  refine isNaN_ite rfl (isNaN_ite rfl (isNaN_ite ?_ ?_))
  · exact isNaN_roundWithAccuracy ..
  · exact isNaN_roundWithAccuracy ..

theorem isNaN_normalize (m e : Int) (s : UnpackedFloat.Sign) :
    (UnpackedFloat.normalize spec m e s).isNaN = false := by
  unfold UnpackedFloat.normalize
  split
  · exact isNaN_roundWithAccuracy ..
  · rfl
  · exact isNaN_roundWithAccuracy ..

/-- Is it a finite float other than zero? -/
def isProper : UnpackedFloat → Bool
  | .finite .. => true
  | _ => false

theorem isNaN_mul {u v : UnpackedFloat} (hu : u.isNaN = false) (hv : isProper v = true) :
    (UnpackedFloat.mul spec u v).isNaN = false := by
  cases v with
  | finite t n f hn =>
    cases u with
    | finite s m e hm => exact isNaN_roundWithAccuracy ..
    | notANumber => cases hu
    | _ => rfl
  | _ => cases hv

theorem isNaN_div {u v : UnpackedFloat} (hu : u.isNaN = false) (hv : isProper v = true) :
    (UnpackedFloat.div spec u v).isNaN = false := by
  cases v with
  | finite t n f hn =>
    cases u with
    | finite s m e hm => exact isNaN_roundWithAccuracy ..
    | notANumber => cases hu
    | _ => rfl
  | _ => cases hv

/-- The exponent of a float that was unpacked does not overflow when it is packed again. -/
theorem not_overflow_of_unpack (hbits : 1 < spec.exponentBits) {b : BitVec spec.numBits}
    {s : UnpackedFloat.Sign} {m : Nat} {e : Int} {hm : 0 < m}
    (h : UnpackedFloat.unpack spec b = .finite s m e hm) :
    ¬ 2 ^ spec.exponentBits ≤
      (e + spec.exponentBias + spec.mantissaBitsWithoutImplicit).toNat + 1 := by
  have hfour : 2 ^ 2 ≤ 2 ^ spec.exponentBits := Nat.pow_le_pow_right (by decide) hbits
  have hb := unpacked_unpack b
  rw [h] at hb
  cases hb with
  | finite hones he =>
    have hlt := (unpackExponent b).isLt
    have hne : (unpackExponent b).toNat ≠ 2 ^ spec.exponentBits - 1 := by
      intro heq
      apply hones
      rw [BitVec.neg_one_eq_allOnes, ← BitVec.toNat_inj, BitVec.toNat_allOnes, heq]
    omega

end Unpacked

theorem isFinite_of_not_isInf {x : Float} (hinf : x.isInf = false) (hnan : x.isNaN = false) :
    x.isFinite = true := by
  change x.toModel.unpack.isInf = false at hinf
  change x.toModel.unpack.isNaN = false at hnan
  change x.toModel.unpack.isFinite = true
  cases hx : x.toModel.unpack <;> rw [hx] at hinf hnan
  · cases hinf
  · cases hnan
  · rfl
  · rfl

/-- The negative of a finite float is finite. -/
theorem isFinite_neg {x : Float} (h : x.isFinite = true) : (-x).isFinite = true := by
  change x.toModel.unpack.isFinite = true at h
  change (UnpackedFloat.unpack .binary64 (UnpackedFloat.pack .binary64
    x.toModel.unpack.neg)).isFinite = true
  apply isFinite_unpack
  cases hx : x.toModel.unpack with
  | infinity s => rw [hx] at h; cases h
  | notANumber => rw [hx] at h; cases h
  | zero s =>
    unfold UnpackedFloat.neg UnpackedFloat.pack UnpackedFloat.packedZero
    rw [UnpackedFloat.unpackExponent_packComponents]
    exact zero_ne_ones .binary64
  | finite s m e hm =>
    have hroom := not_overflow_of_unpack (by decide) hx
    unfold UnpackedFloat.neg UnpackedFloat.pack
    dsimp only
    rw [if_neg hroom]
    split
    · rw [UnpackedFloat.unpackExponent_packComponents]
      exact ofNat_ne_ones hroom
    · rw [UnpackedFloat.unpackExponent_packComponents]
      exact zero_ne_ones .binary64

theorem isProper_powerOfTen {e : Nat} (h : e < Float.exactlyRepresentablePowersOfTen.size) :
    isProper Float.exactlyRepresentablePowersOfTen[e].toModel.unpack = true := by
  have hall : (Float.exactlyRepresentablePowersOfTen.all fun x =>
      isProper x.toModel.unpack) = true := by
    decide +kernel
  exact Array.all_eq_true.mp hall e h

theorem isNaN_floatOfScientific (m : Nat) (s : Bool) (e : Nat) :
    (Float.ofScientific m s e).isNaN = false := by
  have hwhole : m.toUInt64.toFloat.toModel.unpack.isNaN = false := isNaN_pack (isNaN_normalize ..)
  unfold Float.ofScientific
  split
  · dsimp only
    split
    · exact isNaN_pack (isNaN_div hwhole (isProper_powerOfTen _))
    · exact isNaN_pack (isNaN_mul hwhole (isProper_powerOfTen _))
  · exact isNaN_pack (isNaN_ofScientific ..)

/-- No numeral without a sign and an exponent is read as a NaN. -/
theorem isNaN_toFloat (whole fraction : List Char) :
    (Numeral.mk false whole fraction none).toFloat.isNaN = false := by
  unfold Numeral.toFloat
  dsimp only
  rw [if_neg (by decide), Option.getD_none]
  split
  · exact isNaN_floatOfScientific ..
  · rw [if_neg (by omega)]
    exact isNaN_floatOfScientific ..

end Scriptlet.Decimal
