import Scriptlet.Decimal.Numeral

/-!
# Numbers of both types

A number is a whole number or a float. In arithmetic a whole number that meets a
float becomes the nearest float first; in comparisons both count exactly. None of
this happens in the language, which never mixes the two: it is for data that
trees made by hand bring in.
-/

namespace Scriptlet

inductive Number where
  | whole (n : Int)
  | float (x : Float)

namespace Number

/-- The float nearest to a whole number. -/
def nearestFloat (n : Int) : Float :=
  Decimal.Numeral.toFloat ⟨n < 0, Nat.toDigits 10 n.natAbs, [], none⟩

def toFloat : Number → Float
  | whole n => nearestFloat n
  | float x => x

/-- The whole number that a float is, if it is one. -/
def wholeOf? (x : Float) : Option Int :=
  match Decimal.magnitude? x with
  | none => none
  | some (m, q) =>
    let parts : Nat := Nat.pow 2 (-q).toNat
    if m % parts ≠ 0 then none
    else
      let n : Int := m / parts * Nat.pow 2 q.toNat
      some (if Decimal.isNegative x then -n else n)

/-- Do the two denote one number? A NaN denotes none. -/
def same : Number → Number → Bool
  | whole a, whole b => a = b
  | float x, float y => x == y
  | whole a, float y => wholeOf? y = some a
  | float x, whole b => wholeOf? x = some b

def isZero (a : Number) : Bool := a.same (whole 0)

/-- Applies the operation on whole numbers or, if one is a float, that on floats. -/
def combine (onWhole : Int → Int → Int) (onFloats : Float → Float → Float) :
    Number → Number → Number
  | whole a, whole b => whole (onWhole a b)
  | a, b => float (onFloats a.toFloat b.toFloat)

def neg : Number → Number
  | whole a => whole (-a)
  | float x => float (-x)

/-- The float `m * 2 ^ q`, which has to be one. -/
def exactFloat (m : Nat) (q : Int) : Float :=
  if 0 ≤ q then Float.ofScientific (m * Nat.pow 2 q.toNat) false 0
  else Float.ofScientific (m * Nat.pow 5 (-q).toNat) true (-q).toNat

/-- What remains of `x` when `y` is taken away as often as it goes, both finite and not
negative. The remainder of two floats is a float. -/
def remainder (x y : Float) : Float :=
  match Decimal.magnitude? x, Decimal.magnitude? y with
  | some (m, q), some (n, r) =>
    let least := min q r
    let parts (m : Nat) (q : Int) : Nat := m * Nat.pow 2 (q - least).toNat
    exactFloat (parts m q % parts n r) least
  | _, _ => 0.0 / 0.0

/-- How often `y` goes into `x`, both not negative. The division is rounded and may miss
the whole number by a little. -/
def timesInto (x y : Float) : Float :=
  let ratio := (x - remainder x y) / y
  if ratio == 0.0 then 0.0
  else if ratio - ratio.floor > 0.5 then ratio.floor + 1.0
  else ratio.floor

/-- The quotient of whole numbers: that of their sizes, turned around if the signs differ. -/
def wholeQuotient (x y : Int) : Int :=
  let size : Int := (x.natAbs / y.natAbs : Nat)
  if decide (0 ≤ x) = decide (0 < y) then size else -size

/-- The quotient of floats with the fraction cut off. -/
def floatQuotient (x y : Float) : Float :=
  let size := timesInto x.abs y.abs
  if decide (0.0 ≤ x) = decide (0.0 < y) then size else -size

/-- The quotient with the fraction cut off; the divisor is not zero. -/
def quotient : Number → Number → Number := combine wholeQuotient floatQuotient

end Number

end Scriptlet
