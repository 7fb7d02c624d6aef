/-!
# The shortest decimal that reads back

A finite nonzero float is `m * 2 ^ q` for whole numbers `m` and `q`, and every
real number in a small interval around it reads back as that float. Among the
decimals in the interval those with the fewest digits are chosen, and of these
the one nearest to the float; of two that are equally near, the one whose last
digit is even. Everything is computed on whole numbers.
-/

namespace Scriptlet.Decimal

/-- The decimal `digits * 10 ^ exponent`. -/
structure Scaled where
  digits : Nat
  exponent : Int
deriving DecidableEq, Repr

/-- A positive fraction, as its numerator over its denominator. -/
structure Ratio where
  num : Nat
  den : Nat
deriving DecidableEq, Repr

namespace Ratio

/-- The fraction times `base ^ k`. -/
def scale (r : Ratio) (base : Nat) (k : Int) : Ratio :=
  if 0 ≤ k then ⟨r.num * Nat.pow base k.toNat, r.den⟩
  else ⟨r.num, r.den * Nat.pow base (-k).toNat⟩

def le (a b : Ratio) : Bool := a.num * b.den ≤ b.num * a.den

def lt (a b : Ratio) : Bool := a.num * b.den < b.num * a.den

/-- The distance between two fractions. -/
def distance (a b : Ratio) : Ratio :=
  let l := a.num * b.den
  let r := b.num * a.den
  ⟨(l - r) + (r - l), a.den * b.den⟩

end Ratio

def digitCount (n : Nat) : Nat := (Nat.toDigits 10 n).length

/-- The exponent of ten of the leading digit. -/
def leadingExponent (r : Ratio) : Int :=
  if r.den ≤ r.num then digitCount (r.num / r.den) - 1
  else -(digitCount ((r.den - 1) / r.num) : Int)

/-- The reals that read back as one float: from `low` to `high`, the ends
included when `closed`. -/
structure Interval where
  low : Ratio
  high : Ratio
  closed : Bool

def Interval.contains (i : Interval) (r : Ratio) : Bool :=
  if i.closed then i.low.le r && r.le i.high else i.low.lt r && r.lt i.high

/-- Of the two multiples of `10 ^ k` next to `value`, the better one that lies in
the interval, if one does. -/
def nearestOnGrid (value : Ratio) (i : Interval) (k : Int) : Option Scaled :=
  let scaled := value.scale 10 (-k)
  let below := scaled.num / scaled.den
  let ratio (n : Nat) : Ratio := Ratio.scale ⟨n, 1⟩ 10 k
  let dBelow := (ratio below).distance value
  let dAbove := (ratio (below + 1)).distance value
  let preferBelow := dBelow.lt dAbove || (dBelow.le dAbove && below % 2 = 0)
  match i.contains (ratio below), i.contains (ratio (below + 1)) with
  | true, true => some ⟨if preferBelow then below else below + 1, k⟩
  | true, false => some ⟨below, k⟩
  | false, true => some ⟨below + 1, k⟩
  | false, false => none

/-- Tries one digit, then two, and so on. -/
def shortestFrom (value : Ratio) (i : Interval) (lead : Int) : Nat → Nat → Option Scaled
  | _, 0 => none
  | n, more + 1 =>
    match nearestOnGrid value i (lead - n) with
    | some d => some d
    | none => shortestFrom value i lead (n + 1) more

/-- One more than the largest fraction that a float holds besides its exponent. -/
def fractionBound : Nat := 0x10000000000000

/-- The magnitude of a float as `m * 2 ^ q`; `none` for infinities and NaN. -/
def magnitude? (x : Float) : Option (Nat × Int) :=
  let bits := x.toBits.toNat
  let exponent : Nat := bits / fractionBound % 0x800
  let fraction : Nat := bits % fractionBound
  if exponent = 0x7FF then none
  else if exponent = 0 then some (fraction, -1074)
  else some (fraction + fractionBound, (exponent : Int) - 1075)

def isNegative (x : Float) : Bool := x.toBits.toNat / (0x800 * fractionBound) = 1

/-- The interval of `m * 2 ^ q`. The gap below is half as wide when `m` is the
least of its exponent and that is not the least exponent. -/
def intervalOf (m : Nat) (q : Int) : Interval :=
  let quarter (n : Nat) : Ratio := Ratio.scale ⟨n, 1⟩ 2 (q - 2)
  let narrow := m = fractionBound ∧ q ≠ -1074
  ⟨quarter (4 * m - if narrow then 1 else 2), quarter (4 * m + 2), m % 2 = 0⟩

/-- No digit of the result is a trailing zero. -/
def Scaled.trimmed (d : Scaled) : Scaled :=
  go d.digits d.exponent (digitCount d.digits)
where
  go (digits : Nat) (exponent : Int) : Nat → Scaled
    | 0 => ⟨digits, exponent⟩
    | fuel + 1 =>
      if digits ≠ 0 ∧ digits % 10 = 0 then go (digits / 10) (exponent + 1) fuel
      else ⟨digits, exponent⟩

/-- The shortest decimal for `m * 2 ^ q`; seventeen digits always suffice. -/
def shortest (m : Nat) (q : Int) : Scaled :=
  if m = 0 then ⟨0, 0⟩
  else
    let value := Ratio.scale ⟨m, 1⟩ 2 q
    match shortestFrom value (intervalOf m q) (leadingExponent value) 0 17 with
    | some d => d.trimmed
    | none => ⟨m, 0⟩

end Scriptlet.Decimal
