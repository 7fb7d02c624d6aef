import Scriptlet.Decimal.Shortest

/-!
# Decimal numerals as text

A numeral is written `[-]digits[.digits][e(+|-)digits]`. Reports write a float
in this form, with an exponent when the number is very large or very small.
Programs write it without: `expand` moves the point instead.
-/

namespace Scriptlet.Decimal

def isDigit (c : Char) : Bool := '0' ≤ c && c ≤ '9'

/-- The number that a run of digits denotes. -/
def natOfDigits (ds : List Char) : Nat := ds.foldl (fun n d => 10 * n + (d.toNat - '0'.toNat)) 0

/-- The parts of a numeral. -/
structure Numeral where
  negative : Bool
  whole : List Char
  fraction : List Char
  exponent : Option Int
deriving DecidableEq, Repr

/-- The sign and the digits of an exponent, which must be all of the text. -/
def exponentOf? : List Char → Option Int
  | '-' :: d :: ds => if (d :: ds).all isDigit then some (-(natOfDigits (d :: ds) : Int)) else none
  | '+' :: d :: ds => if (d :: ds).all isDigit then some (natOfDigits (d :: ds)) else none
  | d :: ds => if (d :: ds).all isDigit then some (natOfDigits (d :: ds)) else none
  | [] => none

/-- Reads a numeral. Either the whole or the fractional digits may be absent, not both. -/
def Numeral.read? (s : List Char) : Option Numeral :=
  let (negative, body) := match s with
    | '-' :: rest => (true, rest)
    | '+' :: rest => (false, rest)
    | _ => (false, s)
  let whole := body.takeWhile isDigit
  let afterWhole := body.dropWhile isDigit
  let (fraction, tail) := match afterWhole with
    | '.' :: rest => (rest.takeWhile isDigit, rest.dropWhile isDigit)
    | _ => ([], afterWhole)
  if whole.isEmpty && fraction.isEmpty then none
  else match tail with
    | [] => some ⟨negative, whole, fraction, none⟩
    | 'e' :: rest => (exponentOf? rest).map fun e => ⟨negative, whole, fraction, some e⟩
    | 'E' :: rest => (exponentOf? rest).map fun e => ⟨negative, whole, fraction, some e⟩
    | _ => none

/-- The float nearest to the number denoted; too large a number gives an infinity.
Numbers that are out of reach by their length alone are not computed. -/
def Numeral.toFloat (n : Numeral) : Float :=
  let digits := n.whole ++ n.fraction
  let value := natOfDigits digits
  let places : Int := n.exponent.getD 0 - n.fraction.length
  let size : Float :=
    if value = 0 ∨ places + digits.length < -400 then 0.0
    else if 400 < places then 1.0 / 0.0
    else Float.ofScientific value (places < 0) places.natAbs
  if n.negative then -size else size

/-- The digits without leading zeros, a single zero at least. -/
def stripZeros (ds : List Char) : List Char :=
  match ds.dropWhile (· = '0') with
  | [] => ['0']
  | rest => rest

/-- The numeral without its exponent: the point is moved, and zeros fill the
places between. -/
def Numeral.expanded (n : Numeral) : List Char :=
  let e := n.exponent.getD 0
  let digits := n.whole ++ n.fraction
  let point : Int := n.whole.length + e
  let sign := if n.negative then ['-'] else []
  if point ≤ 0 then
    sign ++ '0' :: '.' :: List.replicate (-point).toNat '0' ++ digits
  else if (digits.length : Int) ≤ point then
    sign ++ stripZeros (digits ++ List.replicate (point - digits.length).toNat '0')
  else
    sign ++ stripZeros (digits.take point.toNat) ++ '.' :: digits.drop point.toNat

/-- The text without exponent. A text that has none is left as it is. -/
def expand (s : List Char) : List Char :=
  if s.contains 'e' then
    match Numeral.read? s with
    | some n => n.expanded
    | none => s
  else s

/-- The text as a literal of the language: no exponent, and always a point. -/
def literalText (s : List Char) : List Char :=
  let plain := expand s
  if plain.contains '.' then plain else plain ++ ['.', '0']

/-- Where reports change from positional notation to an exponent, and how wide the
exponent is at least. -/
structure FloatStyle where
  leastPositional : Int
  mostPositional : Int
  exponentWidth : Nat

/-- From ten thousandths up to below ten to the sixteenth without exponent. -/
def reportStyle : FloatStyle := ⟨-4, 15, 2⟩

def FloatStyle.exponentText (f : FloatStyle) (e : Int) : List Char :=
  let digits := Nat.toDigits 10 e.natAbs
  let zeros := List.replicate (f.exponentWidth - digits.length) '0'
  'e' :: (if e < 0 then '-' else '+') :: (zeros ++ digits)

/-- The text of a positive decimal. -/
def FloatStyle.layOut (f : FloatStyle) (d : Scaled) : List Char :=
  let digits := Nat.toDigits 10 d.digits
  let lead : Int := d.exponent + digits.length - 1
  if f.leastPositional ≤ lead ∧ lead ≤ f.mostPositional then
    if 0 ≤ d.exponent then digits ++ List.replicate d.exponent.toNat '0' ++ ['.', '0']
    else if 0 ≤ lead then digits.take (lead.toNat + 1) ++ '.' :: digits.drop (lead.toNat + 1)
    else '0' :: '.' :: List.replicate (-lead - 1).toNat '0' ++ digits
  else
    digits.take 1 ++ (if digits.length = 1 then [] else '.' :: digits.drop 1) ++ f.exponentText lead

/-- A float as reports write it. -/
def reportText (x : Float) : List Char :=
  match magnitude? x with
  | some (m, q) => (if isNegative x then ['-'] else []) ++ reportStyle.layOut (shortest m q)
  | none =>
    if x.isNaN then ['n', 'a', 'n']
    else (if isNegative x then ['-'] else []) ++ ['i', 'n', 'f']

/-- A float as the language writes it. -/
def floatLiteral (x : Float) : List Char := literalText (reportText x)

end Scriptlet.Decimal
