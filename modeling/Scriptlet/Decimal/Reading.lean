import Scriptlet.Decimal.Numeral
import Scriptlet.Text.Character
import Scriptlet.Text.Quoted

/-!
# Numbers as people write them

A number may have blanks around it, digits of any script, and an underscore
between two digits. A float may also be an infinity or a NaN by its name, in
letters of either case. The numerals of the language are among these: for them
all of this changes nothing. Whole numbers of very many digits are not read.
-/

namespace Scriptlet.Decimal

/-- The blanks that may stand around a number: not the four separators among the
control characters. -/
def isMargin (c : Char) : Bool := Text.isBlank c && !(0x1C ≤ c.toNat && c.toNat ≤ 0x1F)

/-- A digit of any script as one of `0` to `9`; any other character stays. -/
def plainDigit (c : Char) : Char :=
  match Text.digitValue? c with
  | some d => Nat.digitChar d
  | none => c

/-- The characters without underscores, if each of those stands between two digits.
The flag tells whether the character in front is a digit. -/
def joined? (behindDigit : Bool) : List Char → Option (List Char)
  | [] => some []
  | '_' :: d :: rest =>
    if behindDigit && isDigit d then (joined? true rest).map (d :: ·) else none
  | c :: rest => if c = '_' then none else (joined? (isDigit c) rest).map (c :: ·)

/-- The number alone, in plain digits. -/
def bare? (s : List Char) : Option (List Char) :=
  let trimmed := ((s.dropWhile isMargin).reverse.dropWhile isMargin).reverse
  joined? false (trimmed.map plainDigit)

/-- The number that a run of digits denotes, which must not be empty. -/
def natOf? (ds : List Char) : Option Nat :=
  if ds.all isDigit && !ds.isEmpty then some (natOfDigits ds) else none

/-- A whole number may have this many digits. -/
def mostDigits : Nat := 4300

/-- The number of digits in the run at the front, behind a sign. What follows the run may
be anything. -/
def frontDigits (s : List Char) : Nat :=
  let run := match (s.dropWhile isMargin).map plainDigit with
    | '-' :: rest => rest
    | '+' :: rest => rest
    | rest => rest
  ((joined? false (run.takeWhile fun c => isDigit c || c = '_')).getD []).length

/-- The whole number that a text denotes. -/
def integerOf? (s : List Char) : Option Int :=
  match if frontDigits s ≤ mostDigits then bare? s else none with
  | none => none
  | some ('-' :: ds) => (natOf? ds).map fun n => -n
  | some ('+' :: ds) => (natOf? ds).map fun n => n
  | some ds => (natOf? ds).map fun n => n

/-- The magnitude that goes by a name. -/
def namedFloat? (s : List Char) : Option Float :=
  let name := String.ofList (s.map Char.toLower)
  if name = "inf" ∨ name = "infinity" then some (1.0 / 0.0)
  else if name = "nan" then some (0.0 / 0.0)
  else none

/-- The float nearest to the number that a text denotes. -/
def floatOf? (s : List Char) : Option Float :=
  match bare? s with
  | none => none
  | some number =>
    match Numeral.read? number with
    | some n => some n.toFloat
    | none =>
      match number with
      | '-' :: name => (namedFloat? name).map fun x => -x
      | '+' :: name => namedFloat? name
      | name => namedFloat? name

-- The complaints about texts that are no numbers begin in ways of their own.

def noInteger : String := "invalid literal for int() with base 10: "

def noFloat : String := "could not convert string to float: "

/-- The complaint about a text that is no whole number, of which it shows a part, or
has too many digits. -/
def notInteger (text : String) : String :=
  let digits := frontDigits text.toList
  if digits ≤ mostDigits then noInteger ++ String.ofList ((Text.quoted text).toList.take 200)
  else
    s!"Exceeds the limit ({mostDigits} digits) for integer string conversion: " ++
      s!"value has {digits} digits; use sys.set_int_max_str_digits() to increase the limit"

/-- The complaint about a text that is no float. -/
def notFloat (text : String) : String := noFloat ++ Text.quoted text

/-- Does the message say that a text is no number? -/
def deniesNumber (message : String) : Bool :=
  message.startsWith noInteger || message.startsWith noFloat

end Scriptlet.Decimal
