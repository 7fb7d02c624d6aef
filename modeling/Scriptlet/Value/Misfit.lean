import Scriptlet.Value.Operation

/-!
# Operations on misfits

The operations on values, for all values: those with a misfit among the operands
are carried out here on what the misfit holds, the others are left to the
operations of the language. An integer that holds a truth value or a float takes
part in arithmetic as that number. A string that holds no text can be compared and
added, and fails at all that looks at characters.
-/

namespace Scriptlet

namespace Value

def isMisfit : Value → Bool
  | misfit _ _ _ => true
  | _ => false

/-- The number that a value of the integer kind stands for. -/
def integerNumber? : Value → Option Number
  | integer n => some (.whole n)
  | misfit .integer d _ => d.number?
  | _ => none

/-- What a value of the string kind holds. -/
def stringData? : Value → Option (Datum Node)
  | string s => some (.text s)
  | misfit .string d _ => some d
  | _ => none

/-- An integer that is the given number, if that is not too large for 64 bits. Between
the largest of those and the next power of two there is no float. -/
def ofNumber : Number → Except OperationError Value
  | .whole n => checked n
  | .float x =>
    if x < -9223372036854775808.0 ∨ 9223372036854775808.0 ≤ x then .error .integerOverflow
    else .ok (misfit .integer (.float x) 0)

/-- A string that holds the given data. -/
def ofStringData : Datum Node → Value
  | .text s => string s
  | d => misfit .string d 0

def numberArithmetic (op : ArithmeticOp) (a b : Number) : Except OperationError Value :=
  match op with
  | .add => ofNumber (a.combine (· + ·) (· + ·) b)
  | .sub => ofNumber (a.combine (· - ·) (· - ·) b)
  | .mul => ofNumber (a.combine (· * ·) (· * ·) b)
  | .div => if b.isZero then .error .divisionByZero else ofNumber (a.quotient b)

/-- The sum of what two strings hold. -/
def joined (a b : Datum Node) : Except Mismatch (Datum Node) :=
  match a, b, a.number?, b.number? with
  | .text s, .text t, _, _ => .ok (.text (s ++ t))
  | .text _, b, _, _ => .error (.unjoined b.typeName)
  | _, _, some x, some y => .ok (.ofNumber (x.combine (· + ·) (· + ·) y))
  | a, b, _, _ => .error (.unadded a.typeName b.typeName)

def misfitArithmetic (op : ArithmeticOp) (left right : Value) : Except Failure Value :=
  match left.integerNumber?, right.integerNumber?, left.stringData?, right.stringData? with
  | some a, some b, _, _ => (numberArithmetic op a b).mapError .operation
  | _, _, some d, some e =>
    if op = .add then ((joined d e).map ofStringData).mapError .mismatch
    else .error (.operation (.noImplementation left.kind (.arithmetic op) right.kind))
  | _, _, _, _ => .error (.operation (.noImplementation left.kind (.arithmetic op) right.kind))

/-- Membership; a failure of the language names the operator `op`. -/
def misfitContains (op : BinaryOp) (item container : Value) : Except Failure Bool :=
  match item.stringData?, container.stringData? with
  | some (.text _), some (.text _) => (contains op item container).mapError .operation
  | some d, some (.text _) => .error (.mismatch (.unsought d.typeName))
  | some _, some d => .error (.mismatch (.unsearched d.typeName))
  | _, _ => (contains op item container).mapError .operation

/-- Applies the binary operator of a given name to any two values. -/
def binary (name : String) (left right : Value) : Except Failure Value :=
  if left.isMisfit || right.isMisfit then
    match BinaryOp.ofName? name with
    | some (.arithmetic op) => misfitArithmetic op left right
    | some .member => (misfitContains .member left right).map fun b => bool b
    | some .notMember => (misfitContains .notMember left right).map fun b => bool !b
    | _ => binaryNamed name left right
  else binaryNamed name left right

/-- Applies the unary operator of a given name to any value. -/
def unary (name : String) (operand : Value) : Except Failure Value :=
  match operand, operand.integerNumber?, UnaryOp.ofName? name with
  | misfit .integer _ _, some a, some .negate => (ofNumber a.neg).mapError .operation
  | _, _, _ => unaryNamed name operand

/-- The item of a row or a string of length `n` at what a misfit holds. -/
def misfitPlace (subject : Value) (n : Nat) (d : Datum Node) : Except Failure Value :=
  let outside : Except Failure Value :=
    .error (.operation (.oddOutOfRange (Node.describeValue d) subject.kind n))
  match d with
  | .bool b =>
    match subject.item? (if b then 1 else 0) with
    | some v => .ok v
    | none => outside
  | .float x =>
    if x < 0.0 ∨ Float.ofNat n ≤ x then outside
    else if subject.kind = .string then .error (.mismatch (.unplacedInString d.typeName))
    else .error (.mismatch (.unplacedInRow d.typeName))
  | _ => outside

/-- The item of any value at any place. -/
def itemAt (subject place : Value) : Except Failure Value :=
  match subject, place.kind, place, subject.length? with
  | misfit .string d _, .integer, _, _ => .error (.mismatch (.unmeasured d.typeName))
  | _, _, misfit .integer d _, some n => misfitPlace subject n d
  | _, _, _, _ => (subject.index place).mapError .operation

end Value

namespace Builtin

/-- The first string among the arguments that has no characters to print, with the
number of arguments in front of it. -/
def firstUnprinted? : Nat → List Value → Option Mismatch
  | _, [] => none
  | place, .misfit .string d _ :: _ => some (.unprinted place d.typeName)
  | place, _ :: vs => firstUnprinted? (place + 1) vs

/-- Strings are printed by their characters, all else as it is displayed. -/
def hidden? : Value → Option Mismatch
  | .misfit _ _ _ => none
  | v => v.unreadable?.map .unreadable

/-- What is in the way of a call with these arguments. -/
def obstacle? (b : Builtin) (arguments : List Value) : Option Mismatch :=
  match b, arguments with
  | len, [.misfit .string d _] => some (.unmeasured d.typeName)
  | str, [v] => hidden? v
  | print, vs => (vs.findSome? hidden?).or (firstUnprinted? 0 vs)
  | _, _ => none

/-- Calls a builtin with any arguments. The text of a string is what it holds. -/
def apply (b : Builtin) (arguments : List Value) : Except Failure Reply :=
  match obstacle? b arguments, b, arguments with
  | some m, _, _ => .error (.mismatch m)
  | none, str, [.misfit .string d mark] => .ok ⟨.misfit .string d mark, ""⟩
  | none, b, arguments => (b.call arguments).mapError .operation

end Builtin

end Scriptlet
