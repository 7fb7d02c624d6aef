import Scriptlet.Operator
import Scriptlet.Text.Quoted
import Scriptlet.Value.Depth
import Scriptlet.Value.Display

/-!
# Operations on values

Arithmetic works on two integers or two floats, never mixed; `+` also joins two
strings. Integers that leave the 64 bits, floats that are not finite and division
by zero are failures. Equality is defined on all values and never fails.
Membership is defined for arrays, tuples and, as occurrence, for strings.
-/

namespace Scriptlet

/-- Why an operation on values fails. -/
inductive OperationError where
  | integerOverflow
  | floatOverflow
  | divisionByZero
  | noImplementation (left : Value.Kind) (op : BinaryOp) (right : Value.Kind)
  | notNumber (got : Value.Kind)
  | notBool (got : Value.Kind)
  | notIndexable (subject index : Value.Kind)
  | outOfRange (index : Int) (subject : Value.Kind) (length : Nat)
  | oddOutOfRange (place : String) (subject : Value.Kind) (length : Nat)
  | argumentCount (callee : Builtin) (takes got : Nat)
  | noLength (got : Value.Kind)
deriving DecidableEq, Repr

def OperationError.message : OperationError → String
  | integerOverflow => "integer overflow"
  | floatOverflow => "float overflow"
  | divisionByZero => "division by zero"
  | noImplementation l op r => s!"no implementation exists for {l.name} {op.symbol} {r.name}"
  | notNumber k => s!"expected number, got {k.name}"
  | notBool k => s!"expected bool, got {k.name}"
  | notIndexable s i => s!"cannot index into {s.name} with {i.name}"
  | outOfRange i s n => s!"index {i} out of range for {s.name} of length {n}"
  | oddOutOfRange i s n => s!"index {i} out of range for {s.name} of length {n}"
  | argumentCount b n got => s!"{b.name}() takes {n} argument(s), got {got}"
  | noLength k => s!"len() expects string, tuple or array, got {k.name}"

/-- Operators that are asked for by a name that stands for none. -/
inductive Misuse where
  | unknownBinary (shown : String)
  | unknownUnary (shown : String)
  | noArithmetic (name : String)
deriving DecidableEq, Repr

def Misuse.message : Misuse → String
  | unknownBinary shown => s!"Unknown binary operator: {shown}"
  | unknownUnary shown => s!"Unknown unary operator: {shown}"
  | noArithmetic name => name

/-- What cannot be done with the data of a misfit. Types of data go by their names. -/
inductive Mismatch where
  | unreadable (got : String)
  | unjoined (got : String)
  | unadded (left right : String)
  | unsought (got : String)
  | unsearched (got : String)
  | unmeasured (got : String)
  | unplacedInRow (got : String)
  | unplacedInString (got : String)
  | unprinted (place : Nat) (got : String)
deriving DecidableEq, Repr

def Mismatch.message : Mismatch → String
  | unreadable t => s!"'{t}' object is not iterable"
  | unjoined t => s!"can only concatenate str (not \"{t}\") to str"
  | unadded l r => s!"unsupported operand type(s) for +: '{l}' and '{r}'"
  | unsought t => s!"'in <string>' requires string as left operand, not {t}"
  | unsearched t => s!"argument of type '{t}' is not iterable"
  | unmeasured t => s!"object of type '{t}' has no len()"
  | unplacedInRow t => s!"list indices must be integers or slices, not {t}"
  | unplacedInString t => s!"string indices must be integers, not '{t}'"
  | unprinted i t => s!"sequence item {i}: expected str instance, {t} found"

/-- An operation fails for its operands, because there is no such operation, or for
what a misfit holds. -/
inductive Failure where
  | operation (e : OperationError)
  | misuse (m : Misuse)
  | mismatch (m : Mismatch)
deriving DecidableEq, Repr

namespace Value

/-- The integer, if it fits into 64 bits. -/
def checked (n : Int) : Except OperationError Value :=
  if inRange n then .ok (integer n) else .error .integerOverflow

/-- The float, if it is finite. It needs no mark: only NaNs are told apart by theirs. -/
def checkedFloat (x : Float) : Except OperationError Value :=
  if x.isFinite then .ok (float x 0) else .error .floatOverflow

/-- Division cuts the fraction off. -/
def integerArithmetic (op : ArithmeticOp) (a b : Int) : Except OperationError Value :=
  match op with
  | .add => checked (a + b)
  | .sub => checked (a - b)
  | .mul => checked (a * b)
  | .div => if b = 0 then .error .divisionByZero else checked (Number.wholeQuotient a b)

def floatArithmetic (op : ArithmeticOp) (a b : Float) : Except OperationError Value :=
  match op with
  | .add => checkedFloat (a + b)
  | .sub => checkedFloat (a - b)
  | .mul => checkedFloat (a * b)
  | .div => if b == 0.0 then .error .divisionByZero else checkedFloat (a / b)

def arithmetic (op : ArithmeticOp) (left right : Value) : Except OperationError Value :=
  match left, right with
  | integer a, integer b => integerArithmetic op a b
  | float a _, float b _ => floatArithmetic op a b
  | string a, string b =>
    if op = .add then .ok (string (a ++ b))
    else .error (.noImplementation left.kind (.arithmetic op) right.kind)
  | _, _ => .error (.noImplementation left.kind (.arithmetic op) right.kind)

/-- Does the first text stand somewhere in the second? -/
def occursIn (s : List Char) : List Char → Bool
  | [] => s.isEmpty
  | c :: t => s.isPrefixOf (c :: t) || occursIn s t

/-- Membership; a failure names the operator `op`. -/
def contains (op : BinaryOp) (item container : Value) : Except OperationError Bool :=
  match container with
  | array vs _ => .ok (vs.any fun v => (compare item v).1)
  | tuple vs _ => .ok (vs.any fun v => (compare item v).1)
  | string t =>
    match item with
    | string s => .ok (occursIn s.toList t.toList)
    | _ => .error (.noImplementation item.kind op container.kind)
  | _ => .error (.noImplementation item.kind op container.kind)

/-- Applies a binary operator. `and` and `or` do not evaluate both operands and
are not among the operations on values. -/
def applyBinary (op : BinaryOp) (left right : Value) : Except Failure Value :=
  match op with
  | .arithmetic op => (arithmetic op left right).mapError .operation
  | .equal => .ok (bool (compare left right).1)
  | .notEqual => .ok (bool !(compare left right).1)
  | .member => ((contains op left right).map fun b => bool b).mapError .operation
  | .notMember => ((contains op left right).map fun b => bool !b).mapError .operation
  | .and => .error (.misuse (.unknownBinary (Text.quoted op.name)))
  | .or => .error (.misuse (.unknownBinary (Text.quoted op.name)))

def binaryNamed (name : String) (left right : Value) : Except Failure Value :=
  match BinaryOp.ofName? name with
  | some op => applyBinary op left right
  | none => .error (.misuse (.unknownBinary (Text.quoted name)))

/-- Arithmetic by an operator of any name. Two numbers take only the four operators
of arithmetic; the failure for other operands names any operator there is. -/
def arithmeticNamed (name : String) (left right : Value) : Except Failure Value :=
  match BinaryOp.ofName? name with
  | some (.arithmetic op) => (arithmetic op left right).mapError .operation
  | some op =>
    match left, right with
    | integer _, integer _ => .error (.misuse (.noArithmetic name))
    | float _ _, float _ _ => .error (.misuse (.noArithmetic name))
    | _, _ => .error (.operation (.noImplementation left.kind op right.kind))
  | none => .error (.misuse (.noArithmetic name))

def applyUnary (op : UnaryOp) (operand : Value) : Except OperationError Value :=
  match op, operand with
  | .negate, integer n => checked (-n)
  | .negate, float x _ => .ok (float (-x) 0)
  | .negate, v => .error (.notNumber v.kind)
  | .not, bool b => .ok (bool !b)
  | .not, v => .error (.notBool v.kind)

def unaryNamed (name : String) (operand : Value) : Except Failure Value :=
  match UnaryOp.ofName? name with
  | some op => (applyUnary op operand).mapError .operation
  | none => .error (.misuse (.unknownUnary (Text.quoted name)))

/-- The number of characters or items. -/
def length? : Value → Option Nat
  | string s => some s.length
  | tuple vs _ => some vs.length
  | array vs _ => some vs.length
  | _ => none

/-- The item at a place: a value, or a string of one character. -/
def item? : Value → Nat → Option Value
  | string s, i => s.toList[i]?.map fun c => string (String.singleton c)
  | tuple vs _, i => vs[i]?
  | array vs _, i => vs[i]?
  | _, _ => none

def index (subject place : Value) : Except OperationError Value :=
  match subject.length?, place with
  | some n, integer i =>
    match if i < 0 then none else subject.item? i.toNat with
    | some v => .ok v
    | none => .error (.outOfRange i subject.kind n)
  | _, _ => .error (.notIndexable subject.kind place.kind)

/-- The levels that a binary operator goes through in its operands. -/
def binaryDepth (name : String) (left right : Value) : Nat :=
  match BinaryOp.ofName? name with
  | some .equal => comparedDepth left right
  | some .notEqual => comparedDepth left right
  | some .member => searchDepth
  | some .notMember => searchDepth
  | _ => 0
where
  searchDepth : Nat :=
    match right with
    | array vs _ => soughtDepth left vs
    | tuple vs _ => soughtDepth left vs
    | _ => 0

end Value

/-- What a builtin gives back, and what it prints. -/
structure Reply where
  value : Value
  printed : String

namespace Builtin

/-- Calls a builtin after checking the number of arguments. -/
def call (b : Builtin) (arguments : List Value) : Except OperationError Reply :=
  match b, arguments with
  | len, [v] =>
    match v.length? with
    | some n => do return ⟨← Value.checked n, ""⟩
    | none => .error (.noLength v.kind)
  | str, [v] => .ok ⟨.string v.text, ""⟩
  | type, [v] => .ok ⟨.string v.kind.name, ""⟩
  | print, vs => .ok ⟨.unit, " ".intercalate (vs.map Value.text) ++ "\n"⟩
  | b, vs => .error (.argumentCount b ((b.arity?).getD 0) vs.length)

/-- The levels that a call goes through in its arguments. -/
def depth (b : Builtin) (arguments : List Value) : Nat :=
  match b, arguments with
  | str, [v] => v.height
  | print, vs => Value.heightOfAll vs
  | _, _ => 0

end Builtin

end Scriptlet
