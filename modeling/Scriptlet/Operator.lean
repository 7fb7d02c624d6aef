/-!
# Operators

The operators of the language, with the names that syntax trees hold and the
symbols that messages show.
-/

namespace Scriptlet

inductive ArithmeticOp where
  | add
  | sub
  | mul
  | div
deriving DecidableEq, Repr

inductive BinaryOp where
  | arithmetic (op : ArithmeticOp)
  | equal
  | notEqual
  | member
  | notMember
  | and
  | or
deriving DecidableEq, Repr

inductive UnaryOp where
  | negate
  | not
deriving DecidableEq, Repr

/-- What an assignment does with the old value: replace it, or combine it with the new one. -/
inductive AssignOp where
  | replace
  | combine (op : ArithmeticOp)
deriving DecidableEq, Repr

def ArithmeticOp.name : ArithmeticOp → String
  | add => "ADD"
  | sub => "SUB"
  | mul => "MUL"
  | div => "DIV"

def ArithmeticOp.symbol : ArithmeticOp → String
  | add => "+"
  | sub => "-"
  | mul => "*"
  | div => "/"

namespace BinaryOp

def name : BinaryOp → String
  | arithmetic op => op.name
  | equal => "EQ"
  | notEqual => "NE"
  | member => "IN"
  | notMember => "NOT_IN"
  | and => "AND"
  | or => "OR"

def symbol : BinaryOp → String
  | arithmetic op => op.symbol
  | equal => "=="
  | notEqual => "!="
  | member => "in"
  | notMember => "not in"
  | and => "and"
  | or => "or"

def ofName? : String → Option BinaryOp
  | "ADD" => some (arithmetic .add)
  | "SUB" => some (arithmetic .sub)
  | "MUL" => some (arithmetic .mul)
  | "DIV" => some (arithmetic .div)
  | "EQ" => some equal
  | "NE" => some notEqual
  | "IN" => some member
  | "NOT_IN" => some notMember
  | "AND" => some and
  | "OR" => some or
  | _ => none

end BinaryOp

namespace UnaryOp

def name : UnaryOp → String
  | negate => "NEG"
  | not => "NOT"

def ofName? : String → Option UnaryOp
  | "NEG" => some negate
  | "NOT" => some not
  | _ => none

end UnaryOp

def AssignOp.name : AssignOp → String
  | replace => "ASSIGN"
  | combine op => op.name

end Scriptlet
