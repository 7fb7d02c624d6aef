import Scriptlet.Decimal.Reading
import Scriptlet.Diagnostic
import Scriptlet.Value.Operation

/-!
# How evaluation ends early

A `return`, an error of the program, a fault of the tree, or a lack of room.
Programs that were read without diagnostics meet no faults: those come from
trees made by hand.
-/

namespace Scriptlet

/-- What can go wrong in a program. -/
inductive RuntimeError where
  | undefined (name : String)
  | undeclaredTarget (name : String)
  | functionTarget (name : String)
  | immutableTarget (name : String)
  | notCallable (got : Value.Kind)
  | notBool (got : Value.Kind)
  | operandNotBool (op : BinaryOp) (got : Value.Kind)
  | operation (e : OperationError)
  | nestedTooDeeply
deriving DecidableEq, Repr

def RuntimeError.message : RuntimeError → String
  | undefined name => s!"undefined identifier '{name}'"
  | undeclaredTarget name => s!"cannot assign to undeclared identifier '{name}'"
  | functionTarget name => s!"cannot assign to function '{name}'"
  | immutableTarget name => s!"identifier '{name}' is not mutable"
  | notCallable k => s!"cannot call value of type {k.name}"
  | notBool k => s!"expected bool, got {k.name}"
  | operandNotBool op k => s!"`{op.symbol}` expects bool, got {k.name}"
  | operation e => e.message
  | nestedTooDeeply => Scriptlet.nestedTooDeeply

/-- What can be wrong with a tree. Types of values go by their names. -/
inductive Fault where
  | noRule (kind : String)
  | errorNode (message : String)
  | holdsErrors
  | tooFewParts (wanted got : Nat)
  | tooManyParts (wanted : Nat)
  | missingPart
  | notNode (got : String)
  | notInteger (got : String)
  | notFloat (got : String)
  | notFloatText (text : String)
  | nodeAsOperator (got : String)
  | floatOutOfRange
  | bareLogical
  | misuse (m : Misuse)
  | mismatch (m : Mismatch)
  | operation (e : OperationError)
deriving DecidableEq, Repr

def Fault.message : Fault → String
  | noRule kind => s!"No evaluation rule for node kind {Text.quoted kind}"
  | errorNode message => s!"cannot evaluate error node: {message}"
  | holdsErrors => "cannot evaluate a tree that contains error nodes"
  | tooFewParts wanted got => s!"not enough values to unpack (expected {wanted}, got {got})"
  | tooManyParts wanted => s!"too many values to unpack (expected {wanted})"
  | missingPart => "list index out of range"
  | notNode got => s!"'{got}' object has no attribute 'kind'"
  | notInteger got => s!"'<' not supported between instances of '{got}' and 'int'"
  | notFloat got => s!"float() argument must be a string or a real number, not '{got}'"
  | notFloatText text => Decimal.notFloat text
  | nodeAsOperator got => s!"unhashable type: '{got}'"
  | floatOutOfRange => "int too large to convert to float"
  | bareLogical => "Evaluator.eval_logical() missing 2 required positional arguments: " ++
      "'left_node' and 'right_node'"
  | misuse m => m.message
  | mismatch m => m.message
  | operation e => e.message

inductive Interrupt where
  | returned (v : Value)
  | error (d : Diagnostic)
  | fault (f : Fault)
  | tooDeep

end Scriptlet
