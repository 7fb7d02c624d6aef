import Scriptlet.Session.Evaluation

/-!
# Evaluating statements in a session

Statements are evaluated in order, and the value of the last is the result. A
`return` ends them with its value, an error ends them with a diagnostic. When the
room runs out, the scopes that were entered are left and the error is reported
at the statement that was running.
-/

namespace Scriptlet

/-- How many levels of evaluation may be active at once. -/
def evaluationLimit : Nat := 980

namespace Eval

/-- Evaluates one statement, with a lack of room as an error. -/
def statement (room : Nat) (n : Node) : Eval Value := do
  let depth := (← get).depth
  tryCatch (eval room n) fun
    | .tooDeep => do
      modify (Session.unwindTo depth)
      fail .nestedTooDeeply n
    | other => throw other

/-- The value of the last statement, or `last` if there is none. -/
def statements (room : Nat) (last : Option Value) : List Node → Eval (Option Value)
  | [] => pure last
  | n :: rest => do
    let v ← statement room n
    statements room (some v) rest

end Eval

/-- How the evaluation of statements ends. -/
inductive Result where
  | value (v : Option Value)
  | error (d : Diagnostic)
  | fault (f : Fault)
  | tooDeep

def Result.ofInterrupt : Interrupt → Result
  | .returned v => .value (some v)
  | .error d => .error d
  | .fault f => .fault f
  | .tooDeep => .tooDeep

/-- Evaluates statements, unless there are error nodes among them. -/
def Session.evaluate (s : Session) (ns : List Node) : Result × Session :=
  if Node.containsErrors ns then (.fault .holdsErrors, s)
  else
    match (Eval.statements evaluationLimit none ns).run.run s with
    | (.ok v, s) => (.value v, s)
    | (.error i, s) => (Result.ofInterrupt i, s)

end Scriptlet
