import Scriptlet.Proofs.Lexical.Scopes
import Scriptlet.Proofs.Tree.Term
import Scriptlet.Session.Statements

/-!
# Evaluation with lexical scopes

A reference evaluator for terms, by recursion on them and without a limit of nesting. Its
environment is a stack of scopes. A block pushes an empty scope and pops it however it
ends; a binding goes to the end of the innermost scope. An assignment finds out where it
goes before its right-hand side is evaluated, and goes there afterwards.
-/

namespace Scriptlet.Lexical

/-- A stack of scopes, of which there is always one, with what was printed and the mark
that is free next. -/
structure Env where
  top : Scope
  outer : List Scope
  printed : String
  nextMark : Nat

namespace Env

/-- A single scope with the builtins. -/
def withBuiltins : Env where
  top := Builtin.all.map fun b => ⟨b.name, .function b, false, true⟩
  outer := []
  printed := ""
  nextMark := 1

def scopes (e : Env) : List Scope := e.top :: e.outer

def push (e : Env) : Env := { e with top := [], outer := e.top :: e.outer }

/-- Drops the innermost scope. The outermost one stays. -/
def pop (e : Env) : Env :=
  match e.outer with
  | [] => e
  | scope :: outer => { e with top := scope, outer }

def define (name : String) (v : Value) (isMutable : Bool) (e : Env) : Env :=
  { e with top := e.top ++ [⟨name, v, isMutable, false⟩] }

def set (a : Address) (v : Value) (e : Env) : Env :=
  match write a v (e.top :: e.outer) with
  | [] => e
  | scope :: outer => { e with top := scope, outer }

def print (text : String) (e : Env) : Env := { e with printed := e.printed ++ text }

/-- The value with a mark of its own. -/
def mark (v : Value) (e : Env) : Value × Env :=
  (v.withMark e.nextMark, { e with nextMark := e.nextMark + 1 })

end Env

abbrev Run : Type → Type := ExceptT Interrupt (StateM Env)

variable {α : Type}

def fail (e : RuntimeError) (p : Position) : Run α := throw (.error ⟨.runtime, e.message, p⟩)

def ofAny (p : Position) : Except Failure α → Run α
  | .ok a => pure a
  | .error (.operation e) => fail (.operation e) p
  | .error (.misuse m) => throw (.fault (.misuse m))
  | .error (.mismatch m) => throw (.fault (.mismatch m))

def made (v : Value) : Run Value := modifyGet (Env.mark v)

def inBlock (x : Run α) : Run α := fun e => let (result, e) := x e.push; (result, e.pop)

/-- A truth value, which an operand of `and` and `or` has to be. -/
def truth (op : BinaryOp) (p : Position) : Value → Run Bool
  | .bool b => pure b
  | v => fail (.operandNotBool op v.kind) p

/-- The second operand is evaluated only when the first does not decide. -/
def logical (op : BinaryOp) (decisive : Bool) (left right : Position × Run Value) : Run Value := do
  let first ← truth op left.1 (← left.2)
  if first = decisive then return .bool first
  return .bool (← truth op right.1 (← right.2))

def operator (p : Position) (op : BinaryOp) (left right : Run Value) : Run Value := do
  let a ← left
  let b ← right
  made (← ofAny p (Value.binary op.name a b))

/-- Calls a value, which has to be a function, with the values of arguments. -/
def apply (p : Position) (arguments : Run (List Value)) : Value → Run Value
  | .function b => do
    let reply ← ofAny p (b.apply (← arguments))
    modify (Env.print reply.printed)
    made reply.value
  | v => fail (.notCallable v.kind) p

def choose (p : Position) (thenBlock otherwise : Run Value) : Value → Run Value
  | .bool true => thenBlock
  | .bool false => otherwise
  | v => fail (.notBool v.kind) p

/-- Puts a value, or what an operator makes of it and the old one, where it belongs. -/
def assign (p : Position) (op : AssignOp) (a : Address) (b : Local) (v : Value) : Run Unit :=
  match op with
  | .replace => modify (Env.set a v)
  | .combine op => do
    let old := (read? a (← get).scopes).getD b.value
    modify (Env.set a (← made (← ofAny p (Value.binary op.name old v))))

/-- The target is looked up before the source is evaluated, and written afterwards. -/
def assignment (p : Position) (op : AssignOp) (name : String) (source : Run Value) : Run Value := do
  match find name (← get).scopes with
  | none => fail (.undeclaredTarget name) p
  | some (a, b) =>
    if b.isFunction then fail (.functionTarget name) p
    else if !b.isMutable then fail (.immutableTarget name) p
    else
      assign p op a b (← source)
      return .unit

mutual

def run : Term → Run Value
  | .integer _ n => made (.integer n)
  | .float _ x => made (.float x 0)
  | .string _ s => made (.string s)
  | .bool _ b => return .bool b
  | .unit _ => return .unit
  | .identifier p name => do
    match find name (← get).scopes with
    | some (_, b) => return b.value
    | none => fail (.undefined name) p
  | .unary p op a => do made (← ofAny p (Value.unary op.name (← run a)))
  | .binary _ .and a b => logical .and false (a.position, run a) (b.position, run b)
  | .binary _ .or a b => logical .or true (a.position, run a) (b.position, run b)
  | .binary p op a b => operator p op (run a) (run b)
  | .call p f as => do apply p (runAll as) (← run f)
  | .index p a i => do
    let subject ← run a
    let place ← run i
    ofAny p (subject.itemAt place)
  | .tuple _ as => do made (.tuple (← runAll as) 0)
  | .array _ as => do made (.array (← runAll as) 0)
  | .block _ ts last => inBlock do
    runEach ts
    runLast last
  | .conditional _ c a e => do choose c.position (run a) (runLast e) (← run c)
  | .binding _ isMutable name a => do
    let v ← run a
    modify (Env.define name v isMutable)
    return .unit
  | .assign p op name a => assignment p op name (run a)
  | .giveBack _ a => do throw (.returned (← runLast a))

def runAll : List Term → Run (List Value)
  | [] => return []
  | t :: ts => do return (← run t) :: (← runAll ts)

def runEach : List Term → Run Unit
  | [] => return ()
  | t :: ts => do
    discard (run t)
    runEach ts

/-- The value of a part that may be left out. -/
def runLast : Option Term → Run Value
  | none => return .unit
  | some t => run t

end

/-- The value of the last statement, or `last` if there is none. -/
def statements (last : Option Value) : List Term → Run (Option Value)
  | [] => return last
  | t :: ts => do
    let v ← run t
    statements (some v) ts

def Env.evaluate (e : Env) (ts : List Term) : Result × Env :=
  match (statements none ts).run.run e with
  | (.ok v, e) => (.value v, e)
  | (.error i, e) => (Result.ofInterrupt i, e)

end Scriptlet.Lexical
