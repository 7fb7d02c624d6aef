import Scriptlet.Proofs.Session.Outcome
import Scriptlet.Proofs.Tree.Term

/-!
# The rules of evaluation, on terms

What the rules do on the trees of terms, without what can be wrong with other trees:
`rule_toNode` says that it is the same.
-/

namespace Scriptlet

open Eval

namespace Term

/-- The second operand is evaluated only when the first does not decide. -/
def logical (within : Term → Eval Value) (op : BinaryOp) (decisive : Bool) (left right : Term) :
    Eval Value := do
  let first ← truth op left.toNode (← within left)
  if first = decisive then return .bool first
  return .bool (← truth op right.toNode (← within right))

/-- An operator on the values of both operands. -/
def operator (room : Nat) (call : Term → Eval Value) (n : Node) (op : BinaryOp)
    (left right : Term) : Eval Value := do
  let a ← call left
  let b ← call right
  needDepth room (Value.binaryDepth op.name a b)
  made (← ofAny n (Value.binary op.name a b))

def application (room : Nat) (within : Term → Eval Value) (n : Node) (arguments : List Term) :
    Value → Eval Value
  | .function b => do
    let vs ← arguments.mapM within
    needDepth room (b.depth vs)
    let reply ← ofAny n (b.apply vs)
    modify (Session.print reply.printed)
    made reply.value
  | v => fail (.notCallable v.kind) n

/-- Writes a new value to the slot of a binding. -/
def write (room : Nat) (n : Node) (op : AssignOp) (slot : Nat) (b : Binding) (v : Value) :
    Eval Unit :=
  match op with
  | .replace => modify (Session.set slot v)
  | .combine op => do
    let old := ((← get).at? slot).getD b.value
    needDepth room (Value.binaryDepth op.name old v)
    modify (Session.set slot (← made (← ofAny n (Value.binary op.name old v))))

def assignment (room : Nat) (call : Term → Eval Value) (n target : Node) (op : AssignOp)
    (name : String) (source : Term) : Option (Nat × Binding) → Eval Value
  | none => fail (.undeclaredTarget name) target
  | some (slot, b) =>
    if b.isFunction then fail (.functionTarget name) target
    else if !b.isMutable then fail (.immutableTarget name) target
    else do
      let v ← call source
      write room n op slot b v
      return .unit

/-- The value of a part that may be left out. -/
def optionally (call : Term → Eval Value) : Option Term → Eval Value
  | none => return .unit
  | some t => call t

def choose (call : Term → Eval Value) (condition thenBlock : Term) (otherwise : Option Term) :
    Value → Eval Value
  | .bool true => call thenBlock
  | .bool false => optionally call otherwise
  | v => fail (.notBool v.kind) condition.toNode

def rule (room : Nat) (call within : Term → Eval Value) (t : Term) : Eval Value :=
  match t with
  | .integer _ n => made (.integer n)
  | .float _ x => made (.float x 0)
  | .string _ s => made (.string s)
  | .bool _ b => return .bool b
  | .unit _ => return .unit
  | .identifier _ name => do
    match (← get).find? (.text name) with
    | some (_, b) => return b.value
    | none => fail (.undefined name) t.toNode
  | .unary _ op a => do made (← ofAny t.toNode (Value.unary op.name (← call a)))
  | .binary _ .and a b => logical within .and false a b
  | .binary _ .or a b => logical within .or true a b
  | .binary _ op a b => operator room call t.toNode op a b
  | .call _ f as => do application room within t.toNode as (← call f)
  | .index _ a i => do
    let subject ← call a
    let place ← call i
    ofAny t.toNode (subject.itemAt place)
  | .tuple _ as => do made (.tuple (← as.mapM within) 0)
  | .array _ as => do made (.array (← as.mapM within) 0)
  | .block _ ts last => inScope do
    ts.forM fun s => discard (call s)
    optionally call last
  | .conditional _ c a e => do choose call c a e (← call c)
  | .binding _ isMutable name a => do
    let v ← call a
    modify (Session.define (.text name) v isMutable)
    return .unit
  | .assign p op name a => do
    assignment room call t.toNode (nameNode p name) op name a ((← get).find? (.text name))
  | .giveBack _ a => do throw (.returned (← optionally call a))

theorem mapM_toNodes (f : Node → Eval Value) (ts : List Term) :
    (toNodes ts).mapM f = ts.mapM fun t => f t.toNode := by
  induction ts with
  | nil => rfl
  | cons t ts ih => rw [toNodes, List.mapM_cons, List.mapM_cons, ih]

theorem forM_toNodes (f : Node → Eval Unit) (ts : List Term) :
    (toNodes ts).forM f = ts.forM fun t => f t.toNode := by
  induction ts with
  | nil => rfl
  | cons t ts ih =>
    rw [toNodes, forM_cons, ih]
    rfl

variable (call within : Node → Eval Value) (room : Nat)

theorem binary_toNode (p : Position) (op : BinaryOp) (a b : Term) :
    Eval.binary room call within (toNode (.binary p op a b)) =
      rule room (fun t => call t.toNode) (fun t => within t.toNode) (.binary p op a b) := by
  cases op with
  | arithmetic op => cases op <;> rfl
  | _ => rfl

theorem call_toNode (p : Position) (f : Term) (as : List Term) :
    Eval.application room call within (toNode (.call p f as)) =
      rule room (fun t => call t.toNode) (fun t => within t.toNode) (.call p f as) := by
  refine bind_congr fun v => ?_
  cases v with
  | function b =>
    change ((toNodes as).mapM within >>= fun vs => _) = _
    rw [mapM_toNodes]
    rfl
  | _ => rfl

theorem block_toNode (p : Position) (ts : List Term) (last : Option Term) :
    Eval.block call (toNode (.block p ts last)) =
      rule room (fun t => call t.toNode) (fun t => within t.toNode) (.block p ts last) := by
  cases last with
  | none =>
    change inScope ((toNodes ts).forM (fun s => discard (call s)) >>= fun _ => _) = _
    rw [forM_toNodes]
    rfl
  | some last =>
    change inScope ((toNodes ts).forM (fun s => discard (call s)) >>= fun _ => _) = _
    rw [forM_toNodes]
    rfl

theorem conditional_toNode (p : Position) (c a : Term) (e : Option Term) :
    Eval.conditional call (toNode (.conditional p c a e)) =
      rule room (fun t => call t.toNode) (fun t => within t.toNode) (.conditional p c a e) := by
  change (call c.toNode >>= fun v => _) = (call c.toNode >>= fun v => _)
  refine bind_congr fun v => ?_
  cases v with
  | bool b => cases b <;> cases e <;> rfl
  | _ => rfl

theorem assign_toNode (p : Position) (op : AssignOp) (name : String) (a : Term) :
    Eval.assignment room call (toNode (.assign p op name a)) =
      rule room (fun t => call t.toNode) (fun t => within t.toNode) (.assign p op name a) := by
  have hparts : (toNode (.assign p op name a)).children = [nameNode p name, a.toNode] := rfl
  have hoperator : operatorName? (toNode (.assign p op name a)) = some op.name := rfl
  have hname : (nameNode p name).value = .text name := rfl
  simp only [Eval.assignment, rule, hparts, hoperator, hname, twoParts, pure_bind, Node.valueText]
  refine bind_congr fun s => ?_
  rcases s.find? (.text name) with - | ⟨slot, b⟩
  · rfl
  · simp only [assignment]
    split
    · rfl
    · split
      · rfl
      · refine bind_congr fun v => ?_
        cases op with
        | replace => rfl
        | combine op =>
          have hne : (AssignOp.combine op).name ≠ AssignOp.replace.name := by cases op <;> decide
          simp only [if_neg hne, write, bind_assoc]
          rfl

theorem rule_toNode (t : Term) :
    Eval.rule room call within t.toNode =
      rule room (fun t => call t.toNode) (fun t => within t.toNode) t := by
  cases t with
  | integer p n =>
    have hrange : Value.ofNumber (.whole n) = .ok (.integer n) := if_pos n.2
    change integerLiteral.inRange (.whole n) = _
    rw [integerLiteral.inRange, hrange]
    rfl
  | binary p op a b => exact binary_toNode call within room p op a b
  | call p f as => exact call_toNode call within room p f as
  | tuple p as =>
    change ((toNodes as).mapM within >>= fun vs => _) = _
    rw [mapM_toNodes]
    rfl
  | array p as =>
    change ((toNodes as).mapM within >>= fun vs => _) = _
    rw [mapM_toNodes]
    rfl
  | block p ts last => exact block_toNode call within room p ts last
  | conditional p c a e => exact conditional_toNode call within room p c a e
  | assign p op name a => exact assign_toNode call within room p op name a
  | giveBack p a => cases a <;> rfl
  | _ => rfl

end Term

end Scriptlet
