import Scriptlet.Decimal.Reading
import Scriptlet.Session.Interrupt
import Scriptlet.Session.Scope
import Scriptlet.Tree.Describe
import Scriptlet.Tree.Traversal
import Scriptlet.Value.Misfit

/-!
# Evaluation

Evaluation works on a session and may be interrupted; what was bound and printed
before stays. Blocks give up their bindings in every case. As in the grammar,
the rule for a node gets the evaluation of smaller nodes as parameters: `call`
for a node right below, `within` for one below a list of items or below `and`
and `or`. `eval` ties the knot with an amount of room.
-/

namespace Scriptlet

abbrev Eval : Type → Type := ExceptT Interrupt (StateM Session)

namespace Eval

/-- Stops with an error at a node. -/
def fail {α : Type} (e : RuntimeError) (n : Node) : Eval α :=
  throw (.error ⟨.runtime, e.message, n.position⟩)

def fault {α : Type} (f : Fault) : Eval α := throw (.fault f)

def tooDeep {α : Type} : Eval α := throw .tooDeep

/-- The result of an operation on any values, of which some failures are faults. -/
def ofAny {α : Type} (n : Node) : Except Failure α → Eval α
  | .ok a => pure a
  | .error (.operation e) => fail (.operation e) n
  | .error (.misuse m) => fault (.misuse m)
  | .error (.mismatch m) => fault (.mismatch m)

/-- A value that is made here and now. -/
def made (v : Value) : Eval Value := modifyGet (Session.mark v)

/-- Going through a value takes room for three levels for each of its own. -/
def needDepth (room depth : Nat) : Eval Unit := if room < 3 * depth then tooDeep else pure ()

/-- Evaluates in a scope of its own, which is left however the evaluation ends. -/
def inScope {α : Type} (x : Eval α) : Eval α :=
  fun s => let (result, s) := x s.enter; (result, s.leave)

/-- Exactly two parts of a node. -/
def twoParts : List Node → Eval (Node × Node)
  | [a, b] => pure (a, b)
  | parts => fault (if parts.length < 2 then .tooFewParts 2 parts.length else .tooManyParts 2)

/-- One part of a node. -/
def part (parts : List Node) (i : Nat) : Eval Node :=
  match parts[i]? with
  | some n => pure n
  | none => fault .missingPart

/-- The value of a node as an operator's name. -/
def operatorName? (n : Node) : Option String :=
  match n.value with
  | .text name => some name
  | _ => none

/-- The fault of a value that names no binary operator. -/
def unknownBinary : Datum Node → Fault
  | .node n => .nodeAsOperator (Datum.node n).typeName
  | v => .misuse (.unknownBinary (Node.describeValue v))

def identifier (n : Node) : Eval Value := do
  match (← get).find? n.value with
  | some (_, b) => return b.value
  | none => fail (.undefined (Node.valueText n.value)) n

def unary (call : Node → Eval Value) (n : Node) : Eval Value := do
  let operand ← call (← part n.children 0)
  match operatorName? n with
  | some name => made (← ofAny n (Value.unary name operand))
  | none => fault (.misuse (.unknownUnary (Node.describeValue n.value)))

/-- A truth value, which an operand of `and` and `or` has to be. -/
def truth (op : BinaryOp) (n : Node) : Value → Eval Bool
  | .bool b => pure b
  | v => fail (.operandNotBool op v.kind) n

/-- The second operand is evaluated only when the first does not decide. -/
def logical (within : Node → Eval Value) (op : BinaryOp) (decisive : Bool) (left right : Node) :
    Eval Value := do
  let first ← truth op left (← within left)
  if first = decisive then return .bool first
  return .bool (← truth op right (← within right))

def binary (room : Nat) (call within : Node → Eval Value) (n : Node) : Eval Value := do
  let (left, right) ← twoParts n.children
  match operatorName? n with
  | none =>
    discard (call left)
    discard (call right)
    fault (unknownBinary n.value)
  | some name =>
    match BinaryOp.ofName? name with
    | some .and => logical within .and false left right
    | some .or => logical within .or true left right
    | _ =>
      let a ← call left
      let b ← call right
      needDepth room (Value.binaryDepth name a b)
      made (← ofAny n (Value.binary name a b))

def application (room : Nat) (call within : Node → Eval Value) (n : Node) : Eval Value := do
  match n.value with
  | .node callee =>
    match ← call callee with
    | .function b =>
      let arguments ← n.children.mapM within
      needDepth room (b.depth arguments)
      let reply ← ofAny n (b.apply arguments)
      modify (Session.print reply.printed)
      made reply.value
    | v => fail (.notCallable v.kind) n
  | v => fault (.notNode v.typeName)

def indexing (call : Node → Eval Value) (n : Node) : Eval Value := do
  let subject ← call (← part n.children 0)
  let place ← call (← part n.children 1)
  ofAny n (subject.itemAt place)

def block (call : Node → Eval Value) (n : Node) : Eval Value :=
  inScope do
    n.children.forM fun statement => discard (call statement)
    match n.value with
    | .absent => return .unit
    | .node last => call last
    | v => fault (.notNode v.typeName)

def conditional (call : Node → Eval Value) (n : Node) : Eval Value := do
  let (condition, thenBlock) ← twoParts n.children
  match ← call condition with
  | .bool true => call thenBlock
  | .bool false =>
    match n.elseBranch with
    | [] => return .unit
    | branch :: _ => call branch
  | v => fail (.notBool v.kind) condition

def binding (call : Node → Eval Value) (n : Node) : Eval Value := do
  let v ← call (← part n.children 0)
  modify (Session.define n.value v n.isMutable)
  return .unit

/-- The binding is looked up, and must admit an assignment, before the new value is
evaluated; the old value is taken after that. -/
def assignment (room : Nat) (call : Node → Eval Value) (n : Node) : Eval Value := do
  let (target, source) ← twoParts n.children
  let name := Node.valueText target.value
  match (← get).find? target.value with
  | none => fail (.undeclaredTarget name) target
  | some (slot, b) =>
    if b.isFunction then fail (.functionTarget name) target
    else if !b.isMutable then fail (.immutableTarget name) target
    else
      let v ← call source
      match operatorName? n with
      | none => fault (unknownBinary n.value)
      | some op =>
        if op = AssignOp.replace.name then modify (Session.set slot v)
        else
          let old := ((← get).at? slot).getD b.value
          needDepth room (Value.binaryDepth op old v)
          modify (Session.set slot (← made (← ofAny n (Value.binary op old v))))
        return .unit

def giveBack (call : Node → Eval Value) (n : Node) : Eval Value := do
  match n.children with
  | [] => throw (.returned .unit)
  | source :: _ => throw (.returned (← call source))

/-- Truth values and floats stay what they are when they are called integers. -/
def integerLiteral (n : Node) : Eval Value :=
  match n.value with
  | .int i => inRange (.whole i)
  | .float x => inRange (.float x)
  | .bool b => made (.misfit .integer (.bool b) 0)
  | v => fault (.notInteger v.typeName)
where
  inRange (a : Number) : Eval Value :=
    match Value.ofNumber a with
    | .ok v => made v
    | .error e => fault (.operation e)

/-- The literal of a float may also hold what can be turned into one. -/
def floatLiteral (n : Node) : Eval Value :=
  match n.value with
  | .float x => made (.float x 0)
  | .bool b => made (.float (if b then 1.0 else 0.0) 0)
  | .int i => ofWhole i
  | .text s => fromText s
  | v => fault (.notFloat v.typeName)
where
  fromText (s : String) : Eval Value :=
    match Decimal.floatOf? s.toList with
    | some x => made (.float x 0)
    | none => fault (.notFloatText s)
  ofWhole (i : Int) : Eval Value :=
    let x := Number.nearestFloat i
    if x.isInf then fault .floatOutOfRange else made (.float x 0)

def stringLiteral (n : Node) : Eval Value := made (Value.ofStringData n.value)

/-- The rule for a node, by its kind. The rule of `and` and `or` goes by a kind of its
own, but no node has the parts that it asks for. -/
def rule (room : Nat) (call within : Node → Eval Value) (n : Node) : Eval Value :=
  match n.kind with
  | .integer => integerLiteral n
  | .float => floatLiteral n
  | .string => stringLiteral n
  | .bool => pure (.bool n.value.isTruthy)
  | .unit => pure .unit
  | .tuple => do made (.tuple (← n.children.mapM within) 0)
  | .array => do made (.array (← n.children.mapM within) 0)
  | .identifier => identifier n
  | .unary => unary call n
  | .binary => binary room call within n
  | .call => application room call within n
  | .index => indexing call n
  | .block => block call n
  | .conditional => conditional call n
  | .binding => binding call n
  | .assign => assignment room call n
  | .giveBack => giveBack call n
  | .error => fault (.errorNode (Node.valueText n.value))
  | .other name => fault (if name = "logical" then .bareLogical else .noRule name)

end Eval

/-- Evaluates a node in a given amount of room, of which each node takes two levels. -/
def eval : Nat → Node → Eval Value
  | 0, _ => Eval.tooDeep
  | 1, _ => Eval.tooDeep
  | 2, n => Eval.rule 0 (fun _ => Eval.tooDeep) (fun _ => Eval.tooDeep) n
  | room + 3, n => Eval.rule (room + 1) (eval (room + 1)) (eval room) n

end Scriptlet
