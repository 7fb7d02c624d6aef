import Scriptlet.Grammar.Parser
import Scriptlet.Operator
import Scriptlet.Text.Literal
import Scriptlet.Value

/-!
# The rules of the grammar

Each rule is a parser that calls further rules through parameters: `call` runs a
rule right below, `within` a rule below a list of items or statements, which
takes a level of its own. `parse` ties the knot with an amount of room that
shrinks with every level, so that what holds of `body` for all calls holds of
`parse` by induction on the room.

From loosest to tightest: assignment, `or`, `and`, equality, sums, products,
prefix operators, calls and indexes, operands. Chains of `or` and of `and`
associate to the left, chains of the other binary operators to the right.
-/

namespace Scriptlet

inductive Rule where
  | statement
  | binding
  | giveBack
  | expression
  | assignment
  | disjunction
  | conjunction
  | equality
  | sum
  | product
  | prefixed
  | applied
  | operand
  | group
  | array
  | block
  | conditional
deriving DecidableEq, Repr

namespace Grammar

open Scriptlet.Parser

def assignOp? : Token.Kind → Option AssignOp
  | .assign => some .replace
  | .plusAssign => some (.combine .add)
  | .minusAssign => some (.combine .sub)
  | .timesAssign => some (.combine .mul)
  | .divideAssign => some (.combine .div)
  | _ => none

def sumOp? : Token.Kind → Option BinaryOp
  | .plus => some (.arithmetic .add)
  | .minus => some (.arithmetic .sub)
  | _ => none

def productOp? : Token.Kind → Option BinaryOp
  | .times => some (.arithmetic .mul)
  | .divide => some (.arithmetic .div)
  | _ => none

def prefixOp? : Token.Kind → Option UnaryOp
  | .minus => some .negate
  | .bang => some .not
  | .kwNot => some .not
  | _ => none

/-- The number of a run of digits, if it is in range. Long runs are refused by
their length alone. A token made by hand may hold no number. -/
def integerLiteral (lexeme : String) : Except SyntaxFault Int :=
  let digits := Decimal.stripZeros lexeme.toList
  if digits.length > 19 then .error (.integerOutOfRange lexeme)
  else
    match Decimal.integerOf? digits with
    | none => .error (.notInteger (String.ofList digits))
    | some n => if n > Value.greatestInteger then .error (.integerOutOfRange lexeme) else .ok n

/-- The float nearest to a decimal, if it is in range. -/
def floatLiteral (lexeme : String) : Except SyntaxFault Float :=
  match Decimal.floatOf? lexeme.toList with
  | none => .error (.notFloat lexeme)
  | some x => if x.isInf then .error (.floatOutOfRange lexeme) else .ok x

/-- One round of a list of statements, behind those that are complete. A statement that
consumes nothing costs the token that stopped it. -/
def sequenceStep (statement : Parser Node) (closing : Token.Kind) (statements : List Node) :
    Parser (List Node ⊕ (List Node × Option Node)) := do
  if ← check [closing, .eof] then return .inr (statements, none)
  if ← acceptKind .semicolon then return .inl statements
  let before := (← get).consumed
  let node ← statement
  if (← get).consumed = before then discard advance
  if ← acceptKind .semicolon then return .inl (statements ++ [node])
  if ← check [closing] then return .inr (statements, some node)
  if node.isError then
    synchronize closing
    return .inl (statements ++ [node])
  if node.isBlockLike then return .inl (statements ++ [node])
  return .inl (statements ++ [node, ← expected "`;`"])

/-- Reads statements up to `closing` or the end, without consuming it. Gives those
that are complete, and the last one if nothing but `closing` follows it. -/
def sequence (statement : Parser Node) (closing : Token.Kind) :
    Parser (List Node × Option Node) :=
  iterate (sequenceStep statement closing) []

/-- The end of a list of items: the closing token, or the complaint that it is missing. -/
def finishItems (closing : Token.Kind) (glyph : String) (read : List Node) (comma : Bool) :
    Parser ((List Node × Bool) ⊕ Except Node (List Node × Bool)) := do
  if ← acceptKind closing then return .inr (.ok (read, comma))
  return .inr (.error (← expected glyph))

/-- One round of a list of items, behind those that are read. -/
def itemsStep (expression : Parser Node) (closing : Token.Kind) (glyph : String) :
    List Node × Bool → Parser ((List Node × Bool) ⊕ Except Node (List Node × Bool)) :=
  fun (read, comma) => do
    if ← check [closing] then finishItems closing glyph read comma
    else
      let item ← expression
      if item.isError then return .inr (.error item)
      if ← acceptKind .comma then return .inl (read ++ [item], true)
      finishItems closing glyph (read ++ [item]) comma

/-- Reads expressions with commas between them, up to and including `closing`. Gives
them and whether there was a comma, or an error node. -/
def items (expression : Parser Node) (closing : Token.Kind) (glyph : String) :
    Parser (Except Node (List Node × Bool)) :=
  iterate (itemsStep expression closing glyph) ([], false)

def statement (call : Rule → Parser Node) : Parser Node := do
  match ← currentKind with
  | .kwLet => call .binding
  | .kwReturn => call .giveBack
  | _ => call .expression

/-- Reads the name of a binding and whether it is mutable, or gives an error node. -/
def parameter : Parser (Except Node (Bool × Token)) := do
  let isMutable ← acceptKind .kwMut
  match ← accept [.identifier] with
  | none => return .error (← expected "identifier")
  | some name => return .ok (isMutable, name)

def letBinding (call : Rule → Parser Node) : Parser Node := do
  let start ← advance
  match ← parameter with
  | .error node => return node
  | .ok (isMutable, name) =>
    if !(← acceptKind .assign) then return ← expected "`=`"
    let value ← call .expression
    let node := Node.make .binding start.position (.text name.lexeme) [value]
    return { node with isMutable }

def returnStatement (call : Rule → Parser Node) : Parser Node := do
  let start ← advance
  if ← check [.semicolon, .rightBrace, .eof] then
    return .make .giveBack start.position .absent []
  return .make .giveBack start.position .absent [← call .expression]

/-- The target is checked when the right-hand side has been read. -/
def assign (call : Rule → Parser Node) : Parser Node := do
  let left ← call .disjunction
  match assignOp? (← currentKind) with
  | none => return left
  | some op =>
    discard advance
    let right ← call .assignment
    if left.isError then return left
    if left.kind ≠ .identifier then return ← fault .invalidTarget left.position
    return .make .assign left.position (.text op.name) [left, right]

def binaryNode (op : BinaryOp) (left right : Node) : Node :=
  .make .binary left.position (.text op.name) [left, right]

/-- One link of a chain that associates to the left. -/
def chainStep (joint : Token.Kind) (op : BinaryOp) (tighter : Parser Node) (left : Node) :
    Parser (Node ⊕ Node) := do
  if ← acceptKind joint then return .inl (binaryNode op left (← tighter))
  return .inr left

/-- A chain that associates to the left. -/
def leftChain (joint : Token.Kind) (op : BinaryOp) (tighter : Parser Node) : Parser Node := do
  iterate (chainStep joint op tighter) (← tighter)

/-- A chain that associates to the right. -/
def rightChain (op? : Token.Kind → Option BinaryOp) (tighter same : Parser Node) :
    Parser Node := do
  let left ← tighter
  match op? (← currentKind) with
  | none => return left
  | some op =>
    discard advance
    return binaryNode op left (← same)

/-- Like a right chain, with one operator of two words. -/
def equalityChain (call : Rule → Parser Node) : Parser Node := do
  let left ← call .sum
  match ← currentKind with
  | .equal => complete left .equal
  | .notEqual => complete left .notEqual
  | .kwIn => complete left .member
  | .kwNot =>
    discard advance
    if ← check [.kwIn] then complete left .notMember
    else expected "`in` after `not`"
  | _ => return left
where
  complete (left : Node) (op : BinaryOp) : Parser Node := do
    discard advance
    return binaryNode op left (← call .equality)

def prefixOperators (call : Rule → Parser Node) : Parser Node := do
  let start ← current
  match prefixOp? start.kind with
  | none => call .applied
  | some op =>
    discard advance
    return .make .unary start.position (.text op.name) [← call .prefixed]

/-- One call or index behind what has been read. -/
def applicationsStep (call within : Rule → Parser Node) (node : Node) : Parser (Node ⊕ Node) := do
  if ← acceptKind .leftParen then
    match ← items (within .expression) .rightParen "`)`" with
    | .error e => return .inr e
    | .ok (arguments, _) => return .inl (.make .call node.position (.node node) arguments)
  else if ← acceptKind .leftBracket then
    let index ← call .expression
    if index.isError then return .inr index
    if !(← acceptKind .rightBracket) then return .inr (← expected "`]`")
    return .inl (.make .index node.position .absent [node, index])
  else return .inr node

/-- Calls and indexes are not looked for behind a block, a conditional, a binding or
an error. -/
def applications (call within : Rule → Parser Node) : Parser Node := do
  let first ← call .operand
  if first.isBlockLike || first.kind = .binding || first.isError then return first
  iterate (applicationsStep call within) first

/-- An operand of one token, or the start of a longer one. -/
def primary (call : Rule → Parser Node) : Parser Node := do
  let t ← current
  let leaf (kind : Node.Kind) (value : Datum Node) : Parser Node := do
    discard advance
    return .make kind t.position value []
  match t.kind with
  | .integer =>
    discard advance
    match integerLiteral t.lexeme with
    | .ok n => return .make .integer t.position (.int n) []
    | .error f => fault f t.position
  | .float =>
    discard advance
    match floatLiteral t.lexeme with
    | .ok x => return .make .float t.position (.float x) []
    | .error f => fault f t.position
  | .string => leaf .string (.text (String.ofList (Text.unescape t.lexeme.toList)))
  | .kwTrue => leaf .bool (.bool true)
  | .kwFalse => leaf .bool (.bool false)
  | .identifier => leaf .identifier (.text t.lexeme)
  | .leftParen => call .group
  | .leftBracket => call .array
  | .leftBrace => call .block
  | .kwIf => call .conditional
  | .kwLet => call .binding
  | .kwFn =>
    discard advance
    fault .functionDeclaration t.position
  | .error =>
    discard advance
    return .ofError (SyntaxFault.invalidToken t.lexeme).message t.position
  | _ => expected "expression"

/-- The unit, an expression in parentheses, or a tuple, which has a comma. -/
def parenthesized (within : Rule → Parser Node) : Parser Node := do
  let start ← advance
  if ← acceptKind .rightParen then return .make .unit start.position .absent []
  match ← items (within .expression) .rightParen "`)`" with
  | .error e => return e
  | .ok ([item], false) => return item
  | .ok (read, _) => return .make .tuple start.position .absent read

def bracketed (within : Rule → Parser Node) : Parser Node := do
  let start ← advance
  match ← items (within .expression) .rightBracket "`]`" with
  | .error e => return e
  | .ok (read, _) => return .make .array start.position .absent read

def braced (within : Rule → Parser Node) : Parser Node := do
  let start ← advance
  let (statements, last) ← sequence (within .statement) .rightBrace
  if !(← acceptKind .rightBrace) then return ← expected "`\x7d`"
  let value : Datum Node :=
    match last with
    | none => .absent
    | some n => .node n
  return .make .block start.position value statements

/-- An error in the condition or in a branch takes the place of the whole. -/
def choice (call : Rule → Parser Node) : Parser Node := do
  let start ← advance
  let condition ← call .expression
  if condition.isError then return condition
  if !(← check [.leftBrace]) then return ← expected "`\x7b` after `if` condition"
  let thenBlock ← call .block
  if thenBlock.isError then return thenBlock
  let node := Node.make .conditional start.position .absent [condition, thenBlock]
  if !(← acceptKind .kwElse) then return node
  let branch ←
    if ← check [.kwIf] then call .conditional
    else if ← check [.leftBrace] then call .block
    else return ← expected "`\x7b` or `if` after `else`"
  if branch.isError then return branch
  return { node with elseBranch := [branch] }

def body (call within : Rule → Parser Node) : Rule → Parser Node
  | .statement => statement call
  | .binding => letBinding call
  | .giveBack => returnStatement call
  | .expression => call .assignment
  | .assignment => assign call
  | .disjunction => leftChain .kwOr .or (call .conjunction)
  | .conjunction => leftChain .kwAnd .and (call .equality)
  | .equality => equalityChain call
  | .sum => rightChain sumOp? (call .product) (call .sum)
  | .product => rightChain productOp? (call .prefixed) (call .product)
  | .prefixed => prefixOperators call
  | .applied => applications call within
  | .operand => primary call
  | .group => parenthesized within
  | .array => bracketed within
  | .block => braced within
  | .conditional => choice call

/-- Reads by a rule with a given amount of room. -/
def parse : Nat → Rule → Parser Node
  | 0, _ => tooDeep
  | 1, rule => body (fun _ => tooDeep) (fun _ => tooDeep) rule
  | room + 2, rule => body (parse (room + 1)) (parse room) rule

end Grammar

end Scriptlet
