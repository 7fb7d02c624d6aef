import Scriptlet.Proofs.Grammar.Outcome

/-!
# Derivations of the parser

`Reads` says once what the rules of the grammar can do: each way through a rule or
through one round of a loop is a constructor, with the conditions under which it is
taken. It covers all texts, malformed ones too, and leaves out only what runs out
of room. `derived_parse` and `reads_of_statements` connect it to the parsers, so that
what holds of all ways through the rules holds of everything that is read.

The room is that of the rules. A rule that consumes its first token unseen has a
derivation only where that token is the one it is meant for.
-/

namespace Scriptlet.Grammar

open Scriptlet.Parser

/-- What is being read: a rule, or the rest of a loop after what it has read so far. -/
inductive Task where
  | rule (r : Rule)
  | chain (joint : Token.Kind) (op : BinaryOp) (tighter : Rule) (left : Node)
  | applications (node : Node)
  | items (closing : Token.Kind) (glyph : String) (read : List Node) (comma : Bool)
  | sequence (closing : Token.Kind) (read : List Node)

/-- What reading gives. A list of items that is broken off gives a node, its error. -/
inductive Yield where
  | node (n : Node)
  | items (read : List Node) (comma : Bool)
  | sequence (read : List Node) (last : Option Node)

/-- The levels of operators that associate to the right, with the next level. -/
inductive RightLevel : Rule → (Token.Kind → Option BinaryOp) → Rule → Prop where
  | equality : RightLevel .equality (fun
      | .equal => some .equal
      | .notEqual => some .notEqual
      | .kwIn => some .member
      | _ => none) .sum
  | sum : RightLevel .sum sumOp? .product
  | product : RightLevel .product productOp? .prefixed

/-- The operand that a single token stands for. -/
inductive Leaf (t : Token) : Node → Prop where
  | integer {n} : t.kind = .integer → integerLiteral t.lexeme = .ok n →
      Leaf t (.make .integer t.position (.int n) [])
  | float {x} : t.kind = .float → floatLiteral t.lexeme = .ok x →
      Leaf t (.make .float t.position (.float x) [])
  | string : t.kind = .string →
      Leaf t (.make .string t.position (.text (String.ofList (Text.unescape t.lexeme.toList))) [])
  | true : t.kind = .kwTrue → Leaf t (.make .bool t.position (.bool true) [])
  | false : t.kind = .kwFalse → Leaf t (.make .bool t.position (.bool false) [])
  | identifier : t.kind = .identifier → Leaf t (.make .identifier t.position (.text t.lexeme) [])

/-- A token that is consumed as an operand and reported. -/
inductive Refused (t : Token) : SyntaxFault → Prop where
  | integer {f} : t.kind = .integer → integerLiteral t.lexeme = .error f → Refused t f
  | float {f} : t.kind = .float → floatLiteral t.lexeme = .error f → Refused t f
  | function : t.kind = .kwFn → Refused t .functionDeclaration

/-- The rule for the operands that start with a token of the kind. -/
def opened? : Token.Kind → Option Rule
  | .leftParen => some .group
  | .leftBracket => some .array
  | .leftBrace => some .block
  | .kwIf => some .conditional
  | .kwLet => some .binding
  | _ => none

/-- The kinds of tokens that are operands, read or refused, or start one. -/
def operandKinds : List Token.Kind := [
  .integer, .float, .string, .kwTrue, .kwFalse, .identifier, .leftParen, .leftBracket, .leftBrace,
  .kwIf, .kwLet, .kwFn, .error]

/-- The rule for what may stand behind `else`. -/
def branch? : Token.Kind → Option Rule
  | .kwIf => some .conditional
  | .leftBrace => some .block
  | _ => none

/-- Is there nothing to call or to index behind the node? -/
def endsOperand (n : Node) : Bool := n.isBlockLike || n.kind = .binding || n.isError

/-- Skips the token that stopped a statement which consumed nothing. -/
def moveOn (before : Nat) (s : State) : State := if s.consumed = before then s.advance else s

inductive Reads : Nat → Task → State → Yield → State → Prop where
  -- Statements
  | bindingStatement {room s y s'} : s.current.kind = .kwLet →
      Reads room (.rule .binding) s y s' → Reads (room + 1) (.rule .statement) s y s'
  | returnStatement {room s y s'} : s.current.kind = .kwReturn →
      Reads room (.rule .giveBack) s y s' → Reads (room + 1) (.rule .statement) s y s'
  | expressionStatement {room s y s'} : s.current.kind ≠ .kwLet → s.current.kind ≠ .kwReturn →
      Reads room (.rule .expression) s y s' → Reads (room + 1) (.rule .statement) s y s'
  | unnamed {room s m} : s.current.kind = .kwLet → s.advance.skip .kwMut = m →
      m.current.kind ≠ .identifier →
      Reads (room + 1) (.rule .binding) s (.node (m.expected "identifier").1)
        (m.expected "identifier").2
  | unassigned {room s m} : s.current.kind = .kwLet → s.advance.skip .kwMut = m →
      m.current.kind = .identifier → m.advance.current.kind ≠ .assign →
      Reads (room + 1) (.rule .binding) s (.node (m.advance.expected "`=`").1)
        (m.advance.expected "`=`").2
  | binding {room s m v s'} : s.current.kind = .kwLet → s.advance.skip .kwMut = m →
      m.current.kind = .identifier → m.advance.current.kind = .assign →
      Reads room (.rule .expression) m.advance.advance (.node v) s' →
      Reads (room + 1) (.rule .binding) s
        (.node { Node.make .binding s.current.position (.text m.current.lexeme) [v] with
          isMutable := decide (s.advance.current.kind = .kwMut) }) s'
  | bareReturn {room s} : s.current.kind = .kwReturn →
      [.semicolon, .rightBrace, .eof].contains s.advance.current.kind = true →
      Reads (room + 1) (.rule .giveBack) s
        (.node (.make .giveBack s.current.position .absent [])) s.advance
  | returnOf {room s n s'} : s.current.kind = .kwReturn →
      [.semicolon, .rightBrace, .eof].contains s.advance.current.kind = false →
      Reads room (.rule .expression) s.advance (.node n) s' →
      Reads (room + 1) (.rule .giveBack) s
        (.node (.make .giveBack s.current.position .absent [n])) s'
  | expression {room s y s'} : Reads room (.rule .assignment) s y s' →
      Reads (room + 1) (.rule .expression) s y s'
  -- Operators
  | unassigning {room s l s'} : Reads room (.rule .disjunction) s (.node l) s' →
      assignOp? s'.current.kind = none → Reads (room + 1) (.rule .assignment) s (.node l) s'
  | assignment {room s l m op r s'} : Reads room (.rule .disjunction) s (.node l) m →
      assignOp? m.current.kind = some op →
      Reads room (.rule .assignment) m.advance (.node r) s' →
      l.isError = false → l.kind = .identifier →
      Reads (room + 1) (.rule .assignment) s
        (.node (.make .assign l.position (.text op.name) [l, r])) s'
  | assignmentToError {room s l m op r s'} : Reads room (.rule .disjunction) s (.node l) m →
      assignOp? m.current.kind = some op →
      Reads room (.rule .assignment) m.advance (.node r) s' → l.isError = true →
      Reads (room + 1) (.rule .assignment) s (.node l) s'
  | invalidTarget {room s l m op r s'} : Reads room (.rule .disjunction) s (.node l) m →
      assignOp? m.current.kind = some op →
      Reads room (.rule .assignment) m.advance (.node r) s' →
      l.isError = false → l.kind ≠ .identifier →
      Reads (room + 1) (.rule .assignment) s (.node (s'.fault .invalidTarget l.position).1)
        (s'.fault .invalidTarget l.position).2
  | disjunction {room s l m y s'} : Reads room (.rule .conjunction) s (.node l) m →
      Reads room (.chain .kwOr .or .conjunction l) m y s' →
      Reads (room + 1) (.rule .disjunction) s y s'
  | conjunction {room s l m y s'} : Reads room (.rule .equality) s (.node l) m →
      Reads room (.chain .kwAnd .and .equality l) m y s' →
      Reads (room + 1) (.rule .conjunction) s y s'
  | chainEnd {room joint op tighter l s} : s.current.kind ≠ joint →
      Reads room (.chain joint op tighter l) s (.node l) s
  | chainLink {room joint op tighter l s r m y s'} : s.current.kind = joint →
      Reads room (.rule tighter) s.advance (.node r) m →
      Reads room (.chain joint op tighter (binaryNode op l r)) m y s' →
      Reads room (.chain joint op tighter l) s y s'
  | chainless {room rule op? tighter s l s'} : RightLevel rule op? tighter →
      Reads room (.rule tighter) s (.node l) s' → op? s'.current.kind = none →
      (rule = .equality → s'.current.kind ≠ .kwNot) → Reads (room + 1) (.rule rule) s (.node l) s'
  | rightChain {room rule op? tighter s l m op r s'} : RightLevel rule op? tighter →
      Reads room (.rule tighter) s (.node l) m → op? m.current.kind = some op →
      Reads room (.rule rule) m.advance (.node r) s' →
      Reads (room + 1) (.rule rule) s (.node (binaryNode op l r)) s'
  | notMember {room s l m r s'} : Reads room (.rule .sum) s (.node l) m →
      m.current.kind = .kwNot → m.advance.current.kind = .kwIn →
      Reads room (.rule .equality) m.advance.advance (.node r) s' →
      Reads (room + 1) (.rule .equality) s (.node (binaryNode .notMember l r)) s'
  | notAlone {room s l m} : Reads room (.rule .sum) s (.node l) m →
      m.current.kind = .kwNot → m.advance.current.kind ≠ .kwIn →
      Reads (room + 1) (.rule .equality) s (.node (m.advance.expected "`in` after `not`").1)
        (m.advance.expected "`in` after `not`").2
  | unprefixed {room s y s'} : prefixOp? s.current.kind = none →
      Reads room (.rule .applied) s y s' → Reads (room + 1) (.rule .prefixed) s y s'
  | prefixed {room s op n s'} : prefixOp? s.current.kind = some op →
      Reads room (.rule .prefixed) s.advance (.node n) s' →
      Reads (room + 1) (.rule .prefixed) s
        (.node (.make .unary s.current.position (.text op.name) [n])) s'
  -- Calls and indexes
  | unapplied {room s n s'} : Reads room (.rule .operand) s (.node n) s' →
      endsOperand n = true → Reads (room + 1) (.rule .applied) s (.node n) s'
  | applied {room s n m y s'} : Reads room (.rule .operand) s (.node n) m →
      endsOperand n = false → Reads room (.applications n) m y s' →
      Reads (room + 1) (.rule .applied) s y s'
  | applicationsEnd {room n s} : s.current.kind ≠ .leftParen → s.current.kind ≠ .leftBracket →
      Reads room (.applications n) s (.node n) s
  | call {room n s read comma m y s'} : s.current.kind = .leftParen →
      Reads (room - 1) (.items .rightParen "`)`" [] false) s.advance (.items read comma) m →
      Reads room (.applications (.make .call n.position (.node n) read)) m y s' →
      Reads room (.applications n) s y s'
  | badCall {room n s e s'} : s.current.kind = .leftParen →
      Reads (room - 1) (.items .rightParen "`)`" [] false) s.advance (.node e) s' →
      Reads room (.applications n) s (.node e) s'
  | index {room n s i m y s'} : s.current.kind = .leftBracket →
      Reads room (.rule .expression) s.advance (.node i) m → i.isError = false →
      m.current.kind = .rightBracket →
      Reads room (.applications (.make .index n.position .absent [n, i])) m.advance y s' →
      Reads room (.applications n) s y s'
  | badIndex {room n s i s'} : s.current.kind = .leftBracket →
      Reads room (.rule .expression) s.advance (.node i) s' → i.isError = true →
      Reads room (.applications n) s (.node i) s'
  | openIndex {room n s i m} : s.current.kind = .leftBracket →
      Reads room (.rule .expression) s.advance (.node i) m → i.isError = false →
      m.current.kind ≠ .rightBracket →
      Reads room (.applications n) s (.node (m.expected "`]`").1) (m.expected "`]`").2
  -- Operands
  | leaf {room s n} : Leaf s.current n → Reads (room + 1) (.rule .operand) s (.node n) s.advance
  | refused {room s f} : Refused s.current f →
      Reads (room + 1) (.rule .operand) s (.node (s.advance.fault f s.current.position).1)
        (s.advance.fault f s.current.position).2
  | invalidToken {room s} : s.current.kind = .error →
      Reads (room + 1) (.rule .operand) s
        (.node (.ofError (SyntaxFault.invalidToken s.current.lexeme).message s.current.position))
        s.advance
  | missing {room s} : s.current.kind ∉ operandKinds →
      Reads (room + 1) (.rule .operand) s (.node (s.expected "expression").1)
        (s.expected "expression").2
  | compound {room s rule y s'} : opened? s.current.kind = some rule →
      Reads room (.rule rule) s y s' → Reads (room + 1) (.rule .operand) s y s'
  | unit {room s} : s.current.kind = .leftParen → s.advance.current.kind = .rightParen →
      Reads (room + 1) (.rule .group) s (.node (.make .unit s.current.position .absent []))
        s.advance.advance
  | grouped {room s n s'} : s.current.kind = .leftParen → s.advance.current.kind ≠ .rightParen →
      Reads (room - 1) (.items .rightParen "`)`" [] false) s.advance (.items [n] false) s' →
      Reads (room + 1) (.rule .group) s (.node n) s'
  | tuple {room s read comma s'} : s.current.kind = .leftParen →
      s.advance.current.kind ≠ .rightParen →
      Reads (room - 1) (.items .rightParen "`)`" [] false) s.advance (.items read comma) s' →
      (read.length = 1 → comma = true) →
      Reads (room + 1) (.rule .group) s (.node (.make .tuple s.current.position .absent read)) s'
  | badGroup {room s e s'} : s.current.kind = .leftParen → s.advance.current.kind ≠ .rightParen →
      Reads (room - 1) (.items .rightParen "`)`" [] false) s.advance (.node e) s' →
      Reads (room + 1) (.rule .group) s (.node e) s'
  | array {room s read comma s'} : s.current.kind = .leftBracket →
      Reads (room - 1) (.items .rightBracket "`]`" [] false) s.advance (.items read comma) s' →
      Reads (room + 1) (.rule .array) s (.node (.make .array s.current.position .absent read)) s'
  | badArray {room s e s'} : s.current.kind = .leftBracket →
      Reads (room - 1) (.items .rightBracket "`]`" [] false) s.advance (.node e) s' →
      Reads (room + 1) (.rule .array) s (.node e) s'
  | block {room s read last m} : s.current.kind = .leftBrace →
      Reads (room - 1) (.sequence .rightBrace []) s.advance (.sequence read last) m →
      m.current.kind = .rightBrace →
      Reads (room + 1) (.rule .block) s
        (.node (.make .block s.current.position (last.elim .absent .node) read)) m.advance
  | openBlock {room s read last m} : s.current.kind = .leftBrace →
      Reads (room - 1) (.sequence .rightBrace []) s.advance (.sequence read last) m →
      m.current.kind ≠ .rightBrace →
      Reads (room + 1) (.rule .block) s (.node (m.expected "`\x7d`").1) (m.expected "`\x7d`").2
  | badCondition {room s c s'} : s.current.kind = .kwIf →
      Reads room (.rule .expression) s.advance (.node c) s' → c.isError = true →
      Reads (room + 1) (.rule .conditional) s (.node c) s'
  | noBlock {room s c m} : s.current.kind = .kwIf →
      Reads room (.rule .expression) s.advance (.node c) m → c.isError = false →
      m.current.kind ≠ .leftBrace →
      Reads (room + 1) (.rule .conditional) s
        (.node (m.expected "`\x7b` after `if` condition").1)
        (m.expected "`\x7b` after `if` condition").2
  | badBlock {room s c m t s'} : s.current.kind = .kwIf →
      Reads room (.rule .expression) s.advance (.node c) m → c.isError = false →
      m.current.kind = .leftBrace → Reads room (.rule .block) m (.node t) s' → t.isError = true →
      Reads (room + 1) (.rule .conditional) s (.node t) s'
  | ifThen {room s c m t s'} : s.current.kind = .kwIf →
      Reads room (.rule .expression) s.advance (.node c) m → c.isError = false →
      m.current.kind = .leftBrace → Reads room (.rule .block) m (.node t) s' → t.isError = false →
      s'.current.kind ≠ .kwElse →
      Reads (room + 1) (.rule .conditional) s
        (.node (.make .conditional s.current.position .absent [c, t])) s'
  | noBranch {room s c m t m'} : s.current.kind = .kwIf →
      Reads room (.rule .expression) s.advance (.node c) m → c.isError = false →
      m.current.kind = .leftBrace → Reads room (.rule .block) m (.node t) m' → t.isError = false →
      m'.current.kind = .kwElse → branch? m'.advance.current.kind = none →
      Reads (room + 1) (.rule .conditional) s
        (.node (m'.advance.expected "`\x7b` or `if` after `else`").1)
        (m'.advance.expected "`\x7b` or `if` after `else`").2
  | badBranch {room s c m t m' rule e s'} : s.current.kind = .kwIf →
      Reads room (.rule .expression) s.advance (.node c) m → c.isError = false →
      m.current.kind = .leftBrace → Reads room (.rule .block) m (.node t) m' → t.isError = false →
      m'.current.kind = .kwElse → branch? m'.advance.current.kind = some rule →
      Reads room (.rule rule) m'.advance (.node e) s' → e.isError = true →
      Reads (room + 1) (.rule .conditional) s (.node e) s'
  | ifThenElse {room s c m t m' rule e s'} : s.current.kind = .kwIf →
      Reads room (.rule .expression) s.advance (.node c) m → c.isError = false →
      m.current.kind = .leftBrace → Reads room (.rule .block) m (.node t) m' → t.isError = false →
      m'.current.kind = .kwElse → branch? m'.advance.current.kind = some rule →
      Reads room (.rule rule) m'.advance (.node e) s' → e.isError = false →
      Reads (room + 1) (.rule .conditional) s
        (.node { Node.make .conditional s.current.position .absent [c, t] with
          elseBranch := [e] }) s'
  -- Items
  | itemsEnd {room closing glyph read comma s} : s.current.kind = closing →
      Reads room (.items closing glyph read comma) s (.items read comma) s.advance
  | badItem {room closing glyph read comma s n s'} : s.current.kind ≠ closing →
      Reads room (.rule .expression) s (.node n) s' → n.isError = true →
      Reads room (.items closing glyph read comma) s (.node n) s'
  | item {room closing glyph read comma s n m y s'} : s.current.kind ≠ closing →
      Reads room (.rule .expression) s (.node n) m → n.isError = false →
      m.current.kind = .comma →
      Reads room (.items closing glyph (read ++ [n]) true) m.advance y s' →
      Reads room (.items closing glyph read comma) s y s'
  | lastItem {room closing glyph read comma s n m} : s.current.kind ≠ closing →
      Reads room (.rule .expression) s (.node n) m → n.isError = false →
      m.current.kind ≠ .comma → m.current.kind = closing →
      Reads room (.items closing glyph read comma) s (.items (read ++ [n]) comma) m.advance
  | openItems {room closing glyph read comma s n m} : s.current.kind ≠ closing →
      Reads room (.rule .expression) s (.node n) m → n.isError = false →
      m.current.kind ≠ .comma → m.current.kind ≠ closing →
      Reads room (.items closing glyph read comma) s (.node (m.expected glyph).1)
        (m.expected glyph).2
  -- Sequences of statements
  | sequenceEnd {room closing read s} : [closing, .eof].contains s.current.kind = true →
      Reads room (.sequence closing read) s (.sequence read none) s
  | separator {room closing read s y s'} : [closing, .eof].contains s.current.kind = false →
      s.current.kind = .semicolon → Reads room (.sequence closing read) s.advance y s' →
      Reads room (.sequence closing read) s y s'
  | terminated {room closing read s n m y s'} :
      [closing, .eof].contains s.current.kind = false → s.current.kind ≠ .semicolon →
      Reads room (.rule .statement) s (.node n) m →
      (moveOn s.consumed m).current.kind = .semicolon →
      Reads room (.sequence closing (read ++ [n])) (moveOn s.consumed m).advance y s' →
      Reads room (.sequence closing read) s y s'
  | trailing {room closing read s n m} :
      [closing, .eof].contains s.current.kind = false → s.current.kind ≠ .semicolon →
      Reads room (.rule .statement) s (.node n) m →
      (moveOn s.consumed m).current.kind ≠ .semicolon →
      (moveOn s.consumed m).current.kind = closing →
      Reads room (.sequence closing read) s (.sequence read (some n)) (moveOn s.consumed m)
  | recovered {room closing read s n m y s'} :
      [closing, .eof].contains s.current.kind = false → s.current.kind ≠ .semicolon →
      Reads room (.rule .statement) s (.node n) m →
      (moveOn s.consumed m).current.kind ≠ .semicolon →
      (moveOn s.consumed m).current.kind ≠ closing → n.isError = true →
      Reads room (.sequence closing (read ++ [n])) ((moveOn s.consumed m).synchronize closing 0)
        y s' →
      Reads room (.sequence closing read) s y s'
  | unterminated {room closing read s n m y s'} :
      [closing, .eof].contains s.current.kind = false → s.current.kind ≠ .semicolon →
      Reads room (.rule .statement) s (.node n) m →
      (moveOn s.consumed m).current.kind ≠ .semicolon →
      (moveOn s.consumed m).current.kind ≠ closing → n.isError = false → n.isBlockLike = true →
      Reads room (.sequence closing (read ++ [n])) (moveOn s.consumed m) y s' →
      Reads room (.sequence closing read) s y s'
  | unseparated {room closing read s n m y s'} :
      [closing, .eof].contains s.current.kind = false → s.current.kind ≠ .semicolon →
      Reads room (.rule .statement) s (.node n) m →
      (moveOn s.consumed m).current.kind ≠ .semicolon →
      (moveOn s.consumed m).current.kind ≠ closing → n.isError = false → n.isBlockLike = false →
      Reads room (.sequence closing (read ++ [n, ((moveOn s.consumed m).expected "`;`").1]))
        ((moveOn s.consumed m).expected "`;`").2 y s' →
      Reads room (.sequence closing read) s y s'

end Scriptlet.Grammar
