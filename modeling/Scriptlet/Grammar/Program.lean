import Scriptlet.Grammar.Rule
import Scriptlet.Tree.Describe
import Scriptlet.Tree.Traversal

/-!
# Reading programs

A program is a sequence of statements up to the end of the text. Reading always
succeeds: what could not be read is an error node in the tree, and the result
lists the diagnostics of the lexer and of the parser by position.
-/

namespace Scriptlet

namespace Grammar

/-- How many rules may be active at once. -/
def nestingLimit : Nat := 980

open Scriptlet.Parser

/-- A list of statements up to `closing`, in a given amount of room. -/
def statements (room : Nat) (closing : Token.Kind) : Parser (List Node × Option Node) :=
  match room with
  | 0 => tooDeep
  | room + 1 => sequence (parse room .statement) closing

/-- The statements of a whole text. When there is no room for them, one error node
takes the place of all. -/
def program (room : Nat) : StateM State (List Node) := do
  match ← (statements (room - 1) .eof).run with
  | .ok (complete, last) => return complete ++ last.toList
  | .error _ => return [← modifyGet State.giveUp]

/-- One expression that makes up the whole text. -/
def soleExpression (room : Nat) : StateM State Node := do
  match ← (parse (room - 1) .expression).run with
  | .error _ => modifyGet State.giveUp
  | .ok node =>
    if (← get).current.kind = .eof || node.isError then return node
    else modifyGet (State.expected "end of input")

end Grammar

/-- What was read from a text. -/
structure Reading where
  statements : List Node
  diagnostics : List Diagnostic

namespace Reading

def ok (r : Reading) : Bool := r.diagnostics.isEmpty

def describe (r : Reading) : String :=
  let statements := Text.commaSeparated (r.statements.map Node.describe)
  let errors := Text.commaSeparated (r.diagnostics.map Diagnostic.describe)
  s!"ParseResult(statements=[{statements}], errors=[{errors}])"

/-- Reads a program from a supply of tokens taken from `text`. -/
def ofSupply (supply : Supply) (text : List Char) : Reading :=
  let (statements, s) := (Grammar.program Grammar.nestingLimit).run (.ofSupply supply text)
  ⟨statements, Diagnostic.ordered (s.supply.diagnostics ++ s.diagnostics)⟩

/-- Reads a program, taking tokens from the text when they are needed. -/
def ofText (text : List Char) : Reading := ofSupply (.lexer (Lexer.ofText text)) text

/-- Reads a program from a list of tokens. -/
def ofTokens (tokens : List Token) (text : List Char) : Reading := ofSupply (.tokens tokens) text

/-- The complaint about the first token of a list that should hold a number and holds
none. The tokens of a text all hold what they should. -/
def refusal? (tokens : List Token) (text : List Char) : Option String :=
  let (_, s) := (Grammar.program Grammar.nestingLimit).run (.ofSupply (.tokens tokens) text)
  (s.diagnostics.map Diagnostic.message).find? Decimal.deniesNumber

end Reading

/-- Reads one expression; also gives the state in which the parser ended. -/
def readExpression (text : List Char) : Node × Parser.State :=
  (Grammar.soleExpression Grammar.nestingLimit).run (.ofSupply (.lexer (Lexer.ofText text)) text)

end Scriptlet
