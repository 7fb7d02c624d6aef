import Scriptlet.Decimal.Reading
import Scriptlet.Token.Lexer
import Scriptlet.Tree.Node

/-!
# Parsers

A parser works on a supply of tokens, one of which it has always taken out ahead.
The supply is a lexer, from which tokens are taken only when they are needed, or
a list. Faults of syntax are recorded and do not stop a parser; only running out
of room for nested rules does, and what was read and recorded before stays.
-/

namespace Scriptlet

/-- What can be wrong with the syntax of a program. -/
inductive SyntaxFault where
  | expected (what got : String)
  | invalidTarget
  | integerOutOfRange (lexeme : String)
  | floatOutOfRange (lexeme : String)
  | notInteger (text : String)
  | notFloat (text : String)
  | functionDeclaration
  | invalidToken (lexeme : String)
  | nestedTooDeeply
deriving DecidableEq, Repr

def SyntaxFault.message : SyntaxFault → String
  | expected what got => s!"expected {what}, got {got}"
  | invalidTarget => "invalid assignment target"
  | integerOutOfRange lexeme => s!"integer literal {lexeme} is out of range"
  | floatOutOfRange lexeme => s!"float literal {lexeme} is out of range"
  | notInteger text => Decimal.notInteger text
  | notFloat text => Decimal.notFloat text
  | functionDeclaration => "function declarations are not supported"
  | invalidToken lexeme => s!"invalid token `{lexeme}`"
  | nestedTooDeeply => Scriptlet.nestedTooDeeply

/-- A token as messages show it. -/
def Token.shown (t : Token) : String :=
  if t.kind = .eof then "end of input" else s!"`{t.lexeme}`"

/-- Where tokens come from. -/
inductive Supply where
  | lexer (lx : Lexer)
  | tokens (ts : List Token)

namespace Supply

/-- Takes the next token. An end token, or the end of the list, counts as the end
of the text, which lies at `ending`. -/
def pull (ending : Position) : Supply → Token × Supply
  | lexer lx =>
    let (t, lx) := lx.next
    (if t.kind = .eof then .endAt ending else t, lexer lx)
  | tokens [] => (.endAt ending, tokens [])
  | tokens (t :: ts) => (if t.kind = .eof then .endAt ending else t, tokens ts)

/-- No more tokens than this remain. -/
def bound : Supply → Nat
  | lexer lx => lx.cursor.rest.length
  | tokens ts => ts.length

/-- The lexical diagnostics so far. -/
def diagnostics : Supply → List Diagnostic
  | lexer lx => lx.diagnostics
  | tokens _ => []

/-- Taking a token from the supply lowers the bound, unless it was the end. -/
theorem pull_bound (ending : Position) (supply : Supply) :
    (supply.pull ending).2.bound + (if (supply.pull ending).1.kind = .eof then 0 else 1) ≤
      supply.bound := by
  cases supply with
  | lexer lx =>
    by_cases h : lx.next.1.kind = .eof
    · simpa [pull, bound, h, Token.endAt] using Lexer.next_rest_le lx
    · have := Lexer.next_shorter lx h
      simp only [pull, bound, h, if_false]
      omega
  | tokens ts =>
    cases ts with
    | nil => simp [pull, bound, Token.endAt]
    | cons t ts =>
      by_cases h : t.kind = .eof <;> simp [pull, bound, h, Token.endAt]

end Supply

structure Parser.State where
  supply : Supply
  current : Token
  consumed : Nat
  diagnostics : List Diagnostic
  ending : Position

namespace Parser.State

/-- The start: nothing is consumed, and the first token is taken out. -/
def ofSupply (supply : Supply) (text : List Char) : State :=
  let ending := Position.endOf text
  let (current, supply) := supply.pull ending
  { supply, current, consumed := 0, diagnostics := [], ending }

/-- No more tokens than this can be consumed. -/
def remaining (s : State) : Nat := s.supply.bound + if s.current.kind = .eof then 0 else 1

/-- Consumes the current token, unless that is the end. -/
def advance (s : State) : State :=
  if s.current.kind = .eof then s
  else
    let (current, supply) := s.supply.pull s.ending
    { s with supply, current, consumed := s.consumed + 1 }

def record (s : State) (d : Diagnostic) : State := { s with diagnostics := s.diagnostics ++ [d] }

/-- Consuming a token leaves fewer. -/
theorem remaining_advance (s : State) (h : s.current.kind ≠ .eof) :
    s.advance.remaining < s.remaining := by
  have := s.supply.pull_bound s.ending
  simp only [advance, remaining, if_neg h]
  omega

/-- Consumes everything up to the end. -/
def drain (s : State) : State :=
  if _h : s.current.kind = .eof then s else s.advance.drain
termination_by s.remaining
decreasing_by exact remaining_advance s _h

/-- Skips to the next semicolon or `closing` that lies outside of the braces opened
on the way, of which `depth` are open. -/
def synchronize (closing : Token.Kind) (depth : Nat) (s : State) : State :=
  if _h : s.current.kind = .eof then s
  else if depth = 0 && [.semicolon, closing].contains s.current.kind then s
  else
    match s.current.kind with
    | .leftBrace => s.advance.synchronize closing (depth + 1)
    | .rightBrace => s.advance.synchronize closing (depth - 1)
    | _ => s.advance.synchronize closing depth
termination_by s.remaining
decreasing_by all_goals exact remaining_advance s _h

/-- An error node with its diagnostic. -/
def complain (message : String) (position : Position) (s : State) : Node × State :=
  (.ofError message position, s.record ⟨.parser, message, position⟩)

def fault (f : SyntaxFault) (position : Position) (s : State) : Node × State :=
  s.complain f.message position

/-- Complains that the current token is not `what`. -/
def expected (what : String) (s : State) : Node × State :=
  s.fault (.expected what s.current.shown) s.current.position

/-- Gives up on a text that is nested too deeply: complains where it was being
read, and goes on to the end. -/
def giveUp (s : State) : Node × State :=
  let (node, s) := s.fault .nestedTooDeeply s.current.position
  (node, s.drain)

end Parser.State

/-- Why a parser fails: there is no room for a further nested rule, or a loop has used up the
rounds that it is given. No rule of the grammar comes to the second one. -/
inductive Parser.Failure where
  | tooDeep
  | endless
deriving DecidableEq, Repr

abbrev Parser : Type → Type := ExceptT Parser.Failure (StateM Parser.State)

namespace Parser

def tooDeep {α : Type} : Parser α := throw .tooDeep

def endless {α : Type} : Parser α := throw .endless

def current : Parser Token := return (← get).current

def currentKind : Parser Token.Kind := return (← get).current.kind

/-- Consumes the current token and gives it. -/
def advance : Parser Token := do
  let s ← get
  set s.advance
  return s.current

def check (kinds : List Token.Kind) : Parser Bool := return kinds.contains (← currentKind)

/-- Consumes the current token if it is of one of the kinds. -/
def accept (kinds : List Token.Kind) : Parser (Option Token) := do
  if ← check kinds then return some (← advance) else return none

/-- Consumes the current token if it is of the kind, and tells whether it was. -/
def acceptKind (kind : Token.Kind) : Parser Bool := return (← accept [kind]).isSome

def complain (message : String) (position : Position) : Parser Node :=
  modifyGet (State.complain message position)

def fault (f : SyntaxFault) (position : Position) : Parser Node :=
  modifyGet (State.fault f position)

def expected (what : String) : Parser Node := modifyGet (State.expected what)

/-- Repeats a step, at most `n` times, until it gives a result on the right. -/
def iterateUpTo {α β : Type} (step : α → Parser (α ⊕ β)) : Nat → α → Parser β
  | 0, _ => endless
  | n + 1, a => do
    match ← step a with
    | .inl a => iterateUpTo step n a
    | .inr b => return b

/-- Repeats a step until it gives a result on the right. Every step that does not
is to consume a token, so the tokens that remain bound the repetitions. -/
def iterate {α β : Type} (step : α → Parser (α ⊕ β)) (a : α) : Parser β := do
  iterateUpTo step ((← get).remaining + 1) a

/-- Skips what an error has spoilt. -/
def synchronize (closing : Token.Kind) : Parser Unit := modify (State.synchronize closing 0)

end Parser

end Scriptlet
