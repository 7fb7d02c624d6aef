import Scriptlet.Source.Position

/-!
# Tokens

The kinds of tokens, the spellings of keywords and operators, and tokens with
their place in the text. A kind outside the language can be named too: such a
token is read by no rule of the grammar.
-/

namespace Scriptlet

inductive Token.Kind where
  | identifier
  | integer
  | float
  | string
  | error
  | eof
  | kwLet
  | kwMut
  | kwFn
  | kwReturn
  | kwIf
  | kwElse
  | kwAnd
  | kwOr
  | kwNot
  | kwIn
  | kwTrue
  | kwFalse
  | assign
  | equal
  | plus
  | plusAssign
  | minus
  | minusAssign
  | times
  | timesAssign
  | divide
  | divideAssign
  | bang
  | notEqual
  | leftParen
  | rightParen
  | leftBrace
  | rightBrace
  | leftBracket
  | rightBracket
  | comma
  | semicolon
  | other (name : String)
deriving DecidableEq, Repr, Inhabited

namespace Token.Kind

/-- The name of a kind in token listings. -/
def name : Token.Kind → String
  | identifier => "IDENT"
  | integer => "INTEGER"
  | float => "FLOAT"
  | string => "STRING"
  | error => "ERROR"
  | eof => "EOF"
  | kwLet => "LET"
  | kwMut => "MUT"
  | kwFn => "FN"
  | kwReturn => "RETURN"
  | kwIf => "IF"
  | kwElse => "ELSE"
  | kwAnd => "AND"
  | kwOr => "OR"
  | kwNot => "NOT"
  | kwIn => "IN"
  | kwTrue => "TRUE"
  | kwFalse => "FALSE"
  | assign => "ASSIGN"
  | equal => "EQ"
  | plus => "PLUS"
  | plusAssign => "PLUS_ASSIGN"
  | minus => "SUB"
  | minusAssign => "SUB_ASSIGN"
  | times => "MULT"
  | timesAssign => "MULT_ASSIGN"
  | divide => "DIV"
  | divideAssign => "DIV_ASSIGN"
  | bang => "BANG"
  | notEqual => "NE"
  | leftParen => "LPAREN"
  | rightParen => "RPAREN"
  | leftBrace => "LBRACE"
  | rightBrace => "RBRACE"
  | leftBracket => "LBRACK"
  | rightBracket => "RBRACK"
  | comma => "COMMA"
  | semicolon => "SEMICOLON"
  | other n => n

/-- Every kind of the language. -/
def all : List Token.Kind := [
  identifier, integer, float, string, error, eof, kwLet, kwMut, kwFn, kwReturn, kwIf, kwElse, kwAnd,
  kwOr, kwNot, kwIn, kwTrue, kwFalse, assign, equal, plus, plusAssign, minus, minusAssign, times,
  timesAssign, divide, divideAssign, bang, notEqual, leftParen, rightParen, leftBrace, rightBrace,
  leftBracket, rightBracket, comma, semicolon]

/-- The kind of a given name. -/
def ofName (n : String) : Token.Kind := (all.find? fun k => k.name = n).getD (other n)

end Token.Kind

namespace Token

/-- The reserved words. -/
def keywords : List (String × Kind) := [
  ("let", .kwLet), ("mut", .kwMut), ("fn", .kwFn), ("return", .kwReturn), ("if", .kwIf),
  ("else", .kwElse), ("and", .kwAnd), ("or", .kwOr), ("not", .kwNot), ("in", .kwIn),
  ("true", .kwTrue), ("false", .kwFalse)]

/-- The glyphs of operators and punctuation, of one or two characters. -/
def operators : List (List Char × Kind) := [
  (['='], .assign), (['=', '='], .equal), (['+'], .plus), (['+', '='], .plusAssign),
  (['-'], .minus), (['-', '='], .minusAssign), (['*'], .times), (['*', '='], .timesAssign),
  (['/'], .divide), (['/', '='], .divideAssign), (['!'], .bang), (['!', '='], .notEqual),
  (['('], .leftParen), ([')'], .rightParen), (['\x7b'], .leftBrace), (['\x7d'], .rightBrace),
  (['['], .leftBracket), ([']'], .rightBracket), ([','], .comma), ([';'], .semicolon)]

/-- The kind of a word: a reserved word or an identifier. -/
def wordKind (word : String) : Kind := (keywords.lookup word).getD .identifier

end Token

/-- A stretch of the text, as read by the lexer or made by hand. -/
structure Token where
  kind : Token.Kind
  lexeme : String
  position : Position
  length : Int
deriving DecidableEq, Repr

namespace Token

/-- The end of the input at a given position. -/
def endAt (p : Position) : Token := ⟨.eof, "", p, 0⟩

/-- The characters from `start` to before `stop`, as far as the text has them. A
negative offset counts from the end of the text. -/
def slice (text : List Char) (start stop : Int) : List Char :=
  let place (i : Int) : Nat := (if i < 0 then i + text.length else i).toNat
  (text.drop (place start)).take (place stop - place start)

/-- The stretch of the text that the token claims to span. -/
def span (t : Token) (text : List Char) : List Char :=
  slice text t.position.index (t.position.index + t.length)

/-- One line of text for reports, such as `Token(IDENT, x)`. -/
def describe (t : Token) : String := s!"Token({t.kind.name}, {t.lexeme})"

end Token

end Scriptlet
