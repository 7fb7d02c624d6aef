import Scriptlet.Decimal.Numeral
import Scriptlet.Text.Character
import Scriptlet.Text.Quoted
import Scriptlet.Token

/-!
# Scanning

What stands at the front of a list of characters: a gap of blanks and comments,
or a token. The functions give lengths, so that the scanned characters and those
that follow always make up the whole list.
-/

namespace Scriptlet

/-- What can be wrong with a stretch of text. -/
inductive LexicalFault where
  | unterminatedString
  | malformedNumber
  | invalidCharacter (c : Char)
  | unterminatedComment
deriving DecidableEq, Repr

def LexicalFault.message : LexicalFault → String
  | unterminatedString => "unterminated string literal"
  | malformedNumber => "malformed number literal"
  | invalidCharacter c => "invalid character " ++ Text.quoted (String.singleton c)
  | unterminatedComment => "unterminated block comment"

namespace Scan

def isWordStart (c : Char) : Bool := c.isAlpha || c = '_'

def isWordPart (c : Char) : Bool := isWordStart c || Decimal.isDigit c

/-- The stretch of characters before the end of the line. -/
def lineLength (s : List Char) : Nat := (s.takeWhile (· ≠ '\n')).length

/-- How far it is to behind the first end of a block comment. -/
def commentLength? : List Char → Option Nat
  | [] => none
  | c :: rest =>
    if c = '*' ∧ rest.head? = some '/' then some 2 else (commentLength? rest).map (· + 1)

/-- A gap between tokens, and where in it a block comment starts that never ends. -/
structure Gap where
  length : Nat
  unclosed : Option Nat
deriving DecidableEq, Repr

/-- The same gap with `n` characters in front. -/
def Gap.behind (n : Nat) (g : Gap) : Gap := ⟨n + g.length, g.unclosed.map (n + ·)⟩

/-- The blanks and comments at the front. -/
def gap (s : List Char) : Gap :=
  match s with
  | [] => ⟨0, none⟩
  | c :: rest =>
    if Text.isGap c then (gap rest).behind 1
    else if c = '/' ∧ rest.head? = some '/' then
      (gap (rest.drop (lineLength rest))).behind (lineLength rest + 1)
    else if c = '/' ∧ rest.head? = some '*' then
      match commentLength? (rest.drop 1) with
      | some n => (gap (rest.drop (n + 1))).behind (n + 2)
      | none => ⟨rest.length + 1, some 0⟩
    else ⟨0, none⟩
termination_by s.length
decreasing_by all_goals (simp only [List.length_cons, List.length_drop]; omega)

/-- The kind and the length of what was scanned, and what is wrong with it. -/
structure Piece where
  kind : Token.Kind
  length : Nat
  fault : Option LexicalFault
deriving DecidableEq, Repr

/-- The longest word; reserved words have kinds of their own. -/
def word (s : List Char) : Piece :=
  let w := s.takeWhile isWordPart
  ⟨Token.wordKind (String.ofList w), w.length, none⟩

/-- Digits with at most one point among or behind them. A second point ends the
number and spoils it. -/
def number (s : List Char) : Piece :=
  let whole := (s.takeWhile Decimal.isDigit).length
  match s.drop whole with
  | '.' :: rest =>
    let fraction := (rest.takeWhile Decimal.isDigit).length
    if (rest.drop fraction).head? = some '.' then
      ⟨.error, whole + fraction + 2, some .malformedNumber⟩
    else ⟨.float, whole + fraction + 1, none⟩
  | _ => ⟨.integer, whole, none⟩

/-- How far it is to behind the closing quote; a backslash hides the character
after it. -/
def closingQuote? : List Char → Option Nat
  | [] => none
  | c :: rest =>
    if c = '"' then some 1
    else if c = '\\' then
      match rest with
      | [] => none
      | _ :: rest => (closingQuote? rest).map (· + 2)
    else (closingQuote? rest).map (· + 1)

/-- A string literal; the first character is taken for its opening quote. -/
def string (s : List Char) : Piece :=
  match closingQuote? (s.drop 1) with
  | some n => ⟨.string, n + 1, none⟩
  | none => ⟨.error, s.length, some .unterminatedString⟩

/-- The longest operator at the front. -/
def operator? (s : List Char) : Option Piece :=
  match Token.operators.lookup (s.take 2) with
  | some kind => some ⟨kind, (s.take 2).length, none⟩
  | none => (Token.operators.lookup (s.take 1)).map fun kind => ⟨kind, 1, none⟩

/-- The token at the front of a text that starts with `c`. -/
def token (c : Char) (s : List Char) : Piece :=
  if isWordStart c then word s
  else if Decimal.isDigit c then number s
  else if c = '"' then string s
  else (operator? s).getD ⟨.error, 1, some (.invalidCharacter c)⟩

end Scan

end Scriptlet
