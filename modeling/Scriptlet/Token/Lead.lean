import Scriptlet.Token.Lexer

/-!
# A lexer in front of its text

A lexer may be placed at a negative index. It sees nothing there, neither blanks
nor the start of a word, and yet it has characters to take: negative places count
from the end of the text, so that the last characters, the lead, come before the
first. Where the index reaches back further than the text is long, there is no
lead and nothing can be taken. From index zero on the lexer is like any other.

A step gives `none` where it cannot take a character.
-/

namespace Scriptlet.Lexer

/-- The complaint about a place that lies too far in front. -/
def noLead : String := "string index out of range"

def isInFront (lx : Lexer) : Bool := lx.cursor.position.index < 0

/-- The characters that come before the text. -/
def lead? (lx : Lexer) : Option (List Char) :=
  let text := lx.cursor.text
  let places := (-lx.cursor.position.index).toNat
  if places ≤ text.length then some (text.drop (text.length - places)) else none

/-- Moves over `n` characters of the lead and of the text behind it. -/
def skipLead (lx : Lexer) (lead : List Char) (n : Nat) : Lexer :=
  let text := lx.cursor.text
  let position := lx.cursor.position.after ((lead ++ text).take n)
  { lx with cursor := ⟨text, text.drop (n - lead.length), position⟩ }

/-- Takes what was scanned, though the lexeme is the stretch of the text that the token
claims to span. -/
def takeLead (lx : Lexer) (lead : List Char) (piece : Scan.Piece) : Token × Lexer :=
  let start := lx.cursor.position
  let span := Token.slice lx.cursor.text start.index (start.index + piece.length)
  let token : Token := ⟨piece.kind, String.ofList span, start, piece.length⟩
  let moved := lx.skipLead lead piece.length
  match piece.fault with
  | none => (token, moved)
  | some fault => (token, moved.record fault start)

/-- A character taken unseen. -/
def advanceLead (lx : Lexer) : Option (Char × Lexer) := do
  let lead ← lx.lead?
  return (← lead.head?, lx.skipLead lead 1)

/-- A character that is not seen belongs to no token. -/
def nextLead (lx : Lexer) : Option (Token × Lexer) := do
  let lead ← lx.lead?
  return lx.takeLead lead ⟨.error, 1, some (.invalidCharacter (← lead.head?))⟩

/-- Nothing that is not seen ends the line. -/
def skipLineLead (lx : Lexer) : Option Lexer := do
  let lead ← lx.lead?
  return lx.skipLead lead (lead.length + Scan.lineLength lx.cursor.text)

/-- Nothing that is not seen ends the comment. -/
def skipCommentLead (lx : Lexer) : Option Lexer := do
  let lead ← lx.lead?
  let text := lx.cursor.text
  let opening := max 2 lead.length
  match Scan.commentLength? (text.drop (opening - lead.length)) with
  | some n => return lx.skipLead lead (opening + n)
  | none =>
    let moved := lx.skipLead lead (lead.length + text.length)
    return moved.record .unterminatedComment lx.cursor.position

/-- A string is read by taking characters, whether or not they are seen. -/
def takeStringLead (lx : Lexer) : Option (Token × Lexer) := do
  let lead ← lx.lead?
  return lx.takeLead lead (Scan.string (lead ++ lx.cursor.text))

/-- A word or a number that is not seen is empty. -/
def emptyLead (lx : Lexer) (kind : Token.Kind) : Token := ⟨kind, "", lx.cursor.position, 0⟩

end Scriptlet.Lexer
