import Scriptlet.Diagnostic
import Scriptlet.Source.Cursor
import Scriptlet.Token.Scan

/-!
# The lexer

A lexer is a cursor with the diagnostics found so far. `next` skips a gap and
takes one token; at the end of the text it gives an end token, every time. A
malformed stretch is an error token with one diagnostic. Each token takes at
least one character (`next_shorter`), so that a text has finitely many.
-/

namespace Scriptlet

structure Lexer where
  cursor : Cursor
  diagnostics : List Diagnostic
deriving Repr

namespace Lexer

def ofText (text : List Char) : Lexer := ⟨Cursor.ofText text, []⟩

def record (lx : Lexer) (fault : LexicalFault) (p : Position) : Lexer :=
  { lx with diagnostics := lx.diagnostics ++ [⟨.lexer, fault.message, p⟩] }

def skip (lx : Lexer) (n : Nat) : Lexer := { lx with cursor := lx.cursor.skip n }

/-- Takes what was scanned as a token, with its fault if it has one. -/
def take (lx : Lexer) (piece : Scan.Piece) : Token × Lexer :=
  let start := lx.cursor.position
  let lexeme := lx.cursor.rest.take piece.length
  let token : Token := ⟨piece.kind, String.ofList lexeme, start, lexeme.length⟩
  let moved := lx.skip piece.length
  match piece.fault with
  | none => (token, moved)
  | some fault => (token, moved.record fault start)

/-- Skips the blanks and comments that come next. -/
def skipGap (lx : Lexer) : Lexer :=
  let gap := Scan.gap lx.cursor.rest
  let moved := lx.skip gap.length
  match gap.unclosed with
  | none => moved
  | some n => moved.record .unterminatedComment (lx.cursor.skip n).position

/-- The token that starts here, or the end token at the end of the text. -/
def takeToken (lx : Lexer) : Token × Lexer :=
  match lx.cursor.rest with
  | [] => (.endAt lx.cursor.position, lx)
  | c :: rest => lx.take (Scan.token c (c :: rest))

/-- The next token, or the end token when only a gap remains. -/
def next (lx : Lexer) : Token × Lexer := lx.skipGap.takeToken

-- Single steps. Each assumes that what it reads is what comes next, and takes
-- its first characters without looking at them.

def advance (lx : Lexer) : Except PastEnd (Char × Lexer) := do
  let (c, cursor) ← lx.cursor.advance
  return (c, { lx with cursor })

def skipLine (lx : Lexer) : Lexer := lx.skip (Scan.lineLength lx.cursor.rest)

/-- Skips a block comment. Fails where fewer than two characters are left, having
moved to the end. -/
def skipComment (lx : Lexer) : Except PastEnd Unit × Lexer :=
  if lx.cursor.rest.length < 2 then
    (.error ⟨(lx.skip 1).cursor.position⟩, lx.skip 1)
  else
    match Scan.commentLength? (lx.cursor.rest.drop 2) with
    | some n => (.ok (), lx.skip (n + 2))
    | none =>
      (.ok (), (lx.skip lx.cursor.rest.length).record .unterminatedComment lx.cursor.position)

def takeOperator (lx : Lexer) : Option Token × Lexer :=
  match Scan.operator? lx.cursor.rest with
  | none => (none, lx)
  | some piece => let (t, lx) := lx.take piece; (some t, lx)

def takeWord (lx : Lexer) : Token × Lexer := lx.take (Scan.word lx.cursor.rest)

def takeNumber (lx : Lexer) : Token × Lexer := lx.take (Scan.number lx.cursor.rest)

def takeString (lx : Lexer) : Except PastEnd Token × Lexer :=
  match lx.cursor.rest with
  | [] => (.error ⟨lx.cursor.position⟩, lx)
  | s => let (t, lx) := lx.take (Scan.string s); (.ok t, lx)

-- Every token takes a character.

theorem word_length_pos {c : Char} (s : List Char) (h : Scan.isWordStart c = true) :
    0 < (Scan.word (c :: s)).length := by
  simp [Scan.word, Scan.isWordPart, h]

theorem number_length_pos {c : Char} (s : List Char) (h : Decimal.isDigit c = true) :
    0 < (Scan.number (c :: s)).length := by
  unfold Scan.number
  simp only [List.takeWhile_cons, h, if_true, List.length_cons]
  split
  · split <;> simp
  · simp

theorem string_length_pos (c : Char) (s : List Char) : 0 < (Scan.string (c :: s)).length := by
  unfold Scan.string
  split <;> simp

theorem operator_length_pos {c : Char} {s : List Char} {p : Scan.Piece}
    (h : Scan.operator? (c :: s) = some p) : 0 < p.length := by
  unfold Scan.operator? at h
  split at h
  · cases h; simp
  · simp only [Option.map_eq_some_iff] at h
    obtain ⟨kind, _, rfl⟩ := h
    simp

theorem token_length_pos (c : Char) (s : List Char) : 0 < (Scan.token c (c :: s)).length := by
  unfold Scan.token
  split
  · exact word_length_pos s ‹_›
  · split
    · exact number_length_pos s ‹_›
    · split
      · exact string_length_pos c s
      · cases h : Scan.operator? (c :: s) with
        | none => simp
        | some p => exact operator_length_pos h

@[simp] theorem record_cursor (lx : Lexer) (fault : LexicalFault) (p : Position) :
    (lx.record fault p).cursor = lx.cursor := rfl

@[simp] theorem skip_cursor (lx : Lexer) (n : Nat) : (lx.skip n).cursor = lx.cursor.skip n := rfl

@[simp] theorem take_rest (lx : Lexer) (piece : Scan.Piece) :
    (lx.take piece).2.cursor.rest = lx.cursor.rest.drop piece.length := by
  unfold take
  cases piece.fault <;> rfl

@[simp] theorem skipGap_rest (lx : Lexer) :
    lx.skipGap.cursor.rest = lx.cursor.rest.drop (Scan.gap lx.cursor.rest).length := by
  unfold skipGap
  dsimp only
  split <;> simp

theorem take_kind (lx : Lexer) (piece : Scan.Piece) : (lx.take piece).1.kind = piece.kind := by
  unfold take
  cases piece.fault <;> rfl

theorem takeToken_shorter (lx : Lexer) (h : lx.takeToken.1.kind ≠ .eof) :
    lx.takeToken.2.cursor.rest.length < lx.cursor.rest.length := by
  unfold takeToken at h ⊢
  split
  · next hr => simp [hr, Token.endAt] at h
  · next c rest hr =>
    have hpos := token_length_pos c rest
    simp only [take_rest, hr, List.length_drop, List.length_cons]
    omega

/-- A token other than the end token shortens what remains. -/
theorem next_shorter (lx : Lexer) (h : lx.next.1.kind ≠ .eof) :
    lx.next.2.cursor.rest.length < lx.cursor.rest.length := by
  have hlt := takeToken_shorter lx.skipGap h
  simp only [skipGap_rest, List.length_drop] at hlt
  simp only [next]
  omega

theorem next_rest_le (lx : Lexer) :
    lx.next.2.cursor.rest.length ≤ lx.cursor.rest.length := by
  unfold next takeToken
  split <;> simp

/-- All tokens up to the end, and the lexer after them. -/
def tokens (lx : Lexer) : List Token × Lexer :=
  let step := lx.next
  if _h : step.1.kind = .eof then ([], step.2)
  else
    let more := step.2.tokens
    (step.1 :: more.1, more.2)
termination_by lx.cursor.rest.length
decreasing_by exact next_shorter lx _h

end Lexer

/-- The tokens of a text, without the end token, and the lexer after them. -/
def lex (text : List Char) : List Token × Lexer := (Lexer.ofText text).tokens

end Scriptlet
