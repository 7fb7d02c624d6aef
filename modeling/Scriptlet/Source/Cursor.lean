import Scriptlet.Source.Position

/-!
# Cursors over a source text

A cursor is a place in a text together with the characters still to come. The
position need not be the one that counting from the front would give: a cursor
may be placed anywhere, and then goes on counting from there.
-/

namespace Scriptlet

/-- The failure of stepping past the last character. -/
structure PastEnd where
  position : Position
deriving DecidableEq, Repr

def PastEnd.message (e : PastEnd) : String :=
  "CharacterStreamError: Attempted to read past end of source at " ++
    s!"position=<{e.position.index}>, line=<{e.position.line}>"

structure Cursor where
  text : List Char
  rest : List Char
  position : Position
deriving Repr

namespace Cursor

def ofText (text : List Char) : Cursor := ⟨text, text, {}⟩

/-- A cursor placed at `p`, which may lie beyond the end of the text. -/
def placedAt (text : List Char) (p : Position) : Cursor := ⟨text, text.drop p.index.toNat, p⟩

def atEnd (c : Cursor) : Bool := c.rest.isEmpty

/-- The character `offset` places from here, counted backwards when negative. -/
def peek (c : Cursor) (offset : Int) : Option Char :=
  if c.position.index + offset < 0 then none else c.text[(c.position.index + offset).toNat]?

/-- Moves over the next `n` characters, or to the end if fewer remain. -/
def skip (c : Cursor) (n : Nat) : Cursor :=
  { c with rest := c.rest.drop n, position := c.position.after (c.rest.take n) }

/-- Takes the next character. -/
def advance (c : Cursor) : Except PastEnd (Char × Cursor) :=
  match c.rest with
  | [] => .error ⟨c.position⟩
  | ch :: _ => .ok (ch, c.skip 1)

@[simp] theorem skip_rest (c : Cursor) (n : Nat) : (c.skip n).rest = c.rest.drop n := rfl

@[simp] theorem skip_text (c : Cursor) (n : Nat) : (c.skip n).text = c.text := rfl

@[simp] theorem skip_position (c : Cursor) (n : Nat) :
    (c.skip n).position = c.position.after (c.rest.take n) := rfl

theorem skip_skip (c : Cursor) (m n : Nat) : (c.skip m).skip n = c.skip (m + n) := by
  simp [skip, List.drop_drop, List.take_add, Position.after_append]

end Cursor

end Scriptlet
