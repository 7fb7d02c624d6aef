/-!
# Positions in a source text

A position counts characters from zero and lines and columns from one. Only a
line feed starts a new line. A position is found in two ways: by stepping over
the characters one at a time (`after`), or by counting the line feeds of the
whole text (`endOf`).
-/

namespace Scriptlet

structure Position where
  index : Int := 0
  line : Int := 1
  column : Int := 1
deriving DecidableEq, Repr, Inhabited

namespace Position

/-- The position one character further on. -/
def advance (p : Position) (c : Char) : Position :=
  if c = '\n' then ⟨p.index + 1, p.line + 1, 1⟩ else ⟨p.index + 1, p.line, p.column + 1⟩

/-- The position after a run of characters. -/
def after (p : Position) (cs : List Char) : Position := cs.foldl advance p

/-- The position just past the last character of a text, from its line feeds. -/
def endOf (text : List Char) : Position :=
  ⟨text.length, text.count '\n' + 1, (text.reverse.takeWhile (· ≠ '\n')).length + 1⟩

/-- One line of text for reports, such as `Position(4, 1, 5)`. -/
def describe (p : Position) : String := s!"Position({p.index}, {p.line}, {p.column})"

@[simp] theorem after_nil (p : Position) : p.after [] = p := rfl

@[simp] theorem after_cons (p : Position) (c : Char) (cs : List Char) :
    p.after (c :: cs) = (p.advance c).after cs := rfl

theorem after_append (p : Position) (cs ds : List Char) :
    p.after (cs ++ ds) = (p.after cs).after ds := by
  simp [after]

end Position

end Scriptlet
