import Scriptlet.Proofs.Grammar.Extension

/-!
# Where texts end

A list of tokens is read as part of a text, and what comes behind the last token lies at the end
of that. The parser knows the place, but only complaints mention it. So what is read from a list
without faults is read from it in any text.
-/

namespace Scriptlet

open Scriptlet.Parser Scriptlet.Grammar

theorem Supply.pull_ending (p q : Position) (supply : Supply) :
    supply.pull q =
      (if (supply.pull p).1.kind = .eof then .endAt q else (supply.pull p).1,
        (supply.pull p).2) := by
  cases supply with
  | lexer lx =>
    by_cases hk : lx.next.1.kind = .eof <;> simp [Supply.pull, hk, Token.endAt]
  | tokens ts =>
    cases ts with
    | nil => rfl
    | cons t ts => by_cases hk : t.kind = .eof <;> simp [Supply.pull, hk, Token.endAt]

namespace Parser.State

variable {s : State} {p : Position}

/-- The state in a text that ends elsewhere. -/
def endingAt (p : Position) (s : State) : State :=
  { s with ending := p, current := if s.current.kind = .eof then .endAt p else s.current }

theorem endingAt_ofSupply (supply : Supply) (text text' : List Char) :
    (State.ofSupply supply text).endingAt (.endOf text') = .ofSupply supply text' := by
  rw [endingAt, ofSupply, ofSupply, Supply.pull_ending (.endOf text) (.endOf text') supply]

theorem endingAt_current (hk : s.current.kind ≠ .eof) : (s.endingAt p).current = s.current :=
  if_neg hk

theorem endingAt_kind (p : Position) (s : State) :
    (s.endingAt p).current.kind = s.current.kind := by
  by_cases hk : s.current.kind = .eof
  · rw [endingAt, if_pos hk, hk]
    rfl
  · rw [endingAt_current hk]

theorem endingAt_advance (p : Position) (s : State) :
    s.advance.endingAt p = (s.endingAt p).advance := by
  by_cases hk : s.current.kind = .eof
  · rw [State.advance, if_pos hk, State.advance, endingAt_kind, if_pos hk]
  · rw [State.advance, if_neg hk, State.advance, endingAt_kind, if_neg hk]
    simp only [endingAt, Supply.pull_ending s.ending p s.supply]

end Parser.State

namespace Grammar

variable {room : Nat} {task : Task} {s s' : State} {y : Yield}

/-- A parser that records nothing does not notice where the text ends. -/
theorem unnoticed_endingAt (hfaults : Faultless s s') (p : Position) :
    Unnoticed (State.endingAt p) s s' where
  kind m := State.endingAt_kind p m
  current hk := State.endingAt_current hk
  consumed _ _ := Iff.rfl
  advance _ _ := State.endingAt_advance p _
  fault _ _ h h' := absurd hfaults (not_faultless_of_fault h h')

/-- What is read without faults is read in any text. -/
theorem Reads.endingAt (h : Reads room task s y s') (hfaults : Faultless s s') (p : Position) :
    Reads room task (s.endingAt p) y (s'.endingAt p) :=
  h.carry (unnoticed_endingAt hfaults p) (.refl s) (.refl s')

end Grammar

end Scriptlet
