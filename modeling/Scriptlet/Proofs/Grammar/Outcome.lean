import Scriptlet.Grammar.Rule
import Scriptlet.Proofs.Outcome

/-!
# What parsers give

`Gives p s a s'` says that the parser `p`, started in the state `s`, gives `a` and
ends in `s'`; a parser that fails gives nothing. A parser that begins
with a look at the current token, or with its consumption, is opened by one
equation for each such beginning; a call of a further rule by `gives_bind`.
-/

namespace Scriptlet.Parser

open ExceptT (outcome_bind)

variable {α β : Type}

def Gives (p : Parser α) (s : State) (a : α) (s' : State) : Prop := p.outcome s = (.ok a, s')

theorem exists_gives {p : Parser α} {s : State} (h : (p.outcome s).1.isOk = true) :
    ∃ a s', p.Gives s a s' := by
  rcases hr : p.outcome s with ⟨a | a, s'⟩
  · rw [hr] at h
    cases h
  · exact ⟨a, s', hr⟩

theorem gives_pure (a b : α) (s s' : State) :
    (pure a : Parser α).Gives s b s' ↔ a = b ∧ s = s' := by
  change (Except.ok a, s) = (Except.ok b, s') ↔ _
  simp

theorem gives_bind (p : Parser α) (f : α → Parser β) (s s' : State) (b : β) :
    (p >>= f).Gives s b s' ↔ ∃ a m, p.Gives s a m ∧ (f a).Gives m b s' := by
  simp only [Gives, outcome_bind]
  rcases p.outcome s with ⟨r, m⟩
  cases r <;> simp [and_assoc]

theorem not_gives_throw (e : Failure) (a : α) (s s' : State) :
    ¬ (throw e : Parser α).Gives s a s' := by
  change ¬ (Except.error e, s) = (Except.ok a, s')
  simp

theorem gives_fault (f : SyntaxFault) (p : Position) (s s' : State) (n : Node) :
    (fault f p).Gives s n s' ↔ (s.fault f p).1 = n ∧ (s.fault f p).2 = s' := by
  change (Except.ok (s.fault f p).1, (s.fault f p).2) = (Except.ok n, s') ↔ _
  simp

theorem gives_expected (what : String) (s s' : State) (n : Node) :
    (expected what).Gives s n s' ↔ (s.expected what).1 = n ∧ (s.expected what).2 = s' := by
  change (Except.ok (s.expected what).1, (s.expected what).2) = (Except.ok n, s') ↔ _
  simp

section Beginnings

variable {s s' : State} {b : β}

theorem outcome_bind_of_ok {p : Parser α} {f : α → Parser β} {a : α} {m : State}
    (h : p.outcome s = (.ok a, m)) : (p >>= f).outcome s = (f a).outcome m := by
  rw [outcome_bind, h]

theorem gives_bind_of_outcome {p : Parser α} {f : α → Parser β} {a : α} {m : State}
    (h : p.outcome s = (.ok a, m)) : (p >>= f).Gives s b s' ↔ (f a).Gives m b s' := by
  rw [Gives, Gives, outcome_bind_of_ok h]

theorem gives_get_bind (f : State → Parser β) :
    (get >>= f).Gives s b s' ↔ (f s).Gives s b s' :=
  gives_bind_of_outcome rfl

theorem gives_current_bind (f : Token → Parser β) :
    (current >>= f).Gives s b s' ↔ (f s.current).Gives s b s' :=
  gives_bind_of_outcome rfl

theorem gives_currentKind_bind (f : Token.Kind → Parser β) :
    (currentKind >>= f).Gives s b s' ↔ (f s.current.kind).Gives s b s' :=
  gives_bind_of_outcome rfl

theorem gives_advance_bind (f : Token → Parser β) :
    (advance >>= f).Gives s b s' ↔ (f s.current).Gives s.advance b s' :=
  gives_bind_of_outcome rfl

theorem gives_discard_bind (f : Unit → Parser β) :
    (discard advance >>= f).Gives s b s' ↔ (f ()).Gives s.advance b s' :=
  gives_bind_of_outcome rfl

theorem gives_check_bind (kinds : List Token.Kind) (f : Bool → Parser β) :
    (check kinds >>= f).Gives s b s' ↔ (f (kinds.contains s.current.kind)).Gives s b s' :=
  gives_bind_of_outcome rfl

theorem gives_synchronize_bind (closing : Token.Kind) (f : Unit → Parser β) :
    (synchronize closing >>= f).Gives s b s' ↔ (f ()).Gives (s.synchronize closing 0) b s' :=
  gives_bind_of_outcome rfl

/-- Consumes the current token if it is of the kind. -/
def State.skip (kind : Token.Kind) (s : State) : State :=
  if s.current.kind = kind then s.advance else s

theorem outcome_checkKind (kind : Token.Kind) (s : State) :
    (check [kind]).outcome s = (.ok (decide (s.current.kind = kind)), s) := by
  change (Except.ok ([kind].contains s.current.kind), s) = _
  simp

theorem gives_checkKind_bind (kind : Token.Kind) (f : Bool → Parser β) :
    (check [kind] >>= f).Gives s b s' ↔ (f (decide (s.current.kind = kind))).Gives s b s' :=
  gives_bind_of_outcome (outcome_checkKind kind s)

theorem outcome_accept (kind : Token.Kind) (s : State) :
    (accept [kind]).outcome s =
      (.ok (if s.current.kind = kind then some s.current else none), s.skip kind) := by
  rw [accept, outcome_bind, outcome_checkKind]
  by_cases h : s.current.kind = kind
  · simp only [h, decide_true, if_true, State.skip]
    rfl
  · simp only [h, decide_false, if_false, State.skip]
    rfl

theorem gives_accept_bind (kind : Token.Kind) (f : Option Token → Parser β) :
    (accept [kind] >>= f).Gives s b s' ↔
      (f (if s.current.kind = kind then some s.current else none)).Gives (s.skip kind) b s' :=
  gives_bind_of_outcome (outcome_accept kind s)

theorem outcome_acceptKind (kind : Token.Kind) (s : State) :
    (acceptKind kind).outcome s = (.ok (decide (s.current.kind = kind)), s.skip kind) := by
  rw [acceptKind, outcome_bind, outcome_accept]
  by_cases h : s.current.kind = kind
  · simp only [h, if_true]
    rfl
  · simp only [h, if_false]
    rfl

theorem gives_acceptKind_bind (kind : Token.Kind) (f : Bool → Parser β) :
    (acceptKind kind >>= f).Gives s b s' ↔
      (f (decide (s.current.kind = kind))).Gives (s.skip kind) b s' :=
  gives_bind_of_outcome (outcome_acceptKind kind s)

end Beginnings

/-- A repetition that comes to its end: steps that go on, and a last one that gives
the result. -/
inductive Repeats (step : α → Parser (α ⊕ β)) : α → State → β → State → Prop where
  | stop {a b s s'} : (step a).Gives s (.inr b) s' → Repeats step a s b s'
  | again {a a' b s m s'} : (step a).Gives s (.inl a') m → Repeats step a' m b s' →
      Repeats step a s b s'

theorem repeats_of_iterateUpTo {step : α → Parser (α ⊕ β)} {n : Nat} {a : α} {s s' : State}
    {b : β} (h : (iterateUpTo step n a).Gives s b s') : Repeats step a s b s' := by
  induction n generalizing a s with
  | zero => exact (not_gives_throw _ _ _ _ h).elim
  | succ n ih =>
    obtain ⟨r, m, hr, hm⟩ := (gives_bind ..).mp h
    cases r with
    | inl a' => exact .again hr (ih hm)
    | inr b' =>
      obtain ⟨rfl, rfl⟩ := (gives_pure ..).mp hm
      exact .stop hr

theorem repeats_of_iterate {step : α → Parser (α ⊕ β)} {a : α} {s s' : State} {b : β}
    (h : (iterate step a).Gives s b s') : Repeats step a s b s' :=
  repeats_of_iterateUpTo ((gives_get_bind _).mp h)

end Scriptlet.Parser
