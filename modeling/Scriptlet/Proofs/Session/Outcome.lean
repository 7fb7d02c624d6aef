import Scriptlet.Proofs.Outcome
import Scriptlet.Session.Statements

/-!
# What evaluations come to

What is particular to evaluations and to the statements and programs made of them.
-/

namespace Scriptlet

namespace Eval

open ExceptT (outcome_bind outcome_get_bind outcome_tryCatch)

variable {α : Type}

@[simp] theorem outcome_inScope (x : Eval α) (s : Session) :
    (inScope x).outcome s = ((x.outcome s.enter).1, (x.outcome s.enter).2.leave) := rfl

/-- Going through a list is evaluating its first part and then the rest. -/
theorem mapM_cons (f : Node → Eval Value) (n : Node) (ns : List Node) :
    (n :: ns).mapM f = (do return (← f n) :: (← ns.mapM f)) := List.mapM_cons

theorem forM_cons (f : Node → Eval Unit) (n : Node) (ns : List Node) :
    (n :: ns).forM f = (do f n; ns.forM f) := rfl

/-- A statement catches nothing but a lack of room. -/
theorem outcome_statement (room : Nat) (n : Node) (s : Session) :
    (statement room n).outcome s =
      match (eval room n).outcome s with
      | (.error .tooDeep, m) =>
        (.error (.error ⟨.runtime, RuntimeError.nestedTooDeeply.message, n.position⟩),
          m.unwindTo s.depth)
      | result => result := by
  rw [statement, outcome_get_bind, outcome_tryCatch]
  rcases (eval room n).outcome s with ⟨i | v, m⟩
  · cases i <;> rfl
  · rfl

theorem outcome_statements_cons (room : Nat) (last : Option Value) (n : Node) (ns : List Node)
    (s : Session) :
    (statements room last (n :: ns)).outcome s =
      match (statement room n).outcome s with
      | (.ok v, m) => (statements room (some v) ns).outcome m
      | (.error i, m) => (.error i, m) := by
  rw [statements, outcome_bind]
  rcases (statement room n).outcome s with ⟨i | v, m⟩ <;> rfl

/-- Statements in two lists are evaluated one list after the other. -/
theorem outcome_statements_append (room : Nat) (last : Option Value) (xs ys : List Node)
    (s : Session) :
    (statements room last (xs ++ ys)).outcome s =
      match (statements room last xs).outcome s with
      | (.ok v, m) => (statements room v ys).outcome m
      | (.error i, m) => (.error i, m) := by
  induction xs generalizing last s with
  | nil => rfl
  | cons n xs ih =>
    rw [List.cons_append, outcome_statements_cons, outcome_statements_cons]
    rcases (statement room n).outcome s with ⟨i | v, m⟩
    · rfl
    · exact ih (some v) m

end Eval

def Result.ofOutcome : Except Interrupt (Option Value) → Result
  | .ok v => .value v
  | .error i => .ofInterrupt i

/-- A tree without error nodes is evaluated. -/
theorem Session.evaluate_eq {ns : List Node} (h : Node.containsErrors ns = false) (s : Session) :
    s.evaluate ns =
      (.ofOutcome ((Eval.statements evaluationLimit none ns).outcome s).1,
        ((Eval.statements evaluationLimit none ns).outcome s).2) := by
  have hrun : s.evaluate ns =
      match (Eval.statements evaluationLimit none ns).outcome s with
      | (.ok v, s) => (.value v, s)
      | (.error i, s) => (Result.ofInterrupt i, s) := by
    rw [evaluate, h]
    rfl
  rw [hrun]
  rcases (Eval.statements evaluationLimit none ns).outcome s with ⟨i | v, m⟩ <;> rfl

namespace Session

/-- A session in which nothing was evaluated yet. -/
def Fresh (s : Session) : Prop := s = .empty ∨ s = .withBuiltins

/-- The session after one program and then the next, however each of them ends. -/
def afterPrograms (s : Session) (programs : List (List Node)) : Session :=
  programs.foldl (fun s ns => (s.evaluate ns).2) s

theorem afterPrograms_append (s : Session) (earlier later : List (List Node)) :
    s.afterPrograms (earlier ++ later) = (s.afterPrograms earlier).afterPrograms later :=
  List.foldl_append

end Session

/-- What holds of an evaluation without any room, and is passed on by the rules from the
evaluations that they call, holds of evaluation in any room. -/
theorem eval_invariant {P : (Node → Eval Value) → Prop} (hnone : P fun _ => Eval.tooDeep)
    (hrule : ∀ room call within, P call → P within → P (Eval.rule room call within))
    (room : Nat) : P (eval room) := by
  induction room using Nat.strongRecOn with
  | ind room ih =>
    match room with
    | 0 => exact hnone
    | 1 => exact hnone
    | 2 => exact hrule 0 _ _ hnone hnone
    | room + 3 => exact hrule (room + 1) _ _ (ih (room + 1) (by omega)) (ih room (by omega))

end Scriptlet
