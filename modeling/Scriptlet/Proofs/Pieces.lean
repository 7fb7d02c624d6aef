import Scriptlet.Proofs.Grammar.Pieces
import Scriptlet.Proofs.Showing

/-!
# Programs run in pieces

A program that is cut behind a semicolon on a line of its own may be run in two pieces, one after
the other in one session, as at a prompt. The tokens, the trees and the statements come one
after the other anyway. What goes over the cut is the session, and what does not is the text that
the first piece printed, which stands in front of all that the second one prints.
-/

namespace Scriptlet

open Program (unlisted evaluated)

/-- Does the program run to its end, without an error and without `return`? -/
def Program.Completes (s : Session) (text : List Char) : Prop :=
  ∃ v m, (Eval.statements evaluationLimit none (Reading.ofText text).statements).outcome
    { s with printed := "" } = (.ok v, m)

instance (s : Session) (text : List Char) : Decidable (Program.Completes s text) :=
  match h : (Eval.statements evaluationLimit none (Reading.ofText text).statements).outcome
      { s with printed := "" } with
  | (.ok v, m) => isTrue ⟨v, m, h⟩
  | (.error i, m) => isFalse fun ⟨v, m', hok⟩ => by simp [h] at hok

/-- Only where there are no statements does it show what came before them. -/
theorem Eval.statements_of_ne_nil {ns : List Node} (h : ns ≠ []) (room : Nat)
    (last : Option Value) : statements room last ns = statements room none ns := by
  cases ns with
  | nil => exact absurd rfl h
  | cons n ns => rfl

/-- A program that completes, with statements behind it that are placed anew. -/
theorem Session.evaluate_append {xs : List Node} {ts : List Term} {s m : Session}
    {v : Option Value} {g : Position → Position}
    (hclean : Node.containsErrors (xs ++ (Term.toNodes ts).map (Node.place g)) = false)
    (hcompletes : (Eval.statements evaluationLimit none xs).outcome s = (.ok v, m)) :
    let later := ({ m with printed := "" } : Session).evaluate (Term.toNodes ts)
    s.evaluate (xs ++ (Term.toNodes ts).map (Node.place g)) =
      (if Term.toNodes ts = [] then .value v else later.1.place g,
        later.2.behind m.printed) := by
  intro later
  obtain ⟨-, hplaced⟩ : Node.containsErrors xs = false ∧
      Node.containsErrors ((Term.toNodes ts).map (Node.place g)) = false := by
    simpa only [Node.containsErrors_append, Bool.or_eq_false_iff] using hclean
  have hlater : Node.containsErrors (Term.toNodes ts) = false := by
    rwa [Node.containsErrors_place] at hplaced
  have hboth : s.evaluate (xs ++ (Term.toNodes ts).map (Node.place g)) =
      (.ofOutcome ((Eval.statements evaluationLimit v
        ((Term.toNodes ts).map (Node.place g))).outcome m).1,
      ((Eval.statements evaluationLimit v ((Term.toNodes ts).map (Node.place g))).outcome m).2) := by
    rw [evaluate_eq hclean, Eval.outcome_statements_append, hcompletes]
  by_cases hnone : Term.toNodes ts = []
  · have hunchanged : later = (.value none, { m with printed := "" }) := by
      simp only [later, hnone]
      rfl
    rw [hboth, if_pos hnone, hunchanged, behind_printed, hnone]
    rfl
  · have hsome : (Term.toNodes ts).map (Node.place g) ≠ [] := by simpa using hnone
    rw [hboth, Eval.statements_of_ne_nil hsome, ← evaluate_eq hplaced, if_neg hnone,
      ← evaluate_place hlater, behind_printed]

/-- How a run ends does not depend on where its errors lie. -/
theorem Program.ending_finish_place (g : Position → Position) (listing earlier : String)
    (evaluated : Result × Session) :
    (finish listing (evaluated.1.place g, evaluated.2.behind earlier)).ending =
      (finish listing evaluated).ending := by
  obtain ⟨(none | v) | d | f | _, m⟩ := evaluated
  case value.some =>
    simp only [Result.place, finish]
    split <;> rfl
  all_goals rfl

/-- A program that completes may be cut behind a semicolon on a line of its own. What comes
behind it is then read as it is without it, only further down, and run in the session that it
leaves: it binds and prints the same and has the same value, or the same error, further down. -/
theorem run_in_pieces {front rest : List Char}
    (hfirst : (Reading.ofText (front ++ ['\n', ';'])).ok = true)
    (hrest : (Reading.ofText rest).ok = true) :
    let first := front ++ ['\n', ';']
    let whole := first ++ '\n' :: rest
    (Reading.ofText whole).ok = true ∧
      ∀ s : Session, Program.Completes s first →
        let between := (Program.run unlisted s first).session
        let g := Position.below (first ++ ['\n'])
        (Program.run unlisted s whole).session = (Program.run unlisted between rest).session ∧
        (evaluated s whole).2.printed =
          (evaluated s first).2.printed ++ (evaluated between rest).2.printed ∧
        ((Reading.ofText rest).statements ≠ [] →
          (evaluated s whole).1 = (evaluated between rest).1.place g ∧
          (Program.run unlisted s whole).ending = (Program.run unlisted between rest).ending) := by
  intro first whole
  obtain ⟨hwhole, hstatements⟩ := Reading.ofText_lines hfirst hrest
  refine ⟨hwhole, fun s ⟨v, m, hcompletes⟩ => ?_⟩
  intro between g
  obtain ⟨ts, hts⟩ := Reading.terms_of_text (Reading.containsErrors_of_ok hrest)
  have hclean := Reading.containsErrors_of_ok hwhole
  rw [hstatements, ← hts] at hclean
  have hone : evaluated s first = (.value v, m) := by
    rw [evaluated, Session.evaluate_eq (Reading.containsErrors_of_ok hfirst), hcompletes]
    rfl
  have hbetween : between = { m with printed := "" } := by
    simp only [between]
    rw [Program.run_of_ok hfirst, Program.session_finish, hone]
  have hlater : evaluated between rest =
      ({ m with printed := "" } : Session).evaluate (Term.toNodes ts) := by
    rw [evaluated, hbetween, hts]
  have hall : evaluated s whole =
      (if Term.toNodes ts = [] then .value v else (evaluated between rest).1.place g,
        (evaluated between rest).2.behind m.printed) := by
    rw [hlater, evaluated, hstatements, ← hts]
    exact Session.evaluate_append hclean hcompletes
  refine ⟨?_, ?_, fun hsome => ?_⟩
  · rw [Program.run_of_ok hwhole, Program.run_of_ok hrest, Program.session_finish,
      Program.session_finish, hall]
    rfl
  · rw [hall, hone]
    rfl
  · rw [← hts] at hsome
    rw [if_neg hsome] at hall
    refine ⟨congrArg Prod.fst hall, ?_⟩
    rw [Program.run_of_ok hwhole, Program.run_of_ok hrest, hall, Program.ending_finish_place]

/-- A first piece that binds and prints, and a second one that goes wrong on its second line. -/
theorem run_of_sum_in_pieces :
    let s := Session.withBuiltins.afterRuns ["let mut x = [1]".toList, "{ x = 1; y }".toList]
    let first := "let y = x + x; print(y)\n;".toList
    let rest := "print(x); x = 2;\ny + x".toList
    let between := (Program.run unlisted s first).session
    Program.Completes s first ∧
      (Program.run unlisted s (first ++ '\n' :: rest)).session =
        (Program.run unlisted between rest).session ∧
      (evaluated s (first ++ '\n' :: rest)).1 =
        (evaluated between rest).1.place (.below (first ++ ['\n'])) := by
  intro s first rest between
  have hcompletes : Program.Completes s first := by decide +kernel
  have hcut : first = "let y = x + x; print(y)".toList ++ ['\n', ';'] := by decide
  have hfirst : (Reading.ofText ("let y = x + x; print(y)".toList ++ ['\n', ';'])).ok = true := by
    decide +kernel
  have hrest : (Reading.ofText rest).ok = true := by decide +kernel
  obtain ⟨-, hruns⟩ := run_in_pieces hfirst hrest
  rw [← hcut] at hruns
  obtain ⟨hsession, -, hresult⟩ := hruns s hcompletes
  exact ⟨hcompletes, hsession, (hresult (by decide +kernel)).1⟩

end Scriptlet
