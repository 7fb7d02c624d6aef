import Scriptlet.Proofs.Grammar.Layout
import Scriptlet.Proofs.Grammar.Syntax
import Scriptlet.Proofs.Session.Placed

/-!
# Layout does not matter

The position of a node shows in nothing but the errors that are reported there. Evaluations
of trees that differ only in positions come to the same value, or to errors with the same
message, and leave the same session. Together with what is known about reading, texts of the
same words mean the same, whatever lies between the words.
-/

namespace Scriptlet

/-- The result of a program, but for the position of an error. -/
def Result.unplaced : Result → Result
  | .error d => .error (d.place fun _ => {})
  | r => r

theorem Result.unplaced_eq_place (r : Result) : r.unplaced = r.place fun _ => {} := by
  cases r <;> rfl

/-- Programs are evaluated to the same result, and leave the same session, if they differ in no
more than their positions. -/
theorem Session.evaluate_unplaced {ts us : List Term}
    (hts : Node.containsErrors (Term.toNodes ts) = false)
    (hus : Node.containsErrors (Term.toNodes us) = false)
    (h : (Term.toNodes ts).map Node.unplaced = (Term.toNodes us).map Node.unplaced) (s : Session) :
    (s.evaluate (Term.toNodes ts)).1.unplaced = (s.evaluate (Term.toNodes us)).1.unplaced ∧
      (s.evaluate (Term.toNodes ts)).2 = (s.evaluate (Term.toNodes us)).2 := by
  have hplaced {vs : List Term} (hvs : Node.containsErrors (Term.toNodes vs) = false) :
      s.evaluate ((Term.toNodes vs).map Node.unplaced) =
        ((s.evaluate (Term.toNodes vs)).1.unplaced, (s.evaluate (Term.toNodes vs)).2) := by
    have heq := evaluate_place hvs (fun _ => {}) "" s
    rw [behind_empty, behind_empty] at heq
    rw [Result.unplaced_eq_place, ← heq]
    exact congrArg s.evaluate (List.map_congr_left fun n _ => n.unplaced_eq_place)
  have hleft := hplaced hts
  rw [h, hplaced hus, Prod.mk.injEq] at hleft
  exact ⟨hleft.1.symm, hleft.2.symm⟩

/-- Texts of the same words mean the same, whatever blanks, comments and line breaks stand
between the words: they are read as the same statements, up to positions, with the same
complaints in the same order, and programs without complaints come to the same value, or to
errors with the same message, from the same session to the same session. -/
theorem layout_does_not_matter {text₁ text₂ : List Char}
    (h : (lex text₁).1.map Token.word = (lex text₂).1.map Token.word) :
    (Reading.ofText text₁).statements.map Node.unplaced =
        (Reading.ofText text₂).statements.map Node.unplaced ∧
      ((Reading.ofText text₁).diagnostics.filter (·.phase = .parser)).map Diagnostic.message =
        ((Reading.ofText text₂).diagnostics.filter (·.phase = .parser)).map Diagnostic.message ∧
      ((Reading.ofText text₁).ok = true → (Reading.ofText text₂).ok = true → ∀ s : Session,
        (s.evaluate (Reading.ofText text₁).statements).1.unplaced =
            (s.evaluate (Reading.ofText text₂).statements).1.unplaced ∧
          (s.evaluate (Reading.ofText text₁).statements).2 =
            (s.evaluate (Reading.ofText text₂).statements).2) := by
  obtain ⟨hstatements, hmessages⟩ := Reading.ofText_words h
  refine ⟨hstatements, hmessages, fun hok₁ hok₂ s => ?_⟩
  have hclean₁ := Reading.containsErrors_of_ok hok₁
  have hclean₂ := Reading.containsErrors_of_ok hok₂
  obtain ⟨ts, hts⟩ := Reading.terms_of_text hclean₁
  obtain ⟨us, hus⟩ := Reading.terms_of_text hclean₂
  rw [← hts] at hclean₁ hstatements ⊢
  rw [← hus] at hclean₂ hstatements ⊢
  exact Session.evaluate_unplaced hclean₁ hclean₂ hstatements s

/-- A program on one line, and with a comment, a line break and tabs. -/
theorem layout_of_sum_does_not_matter :
    let text₁ := "let x=-1;x+(2)".toList
    let text₂ := "let x /* two\n lines */ = - 1\n\t; x + ( 2 )".toList
    (lex text₁).1.map Token.word = (lex text₂).1.map Token.word ∧
      (Reading.ofText text₁).ok = true ∧ (Reading.ofText text₂).ok = true ∧
      (Session.withBuiltins.evaluate (Reading.ofText text₁).statements).1.unplaced =
        (Session.withBuiltins.evaluate (Reading.ofText text₂).statements).1.unplaced := by
  intro text₁ text₂
  have hwords : (lex text₁).1.map Token.word = (lex text₂).1.map Token.word := by decide +kernel
  have hok₁ : (Reading.ofText text₁).ok = true := by decide +kernel
  have hok₂ : (Reading.ofText text₂).ok = true := by decide +kernel
  exact ⟨hwords, hok₁, hok₂, ((layout_does_not_matter hwords).2.2 hok₁ hok₂ .withBuiltins).1⟩

end Scriptlet
