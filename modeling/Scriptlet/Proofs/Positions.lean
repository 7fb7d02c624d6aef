import Scriptlet.Proofs.Grammar.Layout
import Scriptlet.Proofs.Grammar.Order
import Scriptlet.Proofs.Programs
import Scriptlet.Proofs.Session.Placed
import Scriptlet.Proofs.Token.Placement

/-!
# Where trees and runtime errors lie

The trees of a text that is read without diagnostics lie at its tokens, in the order of the text.
So do the errors of their evaluation, whatever was evaluated before.
-/

namespace Scriptlet

open Node (Precedes preorderOfAll)

/-- The statements are spread over the tokens of the text. -/
theorem Reading.spread_of_ok {text : List Char} (h : (ofText text).ok = true) :
    Language.Spread (lex text).1 (ofText text).statements := by
  obtain ⟨read, last, s', hreads, hstatements, hclean⟩ := reads_of_ok h
  obtain ⟨ns, l, heq, hbody⟩ := hreads.program hclean
  rw [hstatements, heq]
  exact hbody.spread (Lexer.ascending_lex text).sorted

/-- The position is one inside the text, with the line and the column that it has there. -/
def Position.Inside (text : List Char) (p : Position) : Prop :=
  p.index < text.length ∧ p.Counted text

theorem Lexer.inside_of_token {text : List Char} {t : Token} (ht : t ∈ (lex text).1) :
    t.position.Inside text :=
  ⟨((ascending_lex text).inside t ht).2, (placed_ofText text).tokens.1 t ht⟩

/-- All nodes of a program that is read without diagnostics lie at tokens of its text. No node
lies behind one of its parts, and the statements and the parts of each node lie one behind the
other. In every session, an error of the program lies inside the text, at one of its nodes. -/
theorem positions_point_into_text {text : List Char} (h : (Reading.ofText text).ok = true) :
    let statements := (Reading.ofText text).statements
    (∀ n ∈ preorderOfAll statements,
      (∃ t ∈ (lex text).1, n.position = t.position) ∧
      (∀ m ∈ n.parts, n.position.index ≤ m.position.index) ∧
      n.partsInText.Pairwise Precedes) ∧
    statements.Pairwise Precedes ∧
    ∀ (s : Session) (d : Diagnostic), (s.evaluate statements).1 = .error d →
      d.position.Inside text ∧ ∃ n ∈ preorderOfAll statements, d.position = n.position := by
  intro statements
  have hspread := Reading.spread_of_ok h
  have hposition := Node.forall_preorderOfAll.mpr hspread.position
  have hordered := Node.forall_preorderOfAll.mpr hspread.ordered
  refine ⟨fun n hn => ⟨hposition n hn, (hordered n hn).le, (hordered n hn).parts⟩,
    hspread.sorted, fun s d hd => ?_⟩
  have hclean := Reading.containsErrors_of_ok h
  obtain ⟨ts, hts⟩ := Reading.terms_of_text hclean
  have hnode : ∃ n ∈ preorderOfAll statements, d.position = n.position := by
    simp only [statements, ← hts] at hd hclean ⊢
    exact Session.error_at_node hclean hd
  obtain ⟨n, hn, heq⟩ := hnode
  obtain ⟨t, ht, htoken⟩ := hposition n hn
  refine ⟨?_, n, hn, heq⟩
  rw [heq, htoken]
  exact Lexer.inside_of_token ht

instance Result.decidableError (r : Result) (d : Diagnostic) : Decidable (r = .error d) :=
  match r with
  | .error e => decidable_of_iff (e = d) (by simp)
  | .value _ => isFalse (by simp)
  | .fault _ => isFalse (by simp)
  | .tooDeep => isFalse (by simp)

/-- A program over two lines that goes wrong in a block, in a session in which another program
bound the name. -/
theorem positions_of_block_point_into_text :
    let text := "let z = (1);\nif true { y; z + y } else { z }".toList
    let s := Session.withBuiltins.afterTexts ["let y = [2]".toList]
    let statements := (Reading.ofText text).statements
    let d : Diagnostic := ⟨.runtime, "no implementation exists for integer + array", ⟨26, 2, 14⟩⟩
    (s.evaluate statements).1 = .error d ∧
      d.position.Inside text ∧ ∃ n ∈ preorderOfAll statements, d.position = n.position := by
  intro text s statements d
  have herror : (s.evaluate statements).1 = .error d := by decide +kernel
  obtain ⟨-, -, herrors⟩ := @positions_point_into_text text (by decide +kernel)
  exact ⟨herror, herrors s d herror⟩

end Scriptlet
