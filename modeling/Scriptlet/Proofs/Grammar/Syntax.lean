import Scriptlet.Proofs.Decimal.Bound
import Scriptlet.Proofs.Grammar.Faithful
import Scriptlet.Proofs.Tree.Term

/-!
# What is read without errors is the tree of a term

Every way through the rules puts trees together in the shape of a form of the
language, or gives an error node.
-/

namespace Scriptlet

open Scriptlet.Parser

namespace Grammar

theorem Leaf.proper {t : Token} {n : Node} (h : Leaf t n) : Proper n := by
  cases h with
  | integer _ hn => exact proper_toNode (.integer t.position ⟨_, integerLiteral_inRange hn⟩)
  | float => exact proper_toNode (.float t.position _)
  | string => exact proper_toNode (.string t.position _)
  | true => exact proper_toNode (.bool t.position Bool.true)
  | false => exact proper_toNode (.bool t.position Bool.false)
  | identifier => exact proper_toNode (.identifier t.position _)

theorem proper_binaryNode (op : BinaryOp) {l r : Node} (hl : AllProper [l]) (hr : AllProper [r]) :
    Proper (binaryNode op l r) :=
  proper_binary op (allProper_singleton.mp hl) (allProper_singleton.mp hr)

/-- Every way through the rules puts trees of terms, or errors, together to such trees. -/
theorem Reads.proper {room : Nat} {task : Task} {s s' : State} {y : Yield}
    (h : Reads room task s y s') (htask : AllProper task.nodes) : AllProper y.nodes := by
  induction h with
  | bindingStatement _ _ ih | returnStatement _ _ ih | expressionStatement _ _ _ ih
  | expression _ ih | unassigning _ _ ih | unprefixed _ _ ih | unapplied _ _ ih
  | chainless _ _ _ _ ih | compound _ _ ih | grouped _ _ _ ih => exact ih allProper_nil
  | chainEnd | applicationsEnd | itemsEnd => exact htask
  -- Errors, new ones and those of a part
  | unnamed | unassigned | invalidTarget | notAlone | openIndex | refused | invalidToken | missing
  | openBlock | noBlock | noBranch | openItems =>
    exact allProper_singleton.mpr (.of_isError rfl)
  | assignmentToError _ _ _ _ ih | badCall _ _ ih | badIndex _ _ _ ih | badGroup _ _ _ ih
  | badArray _ _ ih | badCondition _ _ _ ih | badBlock _ _ _ _ _ _ _ ih
  | badBranch _ _ _ _ _ _ _ _ _ _ _ _ ih | badItem _ _ _ ih => exact ih allProper_nil
  -- Terms
  | leaf hleaf => exact allProper_singleton.mpr hleaf.proper
  | unit => exact allProper_singleton.mpr (proper_toNode (.unit _))
  | binding _ _ _ _ _ ih =>
    have hvalue := allProper_singleton.mp (ih allProper_nil)
    exact allProper_singleton.mpr (proper_binding _ _ hvalue)
  | bareReturn => exact allProper_singleton.mpr (proper_giveBack (n := none) allProper_nil)
  | @returnOf _ _ n _ _ _ _ ih =>
    exact allProper_singleton.mpr (proper_giveBack (n := some n) (ih allProper_nil))
  | assignment _ _ _ _ hk ihl ihr =>
    have hl := allProper_singleton.mp (ihl allProper_nil)
    have hr := allProper_singleton.mp (ihr allProper_nil)
    exact allProper_singleton.mpr (proper_assign _ hl hk hr)
  | disjunction _ _ ihl ih | conjunction _ _ ihl ih | applied _ _ _ ihl ih =>
    exact ih (ihl allProper_nil)
  | chainLink _ _ _ ihr ih =>
    exact ih (allProper_singleton.mpr (proper_binaryNode _ htask (ihr allProper_nil)))
  | rightChain _ _ _ _ ihl ihr | notMember _ _ _ _ ihl ihr =>
    exact allProper_singleton.mpr (proper_binaryNode _ (ihl allProper_nil) (ihr allProper_nil))
  | prefixed _ _ ih =>
    have hoperand := allProper_singleton.mp (ih allProper_nil)
    exact allProper_singleton.mpr (proper_unary _ hoperand)
  | call _ _ _ ihitems ih =>
    have hcallee := allProper_singleton.mp htask
    exact ih (allProper_singleton.mpr (proper_call hcallee (ihitems allProper_nil)))
  | index _ _ _ _ _ ihi ih =>
    have hindexed := allProper_singleton.mp htask
    have hi := allProper_singleton.mp (ihi allProper_nil)
    exact ih (allProper_singleton.mpr (proper_index hindexed hi))
  | tuple _ _ _ _ ih => exact allProper_singleton.mpr (proper_tuple (ih allProper_nil))
  | array _ _ ih => exact allProper_singleton.mpr (proper_array (ih allProper_nil))
  | block _ _ _ ih =>
    obtain ⟨hread, hlast⟩ := (allProper_append _ _).mp (ih allProper_nil)
    exact allProper_singleton.mpr (proper_block hread hlast)
  | ifThen _ _ _ _ _ _ _ ihc iht =>
    have hc := allProper_singleton.mp (ihc allProper_nil)
    have ht := allProper_singleton.mp (iht allProper_nil)
    exact allProper_singleton.mpr (proper_conditional (e := none) hc ht allProper_nil)
  | @ifThenElse _ _ _ _ _ _ _ e _ _ _ _ _ _ _ _ _ _ _ ihc iht ihe =>
    have hc := allProper_singleton.mp (ihc allProper_nil)
    have ht := allProper_singleton.mp (iht allProper_nil)
    have he := ihe allProper_nil
    exact allProper_singleton.mpr (proper_conditional (e := some e) hc ht he)
  -- Loops, each behind what was read before
  | item _ _ _ _ _ ihn ih => exact ih ((allProper_append _ _).mpr ⟨htask, ihn allProper_nil⟩)
  | lastItem _ _ _ _ _ ihn => exact (allProper_append _ _).mpr ⟨htask, ihn allProper_nil⟩
  | sequenceEnd => exact (allProper_append _ _).mpr ⟨htask, allProper_nil⟩
  | separator _ _ _ ih => exact ih htask
  | terminated _ _ _ _ _ ihn ih | recovered _ _ _ _ _ _ _ ihn ih
  | unterminated _ _ _ _ _ _ _ _ ihn ih =>
    exact ih ((allProper_append _ _).mpr ⟨htask, ihn allProper_nil⟩)
  | trailing _ _ _ _ _ ihn => exact (allProper_append _ _).mpr ⟨htask, ihn allProper_nil⟩
  | unseparated _ _ _ _ _ _ _ _ ihn ih =>
    have hn := allProper_singleton.mp (ihn allProper_nil)
    refine ih ((allProper_append _ _).mpr ⟨htask, (allProper_cons _ _).mpr ⟨hn, ?_⟩⟩)
    exact allProper_singleton.mpr (.of_isError rfl)

end Grammar

namespace Reading

open Scriptlet.Grammar
open Node (containsErrors)

/-- A text that is read without error nodes is a list of terms. -/
theorem terms_of_text {text : List Char} (h : containsErrors (ofText text).statements = false) :
    ∃ ts : List Term, Term.toNodes ts = (ofText text).statements := by
  obtain ⟨read, last, s', hreads, hrun⟩ | ⟨m, hrun⟩ :=
    program_cases 978 (.ofSupply (.lexer (Lexer.ofText text)) text)
  · rw [ofText_eq hrun] at h ⊢
    rcases (hreads.proper allProper_nil).terms with herrors | hts
    · exact absurd (herrors.symm.trans h) (by decide)
    · exact hts
  · rw [ofText_eq hrun] at h
    exact absurd ((errors_of_giveUp m).1.symm.trans h) (by decide)

end Reading

end Scriptlet
