import Scriptlet.Proofs.Grammar.Exact
import Scriptlet.Proofs.Grammar.Faithful

/-!
# Room for nested rules

A text fits when its rules never nest beyond the limit. What fits is read by its one
derivation, and a derivation stands in any larger room.
-/

namespace Scriptlet

open Scriptlet.Parser

namespace Grammar

variable {room : Nat} {s s' : State}

/-- What has a derivation has only one. -/
theorem Reads.unique {closing : Token.Kind} {read read' : List Node} {last last' : Option Node}
    {m : State} (h : Reads room (.sequence closing []) s (.sequence read last) m)
    (h' : Reads room (.sequence closing []) s (.sequence read' last') s') :
    read = read' ∧ last = last' ∧ m = s' := by
  have hgives := statements_iff.mpr h
  have hgives' := statements_iff.mpr h'
  rw [Gives, hgives] at hgives'
  simp only [Prod.mk.injEq, Except.ok.injEq] at hgives'
  exact ⟨hgives'.1.1, hgives'.1.2, hgives'.2⟩

theorem Reads.unique_node {rule : Rule} {n n' : Node} {m : State}
    (h : Reads room (.rule rule) s (.node n) m) (h' : Reads room (.rule rule) s (.node n') s') :
    n = n' ∧ m = s' := by
  have hgives := serves_parse room rule s n m h
  have hgives' := serves_parse room rule s n' s' h'
  rw [Gives, hgives] at hgives'
  simpa using hgives'

section Room

variable {task : Task} {y : Yield}

/-- The room below a list of items or statements, when there is one more. -/
theorem Reads.within (h : Reads (room - 1) task s y s')
    (hmore : Reads (room - 1 + 1) task s y s') : Reads (room + 1 - 1) task s y s' := by
  cases room with
  | zero => exact h
  | succ room => exact hmore

theorem Reads.succ (h : Reads room task s y s') : Reads (room + 1) task s y s' := by
  induction h with
  -- Statements
  | bindingStatement hk _ ih => exact .bindingStatement hk ih
  | returnStatement hk _ ih => exact .returnStatement hk ih
  | expressionStatement hlet hreturn _ ih => exact .expressionStatement hlet hreturn ih
  | unnamed hk hm hname => exact .unnamed hk hm hname
  | unassigned hk hm hname hassign => exact .unassigned hk hm hname hassign
  | binding hk hm hname hassign _ ih => exact .binding hk hm hname hassign ih
  | bareReturn hk hbare => exact .bareReturn hk hbare
  | returnOf hk hbare _ ih => exact .returnOf hk hbare ih
  | expression _ ih => exact .expression ih
  -- Operators
  | unassigning _ hop ih => exact .unassigning ih hop
  | assignment _ hop _ he hkind ihl ihr => exact .assignment ihl hop ihr he hkind
  | assignmentToError _ hop _ he ihl ihr => exact .assignmentToError ihl hop ihr he
  | invalidTarget _ hop _ he hkind ihl ihr => exact .invalidTarget ihl hop ihr he hkind
  | disjunction _ _ ihl ih => exact .disjunction ihl ih
  | conjunction _ _ ihl ih => exact .conjunction ihl ih
  | chainEnd hk => exact .chainEnd hk
  | chainLink hk _ _ ihr ih => exact .chainLink hk ihr ih
  | chainless hlevel _ hop hnot ih => exact .chainless hlevel ih hop hnot
  | rightChain hlevel _ hop _ ihl ihr => exact .rightChain hlevel ihl hop ihr
  | notMember _ hnot hin _ ihl ihr => exact .notMember ihl hnot hin ihr
  | notAlone _ hnot hin ih => exact .notAlone ih hnot hin
  | unprefixed hop _ ih => exact .unprefixed hop ih
  | prefixed hop _ ih => exact .prefixed hop ih
  -- Calls and indexes
  | unapplied _ hend ih => exact .unapplied ih hend
  | applied _ hend _ ihn ih => exact .applied ihn hend ih
  | applicationsEnd hparen hbracket => exact .applicationsEnd hparen hbracket
  | call hk hitems _ ihitems ih => exact .call hk (hitems.within ihitems) ih
  | badCall hk hitems ih => exact .badCall hk (hitems.within ih)
  | index hk _ he hclose _ ihi ih => exact .index hk ihi he hclose ih
  | badIndex hk _ he ih => exact .badIndex hk ih he
  | openIndex hk _ he hopen ih => exact .openIndex hk ih he hopen
  -- Operands
  | leaf hleaf => exact .leaf hleaf
  | refused hrefused => exact .refused hrefused
  | invalidToken hk => exact .invalidToken hk
  | missing hk => exact .missing hk
  | compound hrule _ ih => exact .compound hrule ih
  | unit hk hempty => exact .unit hk hempty
  | grouped hk hempty hitems ih => exact .grouped hk hempty (hitems.within ih)
  | tuple hk hempty hitems hone ih => exact .tuple hk hempty (hitems.within ih) hone
  | badGroup hk hempty hitems ih => exact .badGroup hk hempty (hitems.within ih)
  | array hk hitems ih => exact .array hk (hitems.within ih)
  | badArray hk hitems ih => exact .badArray hk (hitems.within ih)
  | block hk hstatements hclose ih => exact .block hk (hstatements.within ih) hclose
  | openBlock hk hstatements hopen ih => exact .openBlock hk (hstatements.within ih) hopen
  | badCondition hk _ he ih => exact .badCondition hk ih he
  | noBlock hk _ he hbrace ih => exact .noBlock hk ih he hbrace
  | badBlock hk _ he hbrace _ he' ihc iht => exact .badBlock hk ihc he hbrace iht he'
  | ifThen hk _ he hbrace _ he' helse ihc iht => exact .ifThen hk ihc he hbrace iht he' helse
  | noBranch hk _ he hbrace _ he' helse hnone ihc iht =>
    exact .noBranch hk ihc he hbrace iht he' helse hnone
  | badBranch hk _ he hbrace _ he' helse hrule _ he'' ihc iht ihe =>
    exact .badBranch hk ihc he hbrace iht he' helse hrule ihe he''
  | ifThenElse hk _ he hbrace _ he' helse hrule _ he'' ihc iht ihe =>
    exact .ifThenElse hk ihc he hbrace iht he' helse hrule ihe he''
  -- Items
  | itemsEnd hk => exact .itemsEnd hk
  | badItem hk _ he ih => exact .badItem hk ih he
  | item hk _ he hcomma _ ihn ih => exact .item hk ihn he hcomma ih
  | lastItem hk _ he hcomma hclose ih => exact .lastItem hk ih he hcomma hclose
  | openItems hk _ he hcomma hopen ih => exact .openItems hk ih he hcomma hopen
  -- Sequences of statements
  | sequenceEnd hend => exact .sequenceEnd hend
  | separator hend hk _ ih => exact .separator hend hk ih
  | terminated hend hk _ hsemicolon _ ihn ih => exact .terminated hend hk ihn hsemicolon ih
  | trailing hend hk _ hsemicolon hclose ih => exact .trailing hend hk ih hsemicolon hclose
  | recovered hend hk _ hsemicolon hclose he _ ihn ih =>
    exact .recovered hend hk ihn hsemicolon hclose he ih
  | unterminated hend hk _ hsemicolon hclose he hblock _ ihn ih =>
    exact .unterminated hend hk ihn hsemicolon hclose he hblock ih
  | unseparated hend hk _ hsemicolon hclose he hblock _ ihn ih =>
    exact .unseparated hend hk ihn hsemicolon hclose he hblock ih

/-- A derivation stands in any larger room. -/
theorem Reads.mono {larger : Nat} (h : Reads room task s y s') (hle : room ≤ larger) :
    Reads larger task s y s' := by
  induction hle with
  | refl => exact h
  | step _ ih => exact ih.succ

end Room

/-- The statements of a text that has a derivation. -/
theorem program_eq {read : List Node} {last : Option Node}
    (h : Reads room (.sequence .eof []) s (.sequence read last) s') :
    (program (room + 2)).run s = (read ++ last.toList, s') := by
  have hrun : StateT.run (ExceptT.run (statements (room + 1) .eof)) s = (.ok (read, last), s') :=
    statements_iff.mpr h
  rw [program, StateT.run_bind, Nat.add_sub_cancel (room + 1) 1, hrun]
  rfl

end Grammar

namespace Reading

open Scriptlet.Grammar

/-- Do the rules of the text stay within the limit of their nesting? -/
def fits (supply : Supply) (text : List Char) : Bool :=
  match ((Grammar.statements (nestingLimit - 1) .eof).outcome (.ofSupply supply text)).1 with
  | .ok _ => true
  | .error _ => false

theorem fits_iff {supply : Supply} {text : List Char} :
    fits supply text = true ↔ ∃ read last s',
      Reads 978 (.sequence .eof []) (.ofSupply supply text) (.sequence read last) s' := by
  simp only [← statements_iff, Gives, fits]
  have hroom : nestingLimit - 1 = 978 + 1 := rfl
  rw [hroom]
  rcases (Grammar.statements (978 + 1) .eof).outcome (.ofSupply supply text) with ⟨r, m⟩
  cases r with
  | ok r => exact iff_of_true rfl ⟨r.1, r.2, m, rfl⟩
  | error e => simp

end Reading

end Scriptlet
