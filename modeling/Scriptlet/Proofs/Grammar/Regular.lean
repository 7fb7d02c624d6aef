import Scriptlet.Proofs.Decimal.Finite
import Scriptlet.Proofs.Grammar.Grammatical
import Scriptlet.Proofs.Grammar.Syntax
import Scriptlet.Proofs.Tree.Regular

/-!
# What is read without faults is regular

Along the rules of the grammar: the floats of literals are finite, and the items between
parentheses that make a tuple are at least one.
-/

namespace Scriptlet

open Node (Everywhere everywhere_iff everywhere_make)

namespace Language

theorem regular_of_kind {n : Node} (hfloat : n.kind ≠ .float) (htuple : n.kind ≠ .tuple) :
    n.Regular := ⟨fun _ h => absurd h hfloat, fun h => absurd h htuple⟩

theorem regular_make {k : Node.Kind} {p : Position} {v : Datum Node} {cs : List Node}
    (hfloat : k ≠ .float) (htuple : k ≠ .tuple) : (Node.make k p v cs).Regular :=
  regular_of_kind hfloat htuple

theorem Atom.regular {t : Token} {n : Node} (h : Atom t n) : n.Everywhere Node.Regular := by
  cases h with
  | float _ _ _ _ hinf =>
    refine everywhere_make.mpr ⟨⟨fun x _ hx => ?_, nofun⟩, by simp [Node.ofValue], by simp⟩
    cases hx
    exact Decimal.isFinite_of_not_isInf hinf (Decimal.isNaN_toFloat _ _)
  | _ =>
    refine everywhere_make.mpr ⟨?_, by simp [Node.ofValue], by simp⟩
    exact regular_make (by decide) (by decide)

/-- With a comma there is an item. -/
theorem Derives.items_ne_nil {read : List Node} {ts : List Token}
    (h : Derives (.items read true) ts) : read ≠ [] := by
  cases h
  exact List.cons_ne_nil _ _

/-- Are all nodes of the trees regular? -/
def AllRegular (ns : List Node) : Prop := ∀ n ∈ ns, n.Everywhere Node.Regular

section AllRegular

variable {p : Position} {k : Node.Kind} {v : Datum Node} {n l r : Node} {ns : List Node}

theorem allRegular_nil : AllRegular [] := fun _ h => absurd h List.not_mem_nil

theorem AllRegular.cons (hn : AllRegular [n]) (hns : AllRegular ns) : AllRegular (n :: ns) :=
  List.forall_mem_cons.mpr ⟨List.forall_mem_singleton.mp hn, hns⟩

theorem allRegular_make (hfloat : k ≠ .float) (htuple : k ≠ .tuple)
    (hv : AllRegular (Node.ofValue v)) (hns : AllRegular ns) : AllRegular [.make k p v ns] :=
  List.forall_mem_singleton.mpr (everywhere_make.mpr ⟨regular_make hfloat htuple, hv, hns⟩)

theorem allRegular_binaryNode (op : BinaryOp) (hl : AllRegular [l]) (hr : AllRegular [r]) :
    AllRegular [Grammar.binaryNode op l r] :=
  allRegular_make nofun nofun allRegular_nil (hl.cons hr)

/-- Only that the name is mutable is told apart from the tree of another binding. -/
theorem allRegular_binding (isMutable : Bool) {name : String} (hn : AllRegular [n]) :
    AllRegular [{ Node.make .binding p (.text name) [n] with isMutable }] :=
  List.forall_mem_singleton.mpr (everywhere_iff.mpr ⟨regular_of_kind nofun nofun, hn⟩)

theorem allRegular_conditional {c t e : Node} (hc : AllRegular [c]) (ht : AllRegular [t])
    (he : AllRegular [e]) :
    AllRegular [{ Node.make .conditional p .absent [c, t] with elseBranch := [e] }] :=
  List.forall_mem_singleton.mpr
    (everywhere_iff.mpr ⟨regular_of_kind nofun nofun, hc.cons (ht.cons he)⟩)

/-- Items with a comma among them are those of a tuple. -/
theorem allRegular_tuple {ts : List Token} (h : Derives (.items ns true) ts)
    (hns : AllRegular ns) : AllRegular [.make .tuple p .absent ns] := by
  have hnode : (Node.make .tuple p .absent ns).Regular := ⟨nofun, fun _ => h.items_ne_nil⟩
  exact List.forall_mem_singleton.mpr (everywhere_make.mpr ⟨hnode, allRegular_nil, hns⟩)

theorem allRegular_block {last : Option Node} (h : AllRegular (ns ++ last.toList)) :
    AllRegular [.make .block p (last.elim .absent .node) ns] := by
  obtain ⟨hns, hlast⟩ := List.forall_mem_append.mp h
  refine allRegular_make nofun nofun ?_ hns
  rw [Node.ofValue_last]
  exact hlast

end AllRegular

theorem Derives.regular {phrase : Phrase} {ts : List Token} (h : Derives phrase ts) :
    AllRegular phrase.nodes := by
  induction h with
  -- The tree of a part
  | bindingStatement _ ih | expressionStatement _ ih | expression _ ih | disjunction _ ih
  | conjunction _ ih | equality _ ih | sum _ ih | product _ ih | prefixed _ ih | applied _ ih
  | unapplied _ _ ih | callee _ _ _ ih | grouped _ _ _ ih | blockOperand _ ih
  | conditionalOperand _ ih | bindingOperand _ ih | elseBlock _ ih | elseIf _ ih => exact ih
  -- Lists of trees
  | empty | noItems => exact allRegular_nil
  | separator _ _ ih | last _ ih | lastItem _ ih => exact ih
  | terminated _ _ _ ihn ih | unterminated _ _ _ _ ihn ih | item _ _ _ ihn ih => exact ihn.cons ih
  -- New trees
  | atom hatom => exact List.forall_mem_singleton.mpr hatom.regular
  | bareReturn | unit => exact allRegular_make nofun nofun allRegular_nil allRegular_nil
  | returnOf _ _ ih | unary _ _ ih | array _ _ _ ih =>
    exact allRegular_make nofun nofun allRegular_nil ih
  | immutable _ _ _ _ ih => exact allRegular_binding false ih
  | mutable _ _ _ _ _ ih => exact allRegular_binding true ih
  | assignment _ _ _ _ ihl ihr =>
    exact allRegular_make nofun nofun allRegular_nil (ihl.cons ihr)
  | or _ _ _ ihl ihr | and _ _ _ ihl ihr | compare _ _ _ ihl ihr | add _ _ _ ihl ihr
  | multiply _ _ _ ihl ihr => exact allRegular_binaryNode _ ihl ihr
  | call _ _ _ _ ihn ih => exact allRegular_make nofun nofun ihn ih
  | index _ _ _ _ ihn ihi => exact allRegular_make nofun nofun allRegular_nil (ihn.cons ihi)
  | tuple _ hitems _ ih => exact allRegular_tuple hitems ih
  | block _ _ _ ih => exact allRegular_block ih
  | ifThen _ _ _ ihc iht => exact allRegular_make nofun nofun allRegular_nil (ihc.cons iht)
  | ifThenElse _ _ _ _ _ ihc iht ihe => exact allRegular_conditional ihc iht ihe

end Language

namespace Reading

open Grammar

/-- The statements of a text without diagnostics are the trees of regular terms. -/
theorem regular_terms_of_ok {text : List Char} (h : (ofText text).ok = true) :
    ∃ ts : List Term, Term.toNodes ts = (ofText text).statements ∧ ∀ t ∈ ts, t.Regular := by
  obtain ⟨ts, hts⟩ := terms_of_text (containsErrors_of_ok h)
  obtain ⟨read, last, s', hreads, hstatements, hclean⟩ := reads_of_ok h
  obtain ⟨ns, l, heq, hbody⟩ := hreads.program hclean
  refine ⟨ts, hts, fun t ht => Term.regular_of_everywhere (hbody.regular _ ?_)⟩
  change t.toNode ∈ ns ++ l.toList
  rw [← heq, ← hstatements, ← hts, Term.toNodes_eq_map]
  exact List.mem_map_of_mem ht

end Reading

end Scriptlet
