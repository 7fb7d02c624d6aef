import Scriptlet.Proofs.Lexical.Refinement
import Scriptlet.Proofs.Positions
import Scriptlet.Proofs.Session.Layout
import Scriptlet.Proofs.Session.Lifetime
import Scriptlet.Proofs.Session.Variation

/-!
# Assignments that combine

`a += e` comes to what `a = a + e` comes to, as long as `e` does not assign to `a`. The one
takes the old value behind `e`, the other in front of it, so what has to be shown is that `e`
leaves it alone. An evaluation that assigns to no variable of a name does not notice if these
are not mutable; and then it cannot have changed them.
-/

namespace Scriptlet

theorem Datum.equals_text_right {name : String} {v : Datum Node}
    (h : equals v (.text name) = true) : v = .text name := by
  cases v <;> simp_all [equals, number?]

namespace Session

/-- The session in which no variable of the name is mutable. -/
def freeze (name : String) (s : Session) : Session :=
  { s with bindings := s.bindings.map fun b =>
      if b.name.equals (.text name) then { b with isMutable := false } else b }

variable {s : Session} {name : String}

theorem varies_freeze (s : Session) (name : String) :
    Varies ⟨s.depth, 0, (· = name)⟩ s.depth (s.freeze name) s where
  floor := Int.le_refl _
  depth := rfl
  depth' := (Int.add_zero _).symm
  bindings := by
    refine List.forall₂_map_left_iff.mpr (List.forall₂_same.mpr fun b _ => ?_)
    split
    · next hname =>
      exact ⟨rfl, rfl, rfl, .inr ⟨name, rfl, Datum.equals_text_right hname⟩, .inl (by simp)⟩
    · exact ⟨rfl, rfl, rfl, .inl rfl, .inl (by simp)⟩
  printed := rfl
  nextMark := rfl

theorem getElem?_freeze (i : Nat) :
    (s.freeze name).oldestFirst[i]? = s.oldestFirst[i]?.map fun b =>
      if b.name.equals (.text name) then { b with isMutable := false } else b := by
  rw [oldestFirst, freeze, ← List.map_reverse, List.getElem?_map, oldestFirst]

theorem Tidy.freeze (hs : s.Tidy) (name : String) : (s.freeze name).Tidy := by
  intro b hb
  obtain ⟨i, hi⟩ := List.getElem?_of_mem hb
  rw [getElem?_freeze] at hi
  obtain ⟨c, hc, rfl⟩ := Option.map_eq_some_iff.mp hi
  have hdepth := hs c (List.mem_of_getElem? hc)
  split <;> exact hdepth

end Session

/-- Evaluating a tree that does not assign to a name leaves the value of its variables alone. -/
theorem value_kept_of_spared {room : Nat} {name : String} {n : Node} {s : Session} {slot : Nat}
    {b : Binding} (hs : s.Tidy) (hspares : n.Everywhere fun m => ¬ m.AssignsTo name)
    (hfind : s.find? (.text name) = some (slot, b))
    (hroom : ((eval room n).outcome s).1 ≠ .error .tooDeep) :
    ((eval room n).outcome s).2.at? slot = some b.value := by
  obtain ⟨hslot, hname⟩ := findBinding_slot hfind
  obtain ⟨c, hc, -⟩ := (steady_eval room n s hs s (.refl s)).kept hslot
  have hfrozen : (s.freeze name).oldestFirst[slot]? = some { b with isMutable := false } := by
    rw [Session.getElem?_freeze, Session.oldestFirst, hslot, Option.map_some, if_pos hname]
  obtain ⟨c', hc', hkept⟩ :=
    (steady_eval room n _ (hs.freeze name) _ (.refl _)).kept hfrozen
  have hfree : (⟨s.depth, 0, (· = name)⟩ : Variation).Spares n := by
    rintro m hm _ rfl
    exact hspares m hm
  have hlags := lags_eval room (Nat.le_refl room) n hfree s.depth _ _
    (Session.varies_freeze s name)
  obtain ⟨-, hvaries⟩ := hlags.resolve_left hroom
  rw [Session.at?, valueAt?_eq]
  rw [Session.oldestFirst] at hc
  rw [hc, Option.map_some, (hvaries.slot hc' hc).value, hkept.value (.inl rfl)]

namespace Eval

open ExceptT (outcome_bind outcome_get_bind)

/-- Combines the old value of a variable with a new one and writes the result to its slot. -/
def store (room : Nat) (n : Node) (op : ArithmeticOp) (slot : Nat) (old v : Value) :
    Eval Value := do
  needDepth room (Value.binaryDepth op.name old v)
  modify (Session.set slot (← made (← ofAny n (Value.binary op.name old v))))
  return .unit

/-- An end of an evaluation without the position of its error. -/
def unplaced {α : Type} (r : Except Interrupt α) : Except Interrupt α :=
  r.mapError (Interrupt.place fun _ => {})

/-- With less room, and an error at another place, storing comes to the same. Where it fails, it
leaves the session as it was. -/
theorem outcome_store {room room' : Nat} (hroom : room ≤ room') (n n' : Node) (op : ArithmeticOp)
    (slot : Nat) (old v : Value) (m : Session) :
    let x := (store room n op slot old v).outcome m
    let y := (store room' n' op slot old v).outcome m
    x.1 = .error .tooDeep ∨
      (unplaced x.1 = unplaced y.1 ∧ x.2 = y.2 ∧ ∀ i, x.1 = .error i → x.2 = m) := by
  intro x y
  by_cases hdeep : room < 3 * Value.binaryDepth op.name old v
  · left
    simp only [x, store, needDepth, if_pos hdeep]
    rfl
  · right
    simp only [x, y, store, needDepth, if_neg hdeep,
      if_neg (Nat.not_lt.mpr (Nat.le_trans (Nat.not_lt.mp hdeep) hroom)), pure_bind]
    rcases Value.binary op.name old v with (e | e | e) | w
    · exact ⟨rfl, rfl, fun _ _ => rfl⟩
    · exact ⟨rfl, rfl, fun _ _ => rfl⟩
    · exact ⟨rfl, rfl, fun _ _ => rfl⟩
    · exact ⟨rfl, rfl, fun i hi => by cases hi⟩

section Found

variable {s : Session} {name : String} {slot : Nat} {b : Binding}
  (hfind : s.find? (.text name) = some (slot, b)) (hfunction : b.isFunction = false)
  (hmutable : b.isMutable = true)
include hfind hfunction hmutable

/-- The old value is taken from the slot behind the operand. -/
theorem outcome_compound (room : Nat) (op : ArithmeticOp) (p : Position) (e : Term) :
    (eval (room + 3) (Term.assign p (.combine op) name e).toNode).outcome s =
      (eval (room + 1) e.toNode >>= fun v => get >>= fun m =>
        store (room + 1) (Term.assign p (.combine op) name e).toNode op slot
          ((m.at? slot).getD b.value) v).outcome s := by
  rw [eval, Term.rule_toNode, Term.rule, outcome_get_bind, hfind]
  simp only [Term.assignment, hfunction, hmutable, Bool.false_eq_true, if_false, Bool.not_true,
    Term.write, bind_assoc]
  rfl

/-- The old value is that of the variable in front of the operand. -/
theorem outcome_expanded (room : Nat) (op : ArithmeticOp) (p q r : Position) (e : Term) :
    let sum := Term.binary q (.arithmetic op) (.identifier r name) e
    (eval (room + 7) (Term.assign p .replace name sum).toNode).outcome s =
      (eval (room + 3) e.toNode >>= fun v =>
        store (room + 3) sum.toNode op slot b.value v).outcome s := by
  intro sum
  have hname : (eval (room + 3) (Term.identifier r name).toNode).outcome s = (.ok b.value, s) := by
    rw [eval, Term.rule_toNode, Term.rule, outcome_get_bind, hfind]
    rfl
  have hsum : eval (room + 5) sum.toNode = (do
      let old ← eval (room + 3) (Term.identifier r name).toNode
      let v ← eval (room + 3) e.toNode
      needDepth (room + 3) (Value.binaryDepth op.name old v)
      made (← ofAny sum.toNode (Value.binary op.name old v))) := by
    rw [eval, Term.rule_toNode]
    rfl
  rw [eval, Term.rule_toNode, Term.rule, outcome_get_bind, hfind]
  simp only [Term.assignment, hfunction, hmutable, Bool.false_eq_true, if_false, Bool.not_true,
    Term.write, hsum, bind_assoc]
  rw [outcome_bind, hname]
  rfl

end Found

/-- What must not be assigned to is found out before anything else is evaluated. -/
theorem outcome_refused {s : Session} {name : String}
    (h : ∀ slot b, s.find? (.text name) = some (slot, b) →
      b.isFunction = true ∨ b.isMutable = false) :
    ∃ refusal : RuntimeError, ∀ (room : Nat) (op : AssignOp) (p : Position) (e : Term),
      (eval (room + 3) (Term.assign p op name e).toNode).outcome s =
        (.error (.error ⟨.runtime, refusal.message, p⟩), s) := by
  have hrule (room : Nat) (op : AssignOp) (p : Position) (e : Term) :
      (eval (room + 3) (Term.assign p op name e).toNode).outcome s =
        (Term.assignment (room + 1) (fun t => eval (room + 1) t.toNode)
          (Term.assign p op name e).toNode (Term.nameNode p name) op name e
          (s.find? (.text name))).outcome s := by
    rw [eval, Term.rule_toNode, Term.rule, outcome_get_bind]
  rcases hfind : s.find? (.text name) with - | ⟨slot, b⟩
  · refine ⟨.undeclaredTarget name, fun room op p e => ?_⟩
    rw [hrule, hfind]
    rfl
  cases hfunction : b.isFunction with
  | true =>
    refine ⟨.functionTarget name, fun room op p e => ?_⟩
    rw [hrule, hfind, Term.assignment, if_pos hfunction]
    rfl
  | false =>
    have himmutable := (h slot b hfind).resolve_left (by simp [hfunction])
    refine ⟨.immutableTarget name, fun room op p e => ?_⟩
    rw [hrule, hfind, Term.assignment, if_neg (by simp [hfunction]), if_pos (by simp [himmutable])]
    rfl

/-- The expanded assignment has less room. If it suffices, both come to the same, and where that
is an early end, the variable has its old value. -/
theorem outcome_compound_expanded (room : Nat) {s : Session} {name : String} {e : Term}
    (hs : s.Tidy) (hspares : e.toNode.Everywhere fun m => ¬ m.AssignsTo name)
    (op : ArithmeticOp) (p p' q r : Position) :
    let compound := (eval (room + 7) (Term.assign p (.combine op) name e).toNode).outcome s
    let expanded := (eval (room + 7) (Term.assign p' .replace name
      (.binary q (.arithmetic op) (.identifier r name) e)).toNode).outcome s
    expanded.1 = .error .tooDeep ∨
      (unplaced compound.1 = unplaced expanded.1 ∧ compound.2 = expanded.2 ∧
        ∀ i slot b, expanded.1 = .error i → s.find? (.text name) = some (slot, b) →
          expanded.2.at? slot = some b.value) := by
  intro compound expanded
  have hstart {slot : Nat} {b : Binding} (hfind : s.find? (.text name) = some (slot, b)) :
      s.at? slot = some b.value := by
    rw [Session.at?, valueAt?_eq, (findBinding_slot hfind).1, Option.map_some]
  by_cases hrefused : ∀ slot b, s.find? (.text name) = some (slot, b) →
      b.isFunction = true ∨ b.isMutable = false
  · obtain ⟨refusal, hrefusal⟩ := outcome_refused hrefused
    have hcompound : compound = _ := hrefusal (room + 4) (.combine op) p e
    have hexpanded : expanded = _ := hrefusal (room + 4) .replace p' _
    rw [hcompound, hexpanded]
    exact .inr ⟨rfl, rfl, fun _ _ _ _ hfind => hstart hfind⟩
  push Not at hrefused
  obtain ⟨slot, b, hfind, hfunction, hmutable⟩ := hrefused
  have hfunction := eq_false_of_ne_true hfunction
  have hmutable := eq_true_of_ne_false hmutable
  have hcompound : compound = _ :=
    outcome_compound hfind hfunction hmutable (room + 4) op p e
  have hexpanded : expanded = _ := outcome_expanded hfind hfunction hmutable room op p' q r e
  have hkept : ((eval (room + 3) e.toNode).outcome s).1 ≠ .error .tooDeep →
      ((eval (room + 3) e.toNode).outcome s).2.at? slot = some b.value :=
    value_kept_of_spared hs hspares hfind
  have hlonger := outcome_eval_of_le (Nat.le_add_right (room + 3) 2) e.toNode s
  rw [outcome_bind] at hcompound hexpanded
  rw [hcompound, hexpanded]
  generalize (eval (room + 3) e.toNode).outcome s = ended at hkept hlonger ⊢
  obtain ⟨i | v, m⟩ := ended
  · by_cases hdeep : (Except.error i : Except Interrupt Value) = .error .tooDeep
    · cases hdeep
      exact .inl rfl
    · rw [← hlonger.resolve_left hdeep]
      refine .inr ⟨rfl, rfl, fun _ slot' b' _ hfind' => ?_⟩
      cases hfind.symm.trans hfind'
      exact hkept hdeep
  · have hdone : (Except.ok v : Except Interrupt Value) ≠ .error .tooDeep := by simp
    have hat := hkept hdone
    rw [← hlonger.resolve_left hdone]
    dsimp only
    rw [outcome_get_bind, hat, Option.getD_some]
    refine (outcome_store (Nat.le_add_right (room + 3) 2) _
      (Term.assign p (.combine op) name e).toNode op slot b.value v m).imp_right ?_
    rintro ⟨hsame, hsession, hstay⟩
    refine ⟨hsame.symm, hsession.symm, fun i slot' b' hi hfind' => ?_⟩
    cases hfind.symm.trans hfind'
    rw [hstay i hi]
    exact hat

end Eval

/-- A program of one statement is given up or comes to what the statement comes to. -/
theorem Session.evaluate_single {n : Node} (hclean : Node.containsErrors [n] = false)
    (s : Session) :
    (((eval evaluationLimit n).outcome s).1 = .error .tooDeep ∧
        Lexical.GivenUp (s.evaluate [n]).1) ∨
      (((eval evaluationLimit n).outcome s).1 ≠ .error .tooDeep ∧
        s.evaluate [n] =
          (.ofOutcome (((eval evaluationLimit n).outcome s).1.map some),
            ((eval evaluationLimit n).outcome s).2)) := by
  rw [evaluate_eq hclean, Eval.outcome_statements_cons, Eval.outcome_statement]
  rcases (eval evaluationLimit n).outcome s with ⟨i | v, m⟩
  · cases i with
    | tooDeep => exact .inl ⟨rfl, n.position, rfl⟩
    | _ => exact .inr ⟨nofun, rfl⟩
  · exact .inr ⟨nofun, rfl⟩

namespace Eval

theorem unplaced_eq_tooDeep {r : Except Interrupt Value} :
    unplaced r = .error .tooDeep ↔ r = .error .tooDeep := by
  rcases r with i | v
  · cases i <;> simp [unplaced, Except.mapError, Interrupt.place]
  · simp [unplaced, Except.mapError]

theorem unplaced_ofOutcome (r : Except Interrupt Value) :
    (Result.ofOutcome (r.map some)).unplaced = .ofOutcome ((unplaced r).map some) := by
  rcases r with i | v
  · cases i <;> rfl
  · rfl

/-- Ends that differ in no more than a position are early or not alike. -/
theorem error_of_unplaced {r r' : Except Interrupt Value} (h : unplaced r = unplaced r')
    (hr : ∃ i, r = .error i) : ∃ i, r' = .error i := by
  obtain ⟨i, rfl⟩ := hr
  cases r' with
  | ok v => cases h
  | error i' => exact ⟨i', rfl⟩

theorem error_of_ofOutcome {r : Except Interrupt Value} {d : Diagnostic}
    (h : Result.ofOutcome (r.map some) = .error d) : ∃ i, r = .error i := by
  cases r with
  | ok v => cases h
  | error i => exact ⟨i, rfl⟩

end Eval

/-- Combining an expression with a variable by a compound assignment comes to what assigning
the combination comes to, up to the place where it fails, if the expression does not assign to
the variable. Both print the same and leave the same session, and where they fail, the variable
keeps its value. -/
theorem compound_assignment_is_expanded :
    (∀ (start : Session) (programs : List (List Node)), start.Fresh →
        (start.afterPrograms programs).Tidy) ∧
      (∀ text, Node.containsErrors (Reading.ofText text).statements = false →
        ∃ ts, Term.toNodes ts = (Reading.ofText text).statements) ∧
      ∀ (s : Session) (op : ArithmeticOp) (name : String) (e : Term) (p p' q r : Position),
        s.Tidy → (e.toNode.Everywhere fun m => ¬ m.AssignsTo name) →
        let compound := s.evaluate [(Term.assign p (.combine op) name e).toNode]
        let expanded := s.evaluate [(Term.assign p' .replace name
          (.binary q (.arithmetic op) (.identifier r name) e)).toNode]
        ¬ Lexical.GivenUp expanded.1 →
          compound.1.unplaced = expanded.1.unplaced ∧ compound.2 = expanded.2 ∧
            ∀ d slot b, compound.1 = .error d → s.find? (.text name) = some (slot, b) →
              compound.2.at? slot = some b.value := by
  refine ⟨fun start programs hstart =>
    (Session.extends_afterPrograms programs hstart.tidy).tidy hstart.tidy,
    fun text hclean => Reading.terms_of_text hclean, ?_⟩
  intro s op name e p p' q r hs hspares compound expanded hroom
  have hname (p : Position) : Node.containsErrors [Term.nameNode p name] = false :=
    Node.containsErrors_make (by decide) p (.text name) []
  have hassign (op : AssignOp) (p : Position) (t : Term) :
      Node.containsErrors [(Term.assign p op name t).toNode] = Node.containsErrors [t.toNode] := by
    rw [Term.toNode, Node.containsErrors_make (by decide), Node.containsErrors_cons, hname]
    rfl
  have hbinary : Node.containsErrors
      [(Term.binary q (.arithmetic op) (.identifier r name) e).toNode] =
        Node.containsErrors [e.toNode] := by
    rw [Term.toNode, Node.containsErrors_make (by decide), Node.containsErrors_cons, Term.toNode,
      hname]
    rfl
  cases hclean : Node.containsErrors [e.toNode] with
  | true =>
    have hcompound : compound = (.fault .holdsErrors, s) := if_pos ((hassign _ _ _).trans hclean)
    have hexpanded : expanded = (.fault .holdsErrors, s) :=
      if_pos ((hassign _ _ _).trans (hbinary.trans hclean))
    rw [hcompound, hexpanded]
    exact ⟨rfl, rfl, nofun⟩
  | false =>
    obtain ⟨-, hgivenUp⟩ | ⟨hdone, hexpanded⟩ := Session.evaluate_single
      ((hassign .replace p' _).trans (hbinary.trans hclean)) s
    · exact absurd hgivenUp hroom
    obtain ⟨hsame, hsession, hkept⟩ := (Eval.outcome_compound_expanded 973 hs hspares op p p' q
      r).resolve_left hdone
    obtain ⟨hdeep, -⟩ | ⟨-, hcompound⟩ := Session.evaluate_single
      ((hassign (.combine op) p e).trans hclean) s
    · have hdeep := Eval.unplaced_eq_tooDeep.mpr hdeep
      exact absurd (Eval.unplaced_eq_tooDeep.mp (hsame ▸ hdeep)) hdone
    have hcompound : compound = _ := hcompound
    have hexpanded : expanded = _ := hexpanded
    rw [hcompound, hexpanded]
    refine ⟨?_, hsession, fun d slot b herror hfind => ?_⟩
    · rw [Eval.unplaced_ofOutcome, Eval.unplaced_ofOutcome]
      exact congrArg (fun r => Result.ofOutcome (Except.map some r)) hsame
    · obtain ⟨i, hi⟩ := Eval.error_of_unplaced hsame (Eval.error_of_ofOutcome herror)
      exact (congrArg (Session.at? · slot) hsession).trans (hkept i slot b hi hfind)

/-- A sum that overflows, of a variable and of one that shadows it. -/
theorem overflowing_compound_assignment_is_expanded :
    let s := Session.withBuiltins.define (.text "a") (.integer Value.greatestInteger) true
    let e : Term := .block {} [.binding {} true "a" (.integer {} ⟨1, by decide⟩)]
      (some (.identifier {} "a"))
    let compound := s.evaluate [(Term.assign {} (.combine .add) "a" e).toNode]
    let expanded := s.evaluate [(Term.assign {} .replace "a"
      (.binary {} (.arithmetic .add) (.identifier {} "a") e)).toNode]
    compound.1.unplaced = expanded.1.unplaced ∧ compound.2 = expanded.2 := by
  intro s e compound expanded
  have htidy : s.Tidy :=
    (Session.Extends.define _ _ _ (.refl _)).tidy (Session.Fresh.tidy (.inr rfl))
  have hspares : e.toNode.Everywhere fun m => ¬ m.AssignsTo "a" := by
    have hkinds : ∀ k ∈ e.toNode.preorder.map (·.kind), k ≠ .assign := by decide +kernel
    exact fun m hm h => hkinds _ (List.mem_map_of_mem hm) h.1
  have herror : expanded.1 = .error ⟨.runtime, "integer overflow", {}⟩ := by decide +kernel
  have hroom : ¬ Lexical.GivenUp expanded.1 := by
    rintro ⟨p, hp⟩
    have hother : "integer overflow" ≠ RuntimeError.nestedTooDeeply.message := by decide
    exact hother (congrArg Diagnostic.message (Result.error.inj (herror.symm.trans hp)))
  obtain ⟨-, -, hsame⟩ := compound_assignment_is_expanded
  obtain ⟨hresult, hsession, -⟩ := hsame s .add "a" e {} {} {} {} htidy hspares hroom
  exact ⟨hresult, hsession⟩

end Scriptlet
