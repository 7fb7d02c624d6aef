import Scriptlet.Grammar.Program
import Scriptlet.Proofs.Session.Discipline

/-!
# Bindings in the course of a session

What evaluations keep, statements and whole programs keep, also where they are cut
short by an error, a `return` or a lack of room.
-/

namespace Scriptlet

open Session (Extends)

namespace Eval

theorem extends_statement (room : Nat) (n : Node) {s : Session} (hs : s.Tidy) :
    s.Extends ((statement room n).outcome s).2 := by
  have heval := steady_eval room n s hs s (.refl s)
  rw [outcome_statement]
  rcases hout : (eval room n).outcome s with ⟨i | v, m⟩
  · rw [hout] at heval
    cases i with
    | tooDeep => exact heval.unwindTo hs
    | _ => exact heval
  · rw [hout] at heval
    exact heval

theorem extends_statements (room : Nat) (ns : List Node) (last : Option Value) {s : Session}
    (hs : s.Tidy) : s.Extends ((statements room last ns).outcome s).2 := by
  induction ns generalizing last s with
  | nil => exact .refl s
  | cons n ns ih =>
    have hhead := extends_statement room n hs
    rw [outcome_statements_cons]
    rcases hout : (statement room n).outcome s with ⟨i | v, m⟩
    · rw [hout] at hhead
      exact hhead
    · rw [hout] at hhead
      exact hhead.trans (ih (some v) (hhead.tidy hs))

end Eval

namespace Session

variable {s : Session}

theorem extends_evaluate (ns : List Node) (hs : s.Tidy) : s.Extends (s.evaluate ns).2 := by
  cases h : Node.containsErrors ns with
  | true =>
    rw [evaluate, h]
    exact .refl s
  | false =>
    rw [evaluate_eq h]
    exact Eval.extends_statements _ ns _ hs

theorem extends_afterPrograms (programs : List (List Node)) (hs : s.Tidy) :
    s.Extends (s.afterPrograms programs) := by
  induction programs generalizing s with
  | nil => exact .refl s
  | cons ns programs ih =>
    have hfirst := extends_evaluate ns hs
    exact hfirst.trans (ih (hfirst.tidy hs))

theorem Fresh.depth (h : s.Fresh) : s.depth = 0 := by
  rcases h with rfl | rfl <;> rfl

/-- What is bound at the start are functions, outside of all blocks. -/
theorem Fresh.binding {b : Binding} (h : s.Fresh) (hb : b ∈ s.oldestFirst) :
    b.depth = 0 ∧ b.isFunction = true := by
  rcases h with rfl | rfl
  · exact absurd hb List.not_mem_nil
  · obtain ⟨f, -, rfl⟩ := List.mem_map.mp (List.mem_reverse.mp (List.mem_reverse.mp hb))
    exact ⟨rfl, rfl⟩

theorem Fresh.tidy (h : s.Fresh) : s.Tidy := by
  intro b hb
  exact Int.le_of_eq ((h.binding hb).1.trans h.depth.symm)

end Session

/-- A binding that must not be assigned stays what it is. -/
theorem Binding.Kept.eq {b b' : Binding} (h : b.Kept b')
    (hfixed : b.isMutable = false ∨ b.isFunction = true) : b' = b := by
  obtain ⟨hname, hmutable, hdepth, hfunction, hvalue⟩ := h
  cases b
  cases b'
  simp_all

/-- If nothing that is there at first can change, a session starts with it forever. -/
theorem Session.Extends.isPrefix {s m : Session} (h : s.Extends m)
    (hfixed : ∀ b ∈ s.oldestFirst, b.isMutable = false ∨ b.isFunction = true) :
    s.oldestFirst <+: m.oldestFirst := by
  refine List.prefix_iff_getElem?.mpr fun i hi => ?_
  obtain ⟨b', hb', hkept⟩ := h.kept (List.getElem?_eq_getElem hi)
  rw [hb', hkept.eq (hfixed _ (List.getElem_mem hi))]

/-- However an evaluation ends, it keeps the bindings and the depth that it found, adds
bindings at this depth only, and none from a block. In the course of a session, the depth
is zero after each program, all bindings lie there, the functions bound at the start come
first, and a binding that is not mutable never gets another value. -/
theorem scopes_are_kept :
    (∀ (room : Nat) (n : Node) (s : Session), s.Tidy →
        s.Extends ((eval room n).outcome s).2 ∧
          (n.kind = .block →
            ((eval room n).outcome s).2.oldestFirst.length = s.oldestFirst.length)) ∧
      ∀ (start : Session) (earlier later : List (List Node)), start.Fresh →
        let s := start.afterPrograms earlier
        let s' := start.afterPrograms (earlier ++ later)
        s'.depth = 0 ∧ (∀ b ∈ s'.oldestFirst, b.depth = 0) ∧
          start.oldestFirst <+: s'.oldestFirst ∧
          ∀ (i : Nat) (b : Binding), s.oldestFirst[i]? = some b → b.isMutable = false →
            s'.oldestFirst[i]? = some b := by
  constructor
  · intro room n s hs
    exact ⟨steady_eval room n s hs s (.refl s), fun hk => length_eval_block room hk hs⟩
  · intro start earlier later hstart
    dsimp only
    have hwhole := Session.extends_afterPrograms (earlier ++ later) hstart.tidy
    refine ⟨hwhole.depth.trans hstart.depth, fun b hb => ?_,
      hwhole.isPrefix fun b hb => .inr (hstart.binding hb).2, fun i b hb hfixed => ?_⟩
    · obtain ⟨i, hi⟩ := List.getElem?_of_mem hb
      cases hold : start.oldestFirst[i]? with
      | none => exact (hwhole.added hold hi).trans hstart.depth
      | some c =>
        obtain ⟨c', hc', hkept⟩ := hwhole.kept hold
        cases hi.symm.trans hc'
        exact hkept.depth.trans (hstart.binding (List.mem_of_getElem? hold)).1
    · have hearlier := Session.extends_afterPrograms earlier hstart.tidy
      rw [Session.afterPrograms_append]
      obtain ⟨b', hb', hkept⟩ :=
        (Session.extends_afterPrograms later (hearlier.tidy hstart.tidy)).kept hb
      rw [hb', hkept.eq (.inl hfixed)]

/-- A block that declares, assigns and returns, and a session with an error in a block. -/
theorem scopes_are_kept_by_return :
    let s := Session.withBuiltins.define (.text "x") (.integer 1) true
    let n := (Reading.ofText "{ let y = x; x = 2; return y }".toList).statements.head!
    let start := Session.withBuiltins
    let declaring := (Reading.ofText "let x = 1; { let y = -true }".toList).statements
    let assigning := (Reading.ofText "x = 2".toList).statements
    (s.Extends ((eval evaluationLimit n).outcome s).2 ∧
        ((eval evaluationLimit n).outcome s).2.oldestFirst.length = s.oldestFirst.length) ∧
      (start.afterPrograms ([declaring] ++ [assigning])).depth = 0 ∧
      start.oldestFirst <+: (start.afterPrograms ([declaring] ++ [assigning])).oldestFirst := by
  have hfresh : Session.withBuiltins.Fresh := .inr rfl
  have htidy := (Extends.define (.text "x") (.integer 1) true (.refl _)).tidy hfresh.tidy
  have hblock : (Reading.ofText "{ let y = x; x = 2; return y }".toList).statements.head!.kind
      = .block := by
    decide +kernel
  obtain ⟨heval, hsession⟩ := scopes_are_kept
  obtain ⟨hextends, hlength⟩ := heval evaluationLimit _ _ htidy
  obtain ⟨hdepth, -, hbuiltins, -⟩ := hsession .withBuiltins [_] [_] hfresh
  exact ⟨⟨hextends, hlength hblock⟩, hdepth, hbuiltins⟩

end Scriptlet
