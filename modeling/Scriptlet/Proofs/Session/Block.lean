import Scriptlet.Proofs.Lexical.Refinement
import Scriptlet.Proofs.Session.Lifetime
import Scriptlet.Proofs.Session.Variation

/-!
# Blocks around statements

A block around some statements comes to what the statements come to without it. All that
the block changes is how long their bindings live: those that they add are dropped at its
end. In the block everything lies one level deeper.
-/

namespace Scriptlet

namespace Eval

open ExceptT (outcome_bind)

variable {k : Variation} {level : Int} {room room' : Nat}

/-- A statement on its own, behind one that has less room and may run out of it. -/
theorem lags_statement (hroom : room ≤ room') {n : Node} (hspares : k.Spares n) :
    Lags k level (eval room n) (statement room' n) := by
  intro s s' h
  rcases lags_eval room hroom n hspares level s s' h with hdeep | ⟨hsame, hvaries⟩
  · exact .inl hdeep
  rw [outcome_statement]
  rcases hout : (eval room' n).outcome s with ⟨i | v, m⟩
  · rw [hout] at hsame hvaries
    cases i with
    | tooDeep => exact .inl hsame
    | _ => exact .inr ⟨hsame, hvaries⟩
  · rw [hout] at hsame hvaries
    exact .inr ⟨hsame, hvaries⟩

/-- The statements of a block with the expression at its end. -/
def body (call : Node → Eval Value) (ss : List Node) (t : Node) : Eval Value := do
  ss.forM fun s => discard (call s)
  call t

theorem body_cons (call : Node → Eval Value) (s : Node) (ss : List Node) (t : Node) :
    body call (s :: ss) t = call s >>= fun _ => body call ss t := by
  rw [body, forM_cons, bind_assoc]
  exact bind_map_left ..

theorem lags_statements (hroom : room ≤ room') (ss : List Node) {t : Node}
    (hspares : ∀ n ∈ ss ++ [t], k.Spares n) (last : Option Value) :
    Lags k level (body (eval room) ss t >>= fun v => pure (some v))
      (statements room' last (ss ++ [t])) := by
  induction ss generalizing last with
  | nil =>
    have ht : Lags k level (eval room t) (statement room' t) :=
      lags_statement hroom (hspares t List.mem_cons_self)
    exact lags_bind ht fun v => lags_pure (some v)
  | cons s ss ih =>
    rw [List.cons_append, List.forall_mem_cons] at hspares
    rw [body_cons, bind_assoc, List.cons_append, statements]
    exact lags_bind (lags_statement hroom hspares.1) fun v => ih hspares.2 (some v)

end Eval

namespace Session

variable {s : Session}

/-- In its first scope a session varies from what it is outside by the one level. -/
theorem varies_enter (hs : s.Tidy) :
    Varies ⟨s.depth, 1, fun _ => False⟩ s.depth s s.enter where
  floor := Int.le_refl _
  depth := rfl
  depth' := rfl
  bindings := by
    refine List.forall₂_same.mpr fun b hb => ⟨rfl, rfl, rfl, .inl rfl, .inr ⟨rfl, ?_⟩⟩
    exact hs b (List.mem_reverse.mpr hb)
  printed := rfl
  nextMark := rfl

/-- Later on, the two still agree on the bindings that were there at first: neither moved
them. -/
theorem Varies.take_eq {m m' : Session} (hm : s.Extends m) (hm' : s.enter.Extends m')
    (h : Varies ⟨s.depth, 1, fun _ => False⟩ s.depth m m') :
    m'.oldestFirst.take s.oldestFirst.length = m.oldestFirst.take s.oldestFirst.length := by
  refine List.ext_getElem? fun i => ?_
  rw [List.getElem?_take, List.getElem?_take]
  split
  · next hi =>
    obtain ⟨b, hb, hkept⟩ := hm.kept (List.getElem?_eq_getElem hi)
    obtain ⟨b', hb', hkept'⟩ := hm'.kept (List.getElem?_eq_getElem hi)
    have hdepth : b'.depth = b.depth := hkept'.depth.trans hkept.depth.symm
    rw [hb, hb', (h.slot hb hb').eq (fun _ => id) hdepth]
  · rfl

end Session

namespace Eval

open ExceptT (outcome_bind)

theorem keeps_body {call : Node → Eval Value} (hcall : Steady call) (ss : List Node) (t : Node)
    {s : Session} (hs : s.Tidy) : Keeps s (body call ss t) :=
  keeps_bind (keeps_forM (fun a => keeps_discard (hcall a s hs)) ss) fun _ => hcall t s hs

/-- The block has less room for its statements than they have on their own. If it suffices,
the session that the block leaves at its end varies from theirs by the one level. -/
theorem outcome_block (room : Nat) {s : Session} (hs : s.Tidy) (ss : List Node) (t : Node)
    (p : Position) :
    let wrapped := (statements (room + 3) none [.make .block p (.node t) ss]).outcome s
    let bare := (statements (room + 3) none (ss ++ [t])).outcome s
    Lexical.GivenUp (.ofOutcome wrapped.1) ∨
      ∃ m, s.enter.Extends m ∧ wrapped = (bare.1, m.leave) ∧
        Session.Varies ⟨s.depth, 1, fun _ => False⟩ s.depth bare.2 m := by
  intro wrapped bare
  have henter : s.enter.Tidy := fun b hb => Int.le_add_one (hs b hb)
  have hextends := keeps_body (steady_eval (room + 1)) ss t henter s.enter (.refl _)
  have hlags := lags_statements (Nat.le_add_right (room + 1) 2) ss (t := t)
    (fun n _ => Variation.spares_of_not_frozen (fun _ => id) n) none s s.enter
    (Session.varies_enter hs)
  have heval : (eval (room + 3) (.make .block p (.node t) ss)).outcome s =
      (((body (eval (room + 1)) ss t).outcome s.enter).1,
        ((body (eval (room + 1)) ss t).outcome s.enter).2.leave) := rfl
  rw [outcome_bind] at hlags
  simp only [wrapped, bare, outcome_statements_cons, outcome_statement, heval]
  generalize (body (eval (room + 1)) ss t).outcome s.enter = ended at hextends hlags ⊢
  rcases ended with ⟨i | v, m⟩
  · rcases hlags with hdeep | ⟨hsame, hvaries⟩
    · cases hdeep
      exact .inl ⟨p, rfl⟩
    · cases i with
      | tooDeep => exact .inl ⟨p, rfl⟩
      | _ => exact .inr ⟨m, hextends, Prod.ext hsame rfl, hvaries⟩
  · rcases hlags with hdeep | ⟨hsame, hvaries⟩
    · cases hdeep
    · exact .inr ⟨m, hextends, Prod.ext hsame rfl, hvaries⟩

end Eval

/-- A block around statements comes to what the statements come to, prints what they print,
and drops the bindings that they add; nothing else tells the two apart. -/
theorem block_is_its_statements :
    (∀ (start : Session) (programs : List (List Node)), start.Fresh →
        (start.afterPrograms programs).Tidy) ∧
      ∀ (s : Session) (ss : List Node) (t : Node) (p : Position), s.Tidy →
        let wrapped := s.evaluate [.make .block p (.node t) ss]
        let bare := s.evaluate (ss ++ [t])
        ¬ Lexical.GivenUp wrapped.1 →
          wrapped.1 = bare.1 ∧ wrapped.2.printed = bare.2.printed ∧
            wrapped.2.depth = bare.2.depth ∧ wrapped.2.nextMark = bare.2.nextMark ∧
            wrapped.2.oldestFirst = bare.2.oldestFirst.take s.oldestFirst.length := by
  refine ⟨fun start programs hstart =>
    (Session.extends_afterPrograms programs hstart.tidy).tidy hstart.tidy, ?_⟩
  intro s ss t p hs wrapped bare hroom
  have herrors : Node.containsErrors [.make .block p (.node t) ss] =
      Node.containsErrors (ss ++ [t]) := by
    rw [Node.containsErrors_make (by decide), Node.containsErrors_append, Bool.or_comm]
    rfl
  cases hclean : Node.containsErrors (ss ++ [t]) with
  | true =>
    rw [hclean] at herrors
    have hwrapped : wrapped = (.fault .holdsErrors, s) := if_pos herrors
    have hbare : bare = (.fault .holdsErrors, s) := if_pos hclean
    rw [hwrapped, hbare]
    exact ⟨rfl, rfl, rfl, rfl, List.take_length.symm⟩
  | false =>
    have hextends := Session.extends_evaluate (ss ++ [t]) hs
    have hwrapped : wrapped = _ := Session.evaluate_eq (herrors.trans hclean) s
    have hbare : bare = _ := Session.evaluate_eq hclean s
    rw [hwrapped] at hroom
    obtain ⟨m, henter, hsame, hvaries⟩ := (Eval.outcome_block 977 hs ss t p).resolve_left hroom
    have hresult : wrapped = (bare.1, m.leave) := by
      rw [hwrapped, hbare]
      exact congrArg (Prod.map Result.ofOutcome id) hsame
    have hvaries : Session.Varies ⟨s.depth, 1, fun _ => False⟩ s.depth bare.2 m := by
      rw [hbare]
      exact hvaries
    rw [hresult]
    refine ⟨rfl, hvaries.printed, ?_, hvaries.nextMark, ?_⟩
    · exact (henter.leave hs).depth.trans hextends.depth.symm
    · rw [henter.oldestFirst_leave hs]
      exact hvaries.take_eq hextends henter

/-- A block that shadows a variable, changes another one and returns from within. -/
theorem returning_block_is_its_statements :
    let start := Session.withBuiltins
    let s := start.afterPrograms [(Reading.ofText "let mut n = 1; let x = 2".toList).statements]
    let ss := (Reading.ofText "let x = x + 1; print(x); n = { let y = x; y * 2 }".toList).statements
    let t := (Reading.ofText "if n == 6 { return [n, x] }".toList).statements.head!
    let wrapped := s.evaluate [.make .block {} (.node t) ss]
    let bare := s.evaluate (ss ++ [t])
    wrapped.1 = bare.1 ∧ wrapped.2.printed = bare.2.printed ∧
      wrapped.2.oldestFirst = bare.2.oldestFirst.take s.oldestFirst.length := by
  intro start s ss t wrapped bare
  obtain ⟨hreached, hblock⟩ := block_is_its_statements
  have hvalue : (match wrapped.1 with
      | .value _ => true
      | _ => false) = true := by
    decide +kernel
  have hroom : ¬ Lexical.GivenUp wrapped.1 := by
    rintro ⟨p, hp⟩
    rw [hp] at hvalue
    cases hvalue
  obtain ⟨hresult, hprinted, -, -, hbindings⟩ :=
    hblock s ss t {} (hreached start _ (.inr rfl)) hroom
  exact ⟨hresult, hprinted, hbindings⟩

end Scriptlet
