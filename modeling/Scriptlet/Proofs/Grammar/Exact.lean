import Scriptlet.Proofs.Grammar.Derivable
import Scriptlet.Proofs.Grammar.Recovery

/-!
# Derivations are exactly what is read

Whatever has a derivation is read by the parsers, in the same room. There is one lemma
for each rule, about any parsers that it may call which give what has a derivation; they
stand beside those of `Derivable`, in the same order. A loop comes to its end because each
of its rounds consumes a token, so that the bound on its rounds is never met.
-/

namespace Scriptlet.Grammar

open Scriptlet.Parser

variable {room : Nat} {call within : Rule → Parser Node} {s m s' : State} {n : Node}

/-- Together with what was consumed, what remains does not grow. -/
theorem remaining_add_consumed (h : Moves s s') :
    s'.remaining + s'.consumed ≤ s.remaining + s.consumed := by
  induction h with
  | refl => exact Nat.le_refl _
  | fault f p _ ih => exact ih
  | @advance m _ ih =>
    by_cases hk : m.current.kind = .eof
    · rwa [State.advance, if_pos hk]
    · have hlt := State.remaining_advance m hk
      rw [consumed_advance hk]
      omega

theorem remaining_lt (h : Moves s s') (hconsumed : s.consumed < s'.consumed) :
    s'.remaining < s.remaining := by
  have hle := remaining_add_consumed h
  omega

/-- A token is consumed before the moves. -/
theorem remaining_lt_of_advance (h : Moves s.advance s') (hk : s.current.kind ≠ .eof) :
    s'.remaining < s.remaining := by
  have hle := consumed_le h
  rw [consumed_advance hk] at hle
  exact remaining_lt (.of_advance h) hle

/-- A token is consumed behind the moves. -/
theorem remaining_advance_lt (h : Moves s m) (hk : m.current.kind ≠ .eof) :
    m.advance.remaining < s.remaining := by
  have hle := consumed_le h
  refine remaining_lt (.advance h) ?_
  rw [consumed_advance hk]
  exact Nat.lt_succ_of_le hle

/-- Where nothing was consumed, the same token is the current one. -/
theorem current_of_consumed_eq (h : Moves s s') (hconsumed : s'.consumed = s.consumed) :
    s'.current = s.current := by
  induction h with
  | refl => rfl
  | fault f p _ ih => exact ih hconsumed
  | @advance m h ih =>
    by_cases hk : m.current.kind = .eof
    · rw [State.advance, if_pos hk] at hconsumed ⊢
      exact ih hconsumed
    · have hle := consumed_le h
      rw [consumed_advance hk] at hconsumed
      omega

/-- After a statement something is consumed, by the statement or instead of it. -/
theorem consumed_moveOn (h : Moves s m) (hk : s.current.kind ≠ .eof) :
    s.consumed < (moveOn s.consumed m).consumed := by
  have hle := consumed_le h
  rw [moveOn]
  split
  · next heq =>
    have hcurrent := current_of_consumed_eq h heq
    rw [consumed_advance (by rwa [hcurrent])]
    omega
  · omega

section Loops

variable {α β : Type} {step : α → Parser (α ⊕ β)} {a a' : α} {b : β} {k : Nat}

theorem gives_stop (h : (step a).Gives s (.inr b) s') :
    (iterateUpTo step (k + 1) a).Gives s b s' :=
  (gives_bind ..).mpr ⟨_, _, h, (gives_pure ..).mpr ⟨rfl, rfl⟩⟩

theorem gives_again (h : (step a).Gives s (.inl a') m)
    (hrest : (iterateUpTo step k a').Gives m b s') :
    (iterateUpTo step (k + 1) a).Gives s b s' :=
  (gives_bind ..).mpr ⟨_, _, h, hrest⟩

/-- What a loop gives in more rounds than tokens remain. -/
def Loops (step : α → Parser (α ⊕ β)) (a : α) (s : State) (b : β) (s' : State) : Prop :=
  ∀ k, s.remaining < k → (iterateUpTo step k a).Gives s b s'

theorem Loops.stop (h : (step a).Gives s (.inr b) s') : Loops step a s b s' := by
  intro k hk
  cases k with
  | zero => omega
  | succ k => exact gives_stop h

theorem Loops.again (h : (step a).Gives s (.inl a') m) (hless : m.remaining < s.remaining)
    (hrest : Loops step a' m b s') : Loops step a s b s' := by
  intro k hk
  cases k with
  | zero => omega
  | succ k => exact gives_again h (hrest k (by omega))

theorem Loops.gives (h : Loops step a s b s') : (iterate step a).Gives s b s' :=
  (gives_get_bind _).mpr (h _ (Nat.lt_succ_self _))

end Loops

/-- Whatever has a derivation is given by the parsers. -/
def Serves (room : Nat) (call : Rule → Parser Node) : Prop :=
  ∀ rule s n s', Reads room (.rule rule) s (.node n) s' → (call rule).Gives s n s'

/-- A result that is returned right away. -/
theorem gives_map {α β : Type} {p : Parser α} {f : α → β} {a : α} (h : p.Gives s a s') :
    (p >>= fun a => pure (f a)).Gives s (f a) s' :=
  (gives_bind ..).mpr ⟨a, s', h, (gives_pure ..).mpr ⟨rfl, rfl⟩⟩

theorem gives_return {α : Type} (a : α) (s : State) : (pure a : Parser α).Gives s a s :=
  (gives_pure ..).mpr ⟨rfl, rfl⟩

theorem gives_complaint (what : String) (s : State) :
    (expected what).Gives s (s.expected what).1 (s.expected what).2 :=
  (gives_expected ..).mpr ⟨rfl, rfl⟩

section Branches

variable {α : Type} {kind : Token.Kind} {p q : Parser α} {a : α}

theorem gives_acceptThen (hk : s.current.kind = kind) (h : p.Gives s.advance a s') :
    (acceptKind kind >>= fun b => if b = true then p else q).Gives s a s' := by
  rw [gives_acceptKind_bind, decide_eq_true hk, State.skip, if_pos hk]
  exact h

theorem gives_acceptElse (hk : s.current.kind ≠ kind) (h : q.Gives s a s') :
    (acceptKind kind >>= fun b => if b = true then p else q).Gives s a s' := by
  rw [gives_acceptKind_bind, decide_eq_false hk, State.skip, if_neg hk]
  exact h

theorem gives_demanded (hk : s.current.kind = kind) (h : q.Gives s.advance a s') :
    (acceptKind kind >>= fun b => if (!b) = true then p else q).Gives s a s' := by
  rw [gives_acceptKind_bind, decide_eq_true hk, State.skip, if_pos hk]
  exact h

theorem gives_missed (hk : s.current.kind ≠ kind) (h : p.Gives s a s') :
    (acceptKind kind >>= fun b => if (!b) = true then p else q).Gives s a s' := by
  rw [gives_acceptKind_bind, decide_eq_false hk, State.skip, if_neg hk]
  exact h

theorem gives_checkThen (hk : s.current.kind = kind) (h : p.Gives s a s') :
    (check [kind] >>= fun b => if b = true then p else q).Gives s a s' := by
  rw [gives_checkKind_bind, decide_eq_true hk]
  exact h

theorem gives_checkElse (hk : s.current.kind ≠ kind) (h : q.Gives s a s') :
    (check [kind] >>= fun b => if b = true then p else q).Gives s a s' := by
  rw [gives_checkKind_bind, decide_eq_false hk]
  exact h

end Branches

theorem gives_statement (hcall : Serves room call)
    (h : Reads (room + 1) (.rule .statement) s (.node n) s') :
    (statement call).Gives s n s' := by
  rw [statement, gives_currentKind_bind]
  cases h with
  | bindingStatement hk h =>
    rw [hk]
    exact hcall _ _ _ _ h
  | returnStatement hk h =>
    rw [hk]
    exact hcall _ _ _ _ h
  | expressionStatement hlet hreturn h =>
    split
    · next hk => exact absurd hk hlet
    · next hk => exact absurd hk hreturn
    · exact hcall _ _ _ _ h
  | chainless hlevel => cases hlevel
  | rightChain hlevel => cases hlevel

theorem gives_binding (hcall : Serves room call)
    (h : Reads (room + 1) (.rule .binding) s (.node n) s') :
    (letBinding call).Gives s n s' := by
  rw [letBinding, parameter]
  simp only [gives_advance_bind, bind_assoc, gives_acceptKind_bind, gives_accept_bind]
  cases h with
  | unnamed hk hm hname =>
    have hskip : (s.advance.skip .kwMut).skip .identifier = s.advance.skip .kwMut :=
      if_neg (hm ▸ hname)
    rw [if_neg (hm ▸ hname), hskip, hm]
    simp only [bind_assoc, pure_bind]
    exact gives_map (f := id) (gives_complaint _ _)
  | unassigned hk hm hname hassign =>
    have hskip : (s.advance.skip .kwMut).skip .identifier = (s.advance.skip .kwMut).advance :=
      if_pos (hm ▸ hname)
    rw [if_pos (hm ▸ hname), hskip, hm]
    exact gives_missed hassign (gives_complaint _ _)
  | binding hk hm hname hassign hv =>
    have hskip : (s.advance.skip .kwMut).skip .identifier = (s.advance.skip .kwMut).advance :=
      if_pos (hm ▸ hname)
    rw [if_pos (hm ▸ hname), hskip, hm]
    exact gives_demanded hassign (gives_map (hcall _ _ _ _ hv))
  | chainless hlevel => cases hlevel
  | rightChain hlevel => cases hlevel

theorem gives_giveBack (hcall : Serves room call)
    (h : Reads (room + 1) (.rule .giveBack) s (.node n) s') :
    (returnStatement call).Gives s n s' := by
  rw [returnStatement, gives_advance_bind, gives_check_bind]
  cases h with
  | bareReturn hk hbare =>
    rw [if_pos hbare]
    exact gives_return _ _
  | returnOf hk hbare hv =>
    rw [hbare, if_neg Bool.false_ne_true]
    exact gives_map (hcall _ _ _ _ hv)
  | chainless hlevel => cases hlevel
  | rightChain hlevel => cases hlevel

theorem gives_assignment (hcall : Serves room call)
    (h : Reads (room + 1) (.rule .assignment) s (.node n) s') :
    (assign call).Gives s n s' := by
  -- Behind the two sides it is looked at what the left one is.
  have judged {l r : Node} {m m' : State} {op : AssignOp}
      (hl : Reads room (.rule .disjunction) s (.node l) m)
      (hop : assignOp? m.current.kind = some op)
      (hr : Reads room (.rule .assignment) m.advance (.node r) m')
      (h : (do
        if l.isError then return l
        if l.kind ≠ .identifier then return ← fault .invalidTarget l.position
        return .make .assign l.position (.text op.name) [l, r] : Parser Node).Gives m' n s') :
      (assign call).Gives s n s' := by
    refine (gives_bind ..).mpr ⟨l, m, hcall _ _ _ _ hl, ?_⟩
    rw [gives_currentKind_bind, hop]
    dsimp only
    rw [gives_discard_bind]
    exact (gives_bind ..).mpr ⟨r, m', hcall _ _ _ _ hr, h⟩
  cases h with
  | unassigning hl hop =>
    refine (gives_bind ..).mpr ⟨_, _, hcall _ _ _ _ hl, ?_⟩
    rw [gives_currentKind_bind, hop]
    exact gives_return _ _
  | assignment hl hop hr he hkind =>
    refine judged hl hop hr ?_
    rw [he, if_neg Bool.false_ne_true, if_neg (Decidable.not_not.mpr hkind)]
    exact gives_return _ _
  | assignmentToError hl hop hr he =>
    refine judged hl hop hr ?_
    rw [if_pos he]
    exact gives_return _ _
  | invalidTarget hl hop hr he hkind =>
    refine judged hl hop hr ?_
    rw [he, if_neg Bool.false_ne_true, if_pos hkind]
    exact (gives_fault ..).mpr ⟨rfl, rfl⟩
  | chainless hlevel => cases hlevel
  | rightChain hlevel => cases hlevel

theorem loops_chain {joint : Token.Kind} {op : BinaryOp} {tighter : Rule} {l : Node}
    (hcall : Serves room call) (hjoint : joint ≠ .eof)
    (h : Reads room (.chain joint op tighter l) s (.node n) s') :
    Loops (chainStep joint op (call tighter)) l s n s' := by
  generalize htask : Task.chain joint op tighter l = task at h
  generalize hy : Yield.node n = y at h
  induction h generalizing l with
  | chainEnd hk =>
    cases htask
    cases hy
    exact .stop (gives_acceptElse hk (gives_return _ _))
  | chainLink hk hr hrest _ ih =>
    cases htask
    refine .again (gives_acceptThen hk (gives_map (hcall _ _ _ _ hr))) ?_ (ih hcall rfl hy)
    exact remaining_lt_of_advance (.of_reads hr) (hk ▸ hjoint)
  | _ => cases htask

theorem gives_disjunction (hcall : Serves room call)
    (h : Reads (room + 1) (.rule .disjunction) s (.node n) s') :
    (leftChain .kwOr .or (call .conjunction)).Gives s n s' := by
  cases h with
  | disjunction hl hrest =>
    exact (gives_bind ..).mpr ⟨_, _, hcall _ _ _ _ hl, (loops_chain hcall (by decide) hrest).gives⟩
  | chainless hlevel => cases hlevel
  | rightChain hlevel => cases hlevel

theorem gives_conjunction (hcall : Serves room call)
    (h : Reads (room + 1) (.rule .conjunction) s (.node n) s') :
    (leftChain .kwAnd .and (call .equality)).Gives s n s' := by
  cases h with
  | conjunction hl hrest =>
    exact (gives_bind ..).mpr ⟨_, _, hcall _ _ _ _ hl, (loops_chain hcall (by decide) hrest).gives⟩
  | chainless hlevel => cases hlevel
  | rightChain hlevel => cases hlevel

theorem RightLevel.unique {rule tighter tighter' : Rule}
    {op? op?' : Token.Kind → Option BinaryOp} (h : RightLevel rule op? tighter)
    (h' : RightLevel rule op?' tighter') : op?' = op? ∧ tighter' = tighter := by
  cases h <;> cases h' <;> exact ⟨rfl, rfl⟩

/-- The ways through a level that associates to the right, that of equality apart. -/
theorem Reads.rightLevel {rule tighter : Rule} {op? : Token.Kind → Option BinaryOp}
    (hlevel : RightLevel rule op? tighter) (hrule : rule ≠ .equality)
    (h : Reads (room + 1) (.rule rule) s (.node n) s') :
    (Reads room (.rule tighter) s (.node n) s' ∧ op? s'.current.kind = none) ∨
      ∃ l m op r, Reads room (.rule tighter) s (.node l) m ∧ op? m.current.kind = some op ∧
        Reads room (.rule rule) m.advance (.node r) s' ∧ n = binaryNode op l r := by
  generalize htask : Task.rule rule = task at h
  cases h with
  | chainless hlevel' hl hop =>
    cases htask
    obtain ⟨rfl, rfl⟩ := hlevel.unique hlevel'
    exact .inl ⟨hl, hop⟩
  | rightChain hlevel' hl hop hr =>
    cases htask
    obtain ⟨rfl, rfl⟩ := hlevel.unique hlevel'
    exact .inr ⟨_, _, _, _, hl, hop, hr, rfl⟩
  | notMember | notAlone =>
    cases htask
    exact absurd rfl hrule
  | _ =>
    cases htask
    try cases hlevel

theorem gives_rightChain {rule tighter : Rule} {op? : Token.Kind → Option BinaryOp}
    (hcall : Serves room call) (hlevel : RightLevel rule op? tighter) (hrule : rule ≠ .equality)
    (h : Reads (room + 1) (.rule rule) s (.node n) s') :
    (rightChain op? (call tighter) (call rule)).Gives s n s' := by
  obtain ⟨hl, hop⟩ | ⟨l, m, op, r, hl, hop, hr, rfl⟩ := h.rightLevel hlevel hrule
  · refine (gives_bind ..).mpr ⟨_, _, hcall _ _ _ _ hl, ?_⟩
    rw [gives_currentKind_bind, hop]
    exact gives_return _ _
  · refine (gives_bind ..).mpr ⟨_, _, hcall _ _ _ _ hl, ?_⟩
    rw [gives_currentKind_bind, hop]
    dsimp only
    rw [gives_discard_bind]
    exact gives_map (hcall _ _ _ _ hr)

theorem gives_equality (hcall : Serves room call)
    (h : Reads (room + 1) (.rule .equality) s (.node n) s') :
    (equalityChain call).Gives s n s' := by
  -- What follows an operator of one word, and the second word of `not in`.
  have complete (op : BinaryOp) {l r : Node} {m : State}
      (hr : Reads room (.rule .equality) m.advance (.node r) s') :
      (equalityChain.complete call l op).Gives m (binaryNode op l r) s' := by
    rw [equalityChain.complete, gives_discard_bind]
    exact gives_map (hcall _ _ _ _ hr)
  rw [equalityChain]
  cases h with
  | chainless hlevel hl hop hnot =>
    obtain ⟨rfl, rfl⟩ := RightLevel.equality.unique hlevel
    refine (gives_bind ..).mpr ⟨_, _, hcall _ _ _ _ hl, ?_⟩
    rw [gives_currentKind_bind]
    have hnot := hnot rfl
    dsimp only at hop
    split
    · next hk => simp [hk] at hop
    · next hk => simp [hk] at hop
    · next hk => simp [hk] at hop
    · next hk => exact absurd hk hnot
    · exact gives_return _ _
  | rightChain hlevel hl hop hr =>
    obtain ⟨rfl, rfl⟩ := RightLevel.equality.unique hlevel
    refine (gives_bind ..).mpr ⟨_, _, hcall _ _ _ _ hl, ?_⟩
    rw [gives_currentKind_bind]
    dsimp only at hop
    split at hop
    · next hk =>
      cases hop
      rw [hk]
      exact complete _ hr
    · next hk =>
      cases hop
      rw [hk]
      exact complete _ hr
    · next hk =>
      cases hop
      rw [hk]
      exact complete _ hr
    · cases hop
  | notMember hl hk hin hr =>
    refine (gives_bind ..).mpr ⟨_, _, hcall _ _ _ _ hl, ?_⟩
    rw [gives_currentKind_bind, hk]
    dsimp only
    rw [gives_discard_bind]
    exact gives_checkThen hin (complete _ hr)
  | notAlone hl hk hin =>
    refine (gives_bind ..).mpr ⟨_, _, hcall _ _ _ _ hl, ?_⟩
    rw [gives_currentKind_bind, hk]
    dsimp only
    rw [gives_discard_bind]
    exact gives_checkElse hin (gives_complaint _ _)

theorem gives_prefixed (hcall : Serves room call)
    (h : Reads (room + 1) (.rule .prefixed) s (.node n) s') :
    (prefixOperators call).Gives s n s' := by
  rw [prefixOperators, gives_current_bind]
  cases h with
  | unprefixed hop h =>
    rw [hop]
    exact hcall _ _ _ _ h
  | prefixed hop h =>
    rw [hop]
    dsimp only
    rw [gives_discard_bind]
    exact gives_map (hcall _ _ _ _ h)
  | chainless hlevel => cases hlevel
  | rightChain hlevel => cases hlevel

theorem loops_items {closing : Token.Kind} {glyph : String} {read : List Node} {comma : Bool}
    {y : Yield} (hcall : Serves room call)
    (h : Reads room (.items closing glyph read comma) s y s') :
    ∃ r, y = yieldOfItems r ∧
      Loops (itemsStep (call .expression) closing glyph) (read, comma) s r s' := by
  -- Behind an item that is none of the faults stands a comma or the end of the list.
  have behind {room : Nat} {s m s' : State} {item : Node} {read : List Node} {comma : Bool}
      {r : (List Node × Bool) ⊕ Except Node (List Node × Bool)} (hcall : Serves room call)
      (hk : s.current.kind ≠ closing) (hitem : Reads room (.rule .expression) s (.node item) m)
      (he : item.isError = false)
      (h : (do
        if ← acceptKind .comma then return .inl (read ++ [item], true)
        finishItems closing glyph (read ++ [item]) comma :
          Parser ((List Node × Bool) ⊕ Except Node (List Node × Bool))).Gives m r s') :
      (itemsStep (call .expression) closing glyph (read, comma)).Gives s r s' := by
    refine gives_checkElse hk ((gives_bind ..).mpr ⟨item, m, hcall _ _ _ _ hitem, ?_⟩)
    rw [he, if_neg Bool.false_ne_true]
    exact h
  generalize htask : Task.items closing glyph read comma = task at h
  induction h generalizing read comma with
  | itemsEnd hk =>
    cases htask
    refine ⟨.ok (_, _), rfl, .stop (gives_checkThen hk ?_)⟩
    exact gives_acceptThen hk (gives_return _ _)
  | badItem hk hitem he =>
    cases htask
    refine ⟨.error _, rfl, .stop (gives_checkElse hk ?_)⟩
    refine (gives_bind ..).mpr ⟨_, _, hcall _ _ _ _ hitem, ?_⟩
    rw [if_pos he]
    exact gives_return _ _
  | item hk hitem he hcomma hrest _ ih =>
    cases htask
    obtain ⟨r, hy, hloops⟩ := ih hcall rfl
    refine ⟨r, hy, .again (behind hcall hk hitem he (gives_acceptThen hcomma ?_)) ?_ hloops⟩
    · exact gives_return (Sum.inl _) _
    · exact remaining_advance_lt (.of_reads hitem) (by simp [hcomma])
  | lastItem hk hitem he hcomma hclosing =>
    cases htask
    refine ⟨.ok (_, _), rfl, .stop (behind hcall hk hitem he (gives_acceptElse hcomma ?_))⟩
    exact gives_acceptThen hclosing (gives_return _ _)
  | openItems hk hitem he hcomma hclosing =>
    cases htask
    refine ⟨.error _, rfl, .stop (behind hcall hk hitem he (gives_acceptElse hcomma ?_))⟩
    exact gives_acceptElse hclosing (gives_map (gives_complaint _ _))
  | _ => cases htask

theorem gives_items {closing : Token.Kind} {glyph : String} {y : Yield}
    (hcall : Serves room call) (h : Reads room (.items closing glyph [] false) s y s') :
    ∃ r, y = yieldOfItems r ∧ (items (call .expression) closing glyph).Gives s r s' := by
  obtain ⟨r, hy, hloops⟩ := loops_items hcall h
  exact ⟨r, hy, hloops.gives⟩

theorem gives_items_ok {closing : Token.Kind} {glyph : String} {read : List Node} {comma : Bool}
    (hcall : Serves room call)
    (h : Reads room (.items closing glyph [] false) s (.items read comma) s') :
    (items (call .expression) closing glyph).Gives s (.ok (read, comma)) s' := by
  obtain ⟨r, hy, hgives⟩ := gives_items hcall h
  cases r with
  | ok r =>
    cases hy
    exact hgives
  | error e => cases hy

theorem gives_items_error {closing : Token.Kind} {glyph : String} {e : Node}
    (hcall : Serves room call) (h : Reads room (.items closing glyph [] false) s (.node e) s') :
    (items (call .expression) closing glyph).Gives s (.error e) s' := by
  obtain ⟨r, hy, hgives⟩ := gives_items hcall h
  cases r with
  | ok r => cases hy
  | error e' =>
    cases hy
    exact hgives

theorem loops_applications {first : Node} (hcall : Serves room call)
    (hwithin : Serves (room - 1) within)
    (h : Reads room (.applications first) s (.node n) s') :
    Loops (applicationsStep call within) first s n s' := by
  -- Behind the index stands its end, unless the index is an error.
  have bracketed {room : Nat} {first i : Node} {s m s' : State} {r : Node ⊕ Node}
      (hcall : Serves room call) (hk : s.current.kind = .leftBracket)
      (hi : Reads room (.rule .expression) s.advance (.node i) m)
      (h : (do
        if i.isError then return .inr i
        if !(← acceptKind .rightBracket) then return .inr (← expected "`]`")
        return .inl (.make .index first.position .absent [first, i]) :
          Parser (Node ⊕ Node)).Gives m r s') :
      (applicationsStep call within first).Gives s r s' := by
    refine gives_acceptElse (by simp [hk]) (gives_acceptThen hk ?_)
    exact (gives_bind ..).mpr ⟨i, m, hcall _ _ _ _ hi, h⟩
  generalize htask : Task.applications first = task at h
  generalize hy : Yield.node n = y at h
  induction h generalizing first with
  | applicationsEnd hparen hbracket =>
    cases htask
    cases hy
    exact .stop (gives_acceptElse hparen (gives_acceptElse hbracket (gives_return _ _)))
  | call hk hitems hrest _ ih =>
    cases htask
    have hread := gives_items_ok hwithin hitems
    refine .again (gives_acceptThen hk ((gives_bind ..).mpr ⟨_, _, hread, ?_⟩)) ?_
      (ih hcall hwithin rfl hy)
    · exact gives_return (Sum.inl _) _
    · exact remaining_lt_of_advance (.of_reads hitems) (by simp [hk])
  | badCall hk hitems =>
    cases htask
    cases hy
    have hread := gives_items_error hwithin hitems
    refine .stop (gives_acceptThen hk ((gives_bind ..).mpr ⟨_, _, hread, ?_⟩))
    exact gives_return (Sum.inr _) _
  | index hk hi he hclosed hrest _ ih =>
    cases htask
    refine .again (bracketed hcall hk hi ?_) ?_ (ih hcall hwithin rfl hy)
    · rw [he, if_neg Bool.false_ne_true]
      exact gives_demanded hclosed (gives_return (Sum.inl _) _)
    · exact remaining_lt_of_advance (.advance (.of_reads hi)) (by simp [hk])
  | badIndex hk hi he =>
    cases htask
    cases hy
    refine .stop (bracketed hcall hk hi ?_)
    rw [if_pos he]
    exact gives_return (Sum.inr _) _
  | openIndex hk hi he hclosed =>
    cases htask
    cases hy
    refine .stop (bracketed hcall hk hi ?_)
    rw [he, if_neg Bool.false_ne_true]
    exact gives_missed hclosed (gives_map (gives_complaint _ _))
  | _ => cases htask

theorem gives_applied (hcall : Serves room call) (hwithin : Serves (room - 1) within)
    (h : Reads (room + 1) (.rule .applied) s (.node n) s') :
    (applications call within).Gives s n s' := by
  cases h with
  | unapplied hn hend =>
    refine (gives_bind ..).mpr ⟨_, _, hcall _ _ _ _ hn, ?_⟩
    rw [endsOperand] at hend
    rw [if_pos hend]
    exact gives_return _ _
  | applied hn hend hrest =>
    refine (gives_bind ..).mpr ⟨_, _, hcall _ _ _ _ hn, ?_⟩
    rw [endsOperand] at hend
    rw [hend, if_neg Bool.false_ne_true]
    exact (loops_applications hcall hwithin hrest).gives
  | chainless hlevel => cases hlevel
  | rightChain hlevel => cases hlevel

theorem gives_leaf (h : Leaf s.current n) : (primary call).Gives s n s.advance := by
  rw [primary, gives_current_bind]
  cases h with
  | integer hk hn =>
    rw [hk]
    dsimp only
    rw [gives_discard_bind, hn]
    exact gives_return _ _
  | float hk hx =>
    rw [hk]
    dsimp only
    rw [gives_discard_bind, hx]
    exact gives_return _ _
  | string hk | true hk | false hk | identifier hk =>
    rw [hk]
    dsimp only
    rw [gives_discard_bind]
    exact gives_return _ _

theorem gives_refused {f : SyntaxFault} (h : Refused s.current f) :
    (primary call).Gives s (s.advance.fault f s.current.position).1
      (s.advance.fault f s.current.position).2 := by
  rw [primary, gives_current_bind]
  cases h with
  | integer hk hf | float hk hf =>
    rw [hk]
    dsimp only
    rw [gives_discard_bind, hf]
    exact (gives_fault ..).mpr ⟨rfl, rfl⟩
  | function hk =>
    rw [hk]
    dsimp only
    rw [gives_discard_bind]
    exact (gives_fault ..).mpr ⟨rfl, rfl⟩

theorem gives_compound {rule : Rule} (hrule : opened? s.current.kind = some rule)
    (h : (call rule).Gives s n s') : (primary call).Gives s n s' := by
  rw [primary, gives_current_bind]
  unfold opened? at hrule
  split at hrule
  case h_6 => cases hrule
  all_goals
    next hk =>
    cases hrule
    rw [hk]
    exact h

theorem gives_operand (hcall : Serves room call)
    (h : Reads (room + 1) (.rule .operand) s (.node n) s') : (primary call).Gives s n s' := by
  cases h with
  | leaf h => exact gives_leaf h
  | refused h => exact gives_refused h
  | invalidToken hk =>
    rw [primary, gives_current_bind, hk]
    dsimp only
    rw [gives_discard_bind]
    exact gives_return _ _
  | missing hk =>
    rw [primary, gives_current_bind]
    dsimp only
    split
    case h_14 => exact gives_complaint _ _
    all_goals next hkind => exact absurd (by simp [hkind, operandKinds]) hk
  | compound hrule h => exact gives_compound hrule (hcall _ _ _ _ h)
  | chainless hlevel => cases hlevel
  | rightChain hlevel => cases hlevel

theorem gives_group (hwithin : Serves (room - 1) within)
    (h : Reads (room + 1) (.rule .group) s (.node n) s') :
    (parenthesized within).Gives s n s' := by
  rw [parenthesized, gives_advance_bind]
  cases h with
  | unit hk hempty => exact gives_acceptThen hempty (gives_return _ _)
  | grouped hk hempty hitems =>
    refine gives_acceptElse hempty ?_
    exact (gives_bind ..).mpr ⟨_, _, gives_items_ok hwithin hitems, gives_return _ _⟩
  | @tuple _ _ read comma _ hk hempty hitems hone =>
    refine gives_acceptElse hempty ((gives_bind ..).mpr ⟨_, _, gives_items_ok hwithin hitems, ?_⟩)
    split
    · next heq => cases heq
    · next item heq =>
      cases heq
      cases hone rfl
    · next heq =>
      cases heq
      exact gives_return _ _
  | badGroup hk hempty hitems =>
    refine gives_acceptElse hempty ?_
    exact (gives_bind ..).mpr ⟨_, _, gives_items_error hwithin hitems, gives_return _ _⟩
  | chainless hlevel => cases hlevel
  | rightChain hlevel => cases hlevel

theorem gives_array (hwithin : Serves (room - 1) within)
    (h : Reads (room + 1) (.rule .array) s (.node n) s') :
    (bracketed within).Gives s n s' := by
  rw [bracketed, gives_advance_bind]
  cases h with
  | array hk hitems =>
    exact (gives_bind ..).mpr ⟨_, _, gives_items_ok hwithin hitems, gives_return _ _⟩
  | badArray hk hitems =>
    exact (gives_bind ..).mpr ⟨_, _, gives_items_error hwithin hitems, gives_return _ _⟩
  | chainless hlevel => cases hlevel
  | rightChain hlevel => cases hlevel

/-- The round of a list of statements that begins with a statement. -/
theorem gives_statementRound {closing : Token.Kind} {read : List Node} {item : Node}
    {r : List Node ⊕ (List Node × Option Node)} (hcall : Serves room call)
    (hend : [closing, .eof].contains s.current.kind = false)
    (hsemicolon : s.current.kind ≠ .semicolon)
    (hitem : Reads room (.rule .statement) s (.node item) m)
    (h : (do
      if ← acceptKind .semicolon then return .inl (read ++ [item])
      if ← check [closing] then return .inr (read, some item)
      if item.isError then
        synchronize closing
        return .inl (read ++ [item])
      if item.isBlockLike then return .inl (read ++ [item])
      return .inl (read ++ [item, ← expected "`;`"]) :
        Parser (List Node ⊕ (List Node × Option Node))).Gives (moveOn s.consumed m) r s') :
    (sequenceStep (call .statement) closing read).Gives s r s' := by
  rw [sequenceStep, gives_check_bind, hend, if_neg Bool.false_ne_true]
  refine gives_acceptElse hsemicolon ((gives_get_bind _).mpr ?_)
  refine (gives_bind ..).mpr ⟨item, m, hcall _ _ _ _ hitem, (gives_get_bind _).mpr ?_⟩
  by_cases hstuck : m.consumed = s.consumed
  · rw [moveOn, if_pos hstuck] at h
    rw [if_pos hstuck, gives_discard_bind]
    exact h
  · rw [moveOn, if_neg hstuck] at h
    rw [if_neg hstuck]
    exact h

theorem loops_sequence {closing : Token.Kind} {read complete : List Node} {last : Option Node}
    (hcall : Serves room call)
    (h : Reads room (.sequence closing read) s (.sequence complete last) s') :
    Loops (sequenceStep (call .statement) closing) read s (complete, last) s' := by
  -- A statement, or the token skipped instead of it, lowers what remains.
  have less {s m m' : State} {n : Node} {room : Nat}
      (hend : [closing, .eof].contains s.current.kind = false)
      (hitem : Reads room (.rule .statement) s (.node n) m)
      (hmoves : Moves (moveOn s.consumed m) m') : m'.remaining < s.remaining := by
    have hk : s.current.kind ≠ .eof := by
      intro heof
      simp [heof] at hend
    have hless := consumed_moveOn (.of_reads hitem) hk
    have hle := consumed_le hmoves
    refine remaining_lt (.trans (.moveOn _ (.of_reads hitem)) hmoves) ?_
    omega
  generalize htask : Task.sequence closing read = task at h
  generalize hy : Yield.sequence complete last = y at h
  induction h generalizing read with
  | sequenceEnd hend =>
    cases htask
    cases hy
    refine .stop ?_
    rw [sequenceStep, gives_check_bind, if_pos hend]
    exact gives_return _ _
  | separator hend hk hrest ih =>
    cases htask
    refine .again ?_ (remaining_lt_of_advance (.refl _) (by simp [hk])) (ih hcall rfl hy)
    rw [sequenceStep, gives_check_bind, hend, if_neg Bool.false_ne_true]
    exact gives_acceptThen hk (gives_return _ _)
  | terminated hend hk hitem hsemicolon hrest _ ih =>
    cases htask
    refine .again (gives_statementRound hcall hend hk hitem ?_) ?_ (ih hcall rfl hy)
    · exact gives_acceptThen hsemicolon (gives_return _ _)
    · exact less hend hitem (.advance (.refl _))
  | trailing hend hk hitem hsemicolon hclosing =>
    cases htask
    cases hy
    refine .stop (gives_statementRound hcall hend hk hitem (gives_acceptElse hsemicolon ?_))
    exact gives_checkThen hclosing (gives_return _ _)
  | recovered hend hk hitem hsemicolon hclosing he hrest _ ih =>
    cases htask
    refine .again (gives_statementRound hcall hend hk hitem (gives_acceptElse hsemicolon ?_)) ?_
      (ih hcall rfl hy)
    · refine gives_checkElse hclosing ?_
      rw [if_pos he, gives_synchronize_bind]
      exact gives_return _ _
    · exact less hend hitem (.synchronize _ _ (.refl _))
  | unterminated hend hk hitem hsemicolon hclosing he hblock hrest _ ih =>
    cases htask
    refine .again (gives_statementRound hcall hend hk hitem (gives_acceptElse hsemicolon ?_)) ?_
      (ih hcall rfl hy)
    · refine gives_checkElse hclosing ?_
      rw [he, if_neg Bool.false_ne_true, if_pos hblock]
      exact gives_return _ _
    · exact less hend hitem (.refl _)
  | unseparated hend hk hitem hsemicolon hclosing he hblock hrest _ ih =>
    cases htask
    refine .again (gives_statementRound hcall hend hk hitem (gives_acceptElse hsemicolon ?_)) ?_
      (ih hcall rfl hy)
    · refine gives_checkElse hclosing ?_
      rw [he, if_neg Bool.false_ne_true, hblock, if_neg Bool.false_ne_true]
      exact gives_map (gives_complaint _ _)
    · exact less hend hitem (.expected _ (.refl _))
  | _ => cases htask

theorem gives_sequence {closing : Token.Kind} {read : List Node} {last : Option Node}
    (hcall : Serves room call)
    (h : Reads room (.sequence closing []) s (.sequence read last) s') :
    (sequence (call .statement) closing).Gives s (read, last) s' :=
  Loops.gives (loops_sequence hcall h)

theorem gives_block (hwithin : Serves (room - 1) within)
    (h : Reads (room + 1) (.rule .block) s (.node n) s') : (braced within).Gives s n s' := by
  rw [braced, gives_advance_bind]
  cases h with
  | block hk hstatements hclosed =>
    refine (gives_bind ..).mpr ⟨_, _, gives_sequence hwithin hstatements, ?_⟩
    refine gives_demanded hclosed ((gives_pure ..).mpr ⟨?_, rfl⟩)
    split <;> rfl
  | openBlock hk hstatements hopen =>
    refine (gives_bind ..).mpr ⟨_, _, gives_sequence hwithin hstatements, ?_⟩
    exact gives_missed hopen (gives_complaint _ _)
  | chainless hlevel => cases hlevel
  | rightChain hlevel => cases hlevel

/-- Up to the block and behind it, a conditional is read alike with and without `else`. -/
theorem gives_choice {c t : Node} {m m' : State} (hcall : Serves room call)
    (hcondition : Reads room (.rule .expression) s.advance (.node c) m)
    (hce : c.isError = false) (hbrace : m.current.kind = .leftBrace)
    (hthen : Reads room (.rule .block) m (.node t) m')
    (h : (do
      if t.isError then return t
      let node := Node.make .conditional s.current.position .absent [c, t]
      if !(← acceptKind .kwElse) then return node
      let branch ←
        if ← check [.kwIf] then call .conditional
        else if ← check [.leftBrace] then call .block
        else return ← expected "`\x7b` or `if` after `else`"
      if branch.isError then return branch
      return { node with elseBranch := [branch] } : Parser Node).Gives m' n s') :
    (choice call).Gives s n s' := by
  rw [choice, gives_advance_bind]
  refine (gives_bind ..).mpr ⟨c, m, hcall _ _ _ _ hcondition, ?_⟩
  rw [hce, if_neg Bool.false_ne_true, gives_checkKind_bind, decide_eq_true hbrace,
    Bool.not_true, if_neg Bool.false_ne_true]
  exact (gives_bind ..).mpr ⟨t, m', hcall _ _ _ _ hthen, h⟩

/-- What stands behind `else`, and what becomes of it. -/
theorem gives_branch {rule : Rule} {k : Node → Parser Node} {e : Node}
    (hcall : Serves room call) (hrule : branch? s.current.kind = some rule)
    (h : Reads room (.rule rule) s (.node e) m) (hk : (k e).Gives m n s') :
    (do
      let conditional ← check [.kwIf]
      let block ← check [.leftBrace]
      if conditional then call .conditional >>= k
      else if block then call .block >>= k
      else expected "`\x7b` or `if` after `else`" : Parser Node).Gives s n s' := by
  have hread := (gives_bind (call rule) k s s' n).mpr ⟨e, m, hcall _ _ _ _ h, hk⟩
  rw [gives_checkKind_bind, gives_checkKind_bind]
  unfold branch? at hrule
  split at hrule
  · next hif =>
    cases hrule
    rw [decide_eq_true hif, if_pos rfl]
    exact hread
  · next hbrace =>
    cases hrule
    rw [decide_eq_false (by simp [hbrace]), if_neg Bool.false_ne_true, decide_eq_true hbrace,
      if_pos rfl]
    exact hread
  · cases hrule

theorem gives_conditional (hcall : Serves room call)
    (h : Reads (room + 1) (.rule .conditional) s (.node n) s') :
    (choice call).Gives s n s' := by
  cases h with
  | badCondition hk hc hce =>
    rw [choice, gives_advance_bind]
    refine (gives_bind ..).mpr ⟨_, _, hcall _ _ _ _ hc, ?_⟩
    rw [if_pos hce]
    exact gives_return _ _
  | noBlock hk hc hce hbrace =>
    rw [choice, gives_advance_bind]
    refine (gives_bind ..).mpr ⟨_, _, hcall _ _ _ _ hc, ?_⟩
    rw [hce, if_neg Bool.false_ne_true, gives_checkKind_bind, decide_eq_false hbrace,
      Bool.not_false, if_pos rfl]
    exact gives_complaint _ _
  | badBlock hk hc hce hbrace ht hte =>
    refine gives_choice hcall hc hce hbrace ht ?_
    rw [if_pos hte]
    exact gives_return _ _
  | ifThen hk hc hce hbrace ht hte helse =>
    refine gives_choice hcall hc hce hbrace ht ?_
    rw [hte, if_neg Bool.false_ne_true]
    exact gives_missed helse (gives_return _ _)
  | noBranch hk hc hce hbrace ht hte helse hnone =>
    refine gives_choice hcall hc hce hbrace ht ?_
    rw [hte, if_neg Bool.false_ne_true]
    refine gives_demanded helse ?_
    rw [gives_checkKind_bind, gives_checkKind_bind, decide_eq_false ?_,
      if_neg Bool.false_ne_true, decide_eq_false ?_, if_neg Bool.false_ne_true]
    · exact gives_complaint _ _
    · intro hblock
      simp [hblock, branch?] at hnone
    · intro hif
      simp [hif, branch?] at hnone
  | badBranch hk hc hce hbrace ht hte helse hrule he hee =>
    refine gives_choice hcall hc hce hbrace ht ?_
    rw [hte, if_neg Bool.false_ne_true]
    refine gives_demanded helse (gives_branch hcall hrule he ?_)
    dsimp only
    rw [if_pos hee]
    exact gives_return _ _
  | ifThenElse hk hc hce hbrace ht hte helse hrule he hee =>
    refine gives_choice hcall hc hce hbrace ht ?_
    rw [hte, if_neg Bool.false_ne_true]
    refine gives_demanded helse (gives_branch hcall hrule he ?_)
    dsimp only
    rw [hee, if_neg Bool.false_ne_true]
    exact gives_return _ _
  | chainless hlevel => cases hlevel
  | rightChain hlevel => cases hlevel

theorem serves_body (hcall : Serves room call) (hwithin : Serves (room - 1) within) :
    ∀ rule s n s', Reads (room + 1) (.rule rule) s (.node n) s' →
      (body call within rule).Gives s n s' := by
  intro rule s n s' h
  cases rule with
  | statement => exact gives_statement hcall h
  | binding => exact gives_binding hcall h
  | giveBack => exact gives_giveBack hcall h
  | expression =>
    cases h with
    | expression h => exact hcall _ _ _ _ h
    | chainless hlevel => cases hlevel
    | rightChain hlevel => cases hlevel
  | assignment => exact gives_assignment hcall h
  | disjunction => exact gives_disjunction hcall h
  | conjunction => exact gives_conjunction hcall h
  | equality => exact gives_equality hcall h
  | sum => exact gives_rightChain hcall .sum (by decide) h
  | product => exact gives_rightChain hcall .product (by decide) h
  | prefixed => exact gives_prefixed hcall h
  | applied => exact gives_applied hcall hwithin h
  | operand => exact gives_operand hcall h
  | group => exact gives_group hwithin h
  | array => exact gives_array hwithin h
  | block => exact gives_block hwithin h
  | conditional => exact gives_conditional hcall h

/-- Without room nothing has a derivation. -/
theorem serves_tooDeep : Serves 0 call := by
  intro rule s n s' h
  generalize hroom : 0 = room at h
  generalize htask : Task.rule rule = task at h
  cases h <;> cases hroom <;> cases htask

theorem serves_parse : (room : Nat) → Serves room (parse room)
  | 0 => serves_tooDeep
  | 1 => serves_body serves_tooDeep serves_tooDeep
  | room + 2 => serves_body (serves_parse (room + 1)) (serves_parse room)

/-- The statements that have a derivation are those that are read. -/
theorem statements_iff {closing : Token.Kind} {read : List Node} {last : Option Node} :
    (statements (room + 1) closing).Gives s (read, last) s' ↔
      Reads room (.sequence closing []) s (.sequence read last) s' :=
  ⟨reads_of_statements, gives_sequence (serves_parse room)⟩

end Scriptlet.Grammar
