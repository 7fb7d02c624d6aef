import Scriptlet.Proofs.Grammar.Correspondence

/-!
# No rule looks at positions

One lemma for each rule, about any parsers that it may call which do the same from
corresponding states. The induction on the room puts them together, so that whole programs
are read alike wherever their tokens lie and come from.
-/

namespace Scriptlet

namespace Grammar

open Scriptlet.Parser

variable {g : Position → Position} {call within : Rule → Parser Node}

/-- The parser of each rule does the same from all states that correspond. -/
def Blind (g : Position → Position) (call : Rule → Parser Node) : Prop :=
  ∀ rule, Mirrors g (Node.place g) (call rule) (call rule)

theorem mirrors_statement (hcall : Blind g call) :
    Mirrors g (Node.place g) (statement call) (statement call) := by
  refine mirrors_bind mirrors_currentKind fun k => ?_
  rw [id_eq]
  split <;> exact hcall _

/-- The name of a binding placed anew, or the error in its place. -/
def placeParameter (g : Position → Position) :
    Except Node (Bool × Token) → Except Node (Bool × Token)
  | .error e => .error (e.place g)
  | .ok (isMutable, name) => .ok (isMutable, name.place g)

theorem mirrors_parameter (g : Position → Position) :
    Mirrors g (placeParameter g) parameter parameter := by
  refine mirrors_bind (mirrors_acceptKind _) fun isMutable =>
    mirrors_bind (mirrors_accept _) fun r => ?_
  cases r with
  | none => exact mirrors_bind (mirrors_expected _) fun e => mirrors_pure rfl
  | some name => exact mirrors_pure rfl

theorem mirrors_binding (hcall : Blind g call) :
    Mirrors g (Node.place g) (letBinding call) (letBinding call) := by
  refine mirrors_bind mirrors_advance fun start => mirrors_bind (mirrors_parameter g) fun r => ?_
  rcases r with e | ⟨isMutable, name⟩
  · exact mirrors_pure rfl
  · refine mirrors_bind (mirrors_acceptKind _) fun assigned => ?_
    cases assigned with
    | false => exact mirrors_expected _
    | true =>
      refine mirrors_bind (hcall _) fun value => mirrors_pure ?_
      simp [Node.make, Node.place, Node.placeValue, Node.placeAll, Token.place]

theorem mirrors_giveBack (hcall : Blind g call) :
    Mirrors g (Node.place g) (returnStatement call) (returnStatement call) := by
  refine mirrors_bind mirrors_advance fun start => mirrors_bind (mirrors_check _) fun bare => ?_
  rw [id_eq]
  split
  · exact mirrors_pure (by simp [Node.placeValue, Token.place])
  · exact mirrors_bind (hcall _) fun n => mirrors_pure (by simp [Node.placeValue, Token.place])

theorem mirrors_assignment (hcall : Blind g call) :
    Mirrors g (Node.place g) (assign call) (assign call) := by
  refine mirrors_bind (hcall _) fun left => mirrors_bind mirrors_currentKind fun k => ?_
  rw [id_eq]
  split
  · exact mirrors_pure rfl
  · refine mirrors_bind mirrors_discard fun _ => mirrors_bind (hcall _) fun right => ?_
    simp only [Node.place_isError, Node.place_kind, Node.place_position]
    split
    · exact mirrors_pure rfl
    · split
      · exact mirrors_fault _ _
      · exact mirrors_pure (by simp [Node.placeValue])

theorem place_binaryNode (op : BinaryOp) (left right : Node) :
    (binaryNode op left right).place g = binaryNode op (left.place g) (right.place g) := by
  simp [binaryNode, Node.placeValue]

theorem mirrors_leftChain {joint : Token.Kind} (hjoint : joint ≠ .eof) (op : BinaryOp)
    {tighter : Parser Node} (htighter : Mirrors g (Node.place g) tighter tighter) :
    Mirrors g (Node.place g) (leftChain joint op tighter) (leftChain joint op tighter) := by
  refine mirrors_bind htighter fun left => mirrors_iterate (fun l s t hst => ?_) left
  refine rounds_acceptKind_bind hjoint (Nat.le_refl _) hst ?_ fun t hst => rounds_inr rfl hst
  exact mirrors_bind htighter fun right =>
    mirrors_pure (congrArg Sum.inl (place_binaryNode op l right).symm)

theorem mirrors_rightChain (op? : Token.Kind → Option BinaryOp) {tighter same : Parser Node}
    (htighter : Mirrors g (Node.place g) tighter tighter)
    (hsame : Mirrors g (Node.place g) same same) :
    Mirrors g (Node.place g) (rightChain op? tighter same) (rightChain op? tighter same) := by
  refine mirrors_bind htighter fun left => mirrors_bind mirrors_currentKind fun k => ?_
  rw [id_eq]
  split
  · exact mirrors_pure rfl
  · exact mirrors_bind mirrors_discard fun _ => mirrors_bind hsame fun right =>
      mirrors_pure (place_binaryNode _ left right).symm

theorem mirrors_equality (hcall : Blind g call) :
    Mirrors g (Node.place g) (equalityChain call) (equalityChain call) := by
  refine mirrors_bind (hcall _) fun left => mirrors_bind mirrors_currentKind fun k => ?_
  have complete (op : BinaryOp) : Mirrors g (Node.place g) (equalityChain.complete call left op)
      (equalityChain.complete call (left.place g) op) :=
    mirrors_bind mirrors_discard fun _ => mirrors_bind (hcall _) fun right =>
      mirrors_pure (place_binaryNode op left right).symm
  rw [id_eq]
  split
  · exact complete _
  · exact complete _
  · exact complete _
  · refine mirrors_bind mirrors_discard fun _ => mirrors_bind (mirrors_check _) fun found => ?_
    rw [id_eq]
    split
    · exact complete _
    · exact mirrors_expected _
  · exact mirrors_pure rfl

theorem mirrors_prefixed (hcall : Blind g call) :
    Mirrors g (Node.place g) (prefixOperators call) (prefixOperators call) := by
  refine mirrors_bind mirrors_current fun start => ?_
  simp only [Token.place]
  split
  · exact hcall _
  · exact mirrors_bind mirrors_discard fun _ => mirrors_bind (hcall _) fun n =>
      mirrors_pure (by simp [Node.placeValue])

/-- Items placed anew, or the error in their place. -/
def placeItems (g : Position → Position) :
    Except Node (List Node × Bool) → Except Node (List Node × Bool)
  | .error e => .error (e.place g)
  | .ok (read, comma) => .ok (read.map (Node.place g), comma)

/-- A round that is the last one. -/
theorem rounds_finishItems (closing : Token.Kind) (glyph : String) (read : List Node) (comma : Bool)
    {c : Nat} {s t : State} (hst : Corresponds g s t) :
    Rounds c g (Prod.map (List.map (Node.place g)) id) (placeItems g)
      (finishItems closing glyph read comma)
      (finishItems closing glyph (read.map (Node.place g)) comma) s t := by
  refine rounds_bind (mirrors_acceptKind closing s t hst) fun closed m m' _ _ hm => ?_
  cases closed with
  | true => exact rounds_inr rfl hm
  | false =>
    exact rounds_bind (mirrors_expected glyph m m' hm) fun e _ _ _ _ hm => rounds_inr rfl hm

theorem mirrors_items {expression : Parser Node} (closing : Token.Kind) (glyph : String)
    (hexpression : Mirrors g (Node.place g) expression expression) :
    Mirrors g (placeItems g) (items expression closing glyph) (items expression closing glyph) := by
  refine mirrors_iterate (f := Prod.map (List.map (Node.place g)) id) ?_ ([], false)
  rintro ⟨read, comma⟩ s t hst
  refine rounds_check_bind hst ?_
  split
  · exact rounds_finishItems closing glyph read comma hst
  · refine rounds_bind (hexpression s t hst) fun item m m' _ hmoves hm => ?_
    simp only [Node.place_isError]
    split
    · exact rounds_inr rfl hm
    · refine rounds_acceptKind_bind (by decide) (consumed_le hmoves) hm ?_
        fun m' hm => ?_
      · exact mirrors_pure (by simp)
      · simpa using rounds_finishItems closing glyph (read ++ [item]) comma hm

theorem mirrors_sequence {statement : Parser Node} (closing : Token.Kind)
    (hstatement : Mirrors g (Node.place g) statement statement) :
    Mirrors g (Prod.map (List.map (Node.place g)) (Option.map (Node.place g)))
      (sequence statement closing) (sequence statement closing) := by
  refine mirrors_iterate (f := List.map (Node.place g)) (fun read s t hst => ?_) []
  refine rounds_check_bind hst ?_
  split
  · exact rounds_inr rfl hst
  · next hstop =>
    have hs : s.current.kind ≠ .eof := fun heof => hstop (by simp [heof])
    refine rounds_acceptKind_bind (by decide) (Nat.le_refl _) hst (mirrors_pure rfl) fun t hst => ?_
    refine rounds_get_bind (rounds_bind (hstatement s t hst) fun n m m' _ hmoves hm => ?_)
    refine rounds_moveOn hs hst hmoves hm ?_
    refine mirrors_bind (mirrors_acceptKind _) fun terminated => ?_
    cases terminated with
    | true => exact mirrors_pure (by simp)
    | false =>
      refine mirrors_bind (mirrors_check _) fun trailing => ?_
      cases trailing with
      | true => exact mirrors_pure rfl
      | false =>
        simp only [id_eq, Bool.false_eq_true, if_false, Node.place_isError, Node.place_isBlockLike]
        split
        · exact mirrors_bind (mirrors_synchronize _) fun _ => mirrors_pure (by simp)
        · split
          · exact mirrors_pure (by simp)
          · exact mirrors_bind (mirrors_expected _) fun e => mirrors_pure (by simp)

theorem mirrors_applied (hcall : Blind g call) (hwithin : Blind g within) :
    Mirrors g (Node.place g) (applications call within) (applications call within) := by
  refine mirrors_bind (hcall _) fun first => ?_
  simp only [Node.place_isError, Node.place_isBlockLike, Node.place_kind]
  split
  · exact mirrors_pure rfl
  · refine mirrors_iterate (fun n s t hst => ?_) first
    refine rounds_acceptKind_bind (by decide) (Nat.le_refl _) hst ?_ fun t hst => ?_
    · refine mirrors_bind (mirrors_items _ _ (hwithin _)) fun r => ?_
      rcases r with e | ⟨read, comma⟩
      · exact mirrors_pure rfl
      · exact mirrors_pure (by simp [Node.placeValue])
    · refine rounds_acceptKind_bind (by decide) (Nat.le_refl _) hst ?_
        fun t hst => rounds_inr rfl hst
      refine mirrors_bind (hcall _) fun index => ?_
      simp only [Node.place_isError]
      split
      · exact mirrors_pure rfl
      · refine mirrors_bind (mirrors_acceptKind _) fun closed => ?_
        cases closed with
        | false => exact mirrors_bind (mirrors_expected _) fun e => mirrors_pure rfl
        | true => exact mirrors_pure (by simp [Node.placeValue])

theorem mirrors_operand (hcall : Blind g call) :
    Mirrors g (Node.place g) (primary call) (primary call) := by
  refine mirrors_bind mirrors_current fun t => ?_
  simp only [Token.place]
  split
  iterate 2
    · refine mirrors_bind mirrors_discard fun _ => ?_
      split
      · exact mirrors_pure (by simp [Node.placeValue])
      · exact mirrors_fault _ _
  iterate 4
    · exact mirrors_bind mirrors_discard fun _ => mirrors_pure (by simp [Node.placeValue])
  iterate 5
    · exact hcall _
  · exact mirrors_bind mirrors_discard fun _ => mirrors_fault _ _
  · exact mirrors_bind mirrors_discard fun _ => mirrors_pure rfl
  · exact mirrors_expected _

theorem mirrors_group (hwithin : Blind g within) :
    Mirrors g (Node.place g) (parenthesized within) (parenthesized within) := by
  refine mirrors_bind mirrors_advance fun start =>
    mirrors_bind (mirrors_acceptKind _) fun closed => ?_
  cases closed with
  | true => exact mirrors_pure (by simp [Node.placeValue, Token.place])
  | false =>
    refine mirrors_bind (mirrors_items _ _ (hwithin _)) fun r => ?_
    have tuple (read : List Node) : Mirrors g (Node.place g)
        (pure (.make .tuple start.position .absent read))
        (pure (.make .tuple (start.place g).position .absent (read.map (Node.place g)))) :=
      mirrors_pure (by simp [Node.placeValue, Token.place])
    rcases r with e | ⟨_ | ⟨item, _ | ⟨second, rest⟩⟩, _ | _⟩
    · exact mirrors_pure rfl
    · exact tuple []
    · exact tuple []
    · exact mirrors_pure rfl
    · exact tuple [item]
    · exact tuple (item :: second :: rest)
    · exact tuple (item :: second :: rest)

theorem mirrors_array (hwithin : Blind g within) :
    Mirrors g (Node.place g) (bracketed within) (bracketed within) := by
  refine mirrors_bind mirrors_advance fun start =>
    mirrors_bind (mirrors_items _ _ (hwithin _)) fun r => ?_
  rcases r with e | ⟨read, comma⟩
  · exact mirrors_pure rfl
  · exact mirrors_pure (by simp [Node.placeValue, Token.place])

theorem mirrors_block (hwithin : Blind g within) :
    Mirrors g (Node.place g) (braced within) (braced within) := by
  refine mirrors_bind mirrors_advance fun start =>
    mirrors_bind (mirrors_sequence _ (hwithin _)) fun r =>
      mirrors_bind (mirrors_acceptKind _) fun closed => ?_
  cases closed with
  | false => exact mirrors_expected _
  | true =>
    rcases r with ⟨read, last | n⟩ <;> exact mirrors_pure (by simp [Node.placeValue, Token.place])

theorem mirrors_conditional (hcall : Blind g call) :
    Mirrors g (Node.place g) (choice call) (choice call) := by
  refine mirrors_bind mirrors_advance fun start => mirrors_bind (hcall _) fun condition => ?_
  simp only [Node.place_isError]
  split
  · exact mirrors_pure rfl
  · refine mirrors_bind (mirrors_check _) fun opened => ?_
    cases opened with
    | false => exact mirrors_expected _
    | true =>
      refine mirrors_bind (hcall _) fun thenBlock => ?_
      have choose {branch : Parser Node} (hbranch : Mirrors g (Node.place g) branch branch) :
          Mirrors g (Node.place g)
            (do
              let branch ← branch
              if branch.isError then return branch
              return { Node.make .conditional start.position .absent [condition, thenBlock] with
                elseBranch := [branch] })
            (do
              let branch ← branch
              if branch.isError then return branch
              return { Node.make .conditional (start.place g).position .absent
                [condition.place g, thenBlock.place g] with elseBranch := [branch] }) := by
        refine mirrors_bind hbranch fun n => ?_
        simp only [Node.place_isError]
        split
        · exact mirrors_pure rfl
        · exact mirrors_pure rfl
      simp only [Node.place_isError]
      split
      · exact mirrors_pure rfl
      · refine mirrors_bind (mirrors_acceptKind _) fun more => ?_
        cases more with
        | false => exact mirrors_pure rfl
        | true =>
          refine mirrors_bind (mirrors_check _) fun isConditional =>
            mirrors_bind (mirrors_check _) fun isBlock => ?_
          cases isConditional with
          | true => exact choose (hcall _)
          | false =>
            cases isBlock with
            | true => exact choose (hcall _)
            | false => exact mirrors_expected _

theorem mirrors_body (hcall : Blind g call) (hwithin : Blind g within) :
    Blind g (body call within) := by
  intro rule
  cases rule with
  | statement => exact mirrors_statement hcall
  | binding => exact mirrors_binding hcall
  | giveBack => exact mirrors_giveBack hcall
  | expression => exact hcall _
  | assignment => exact mirrors_assignment hcall
  | disjunction => exact mirrors_leftChain (by decide) _ (hcall _)
  | conjunction => exact mirrors_leftChain (by decide) _ (hcall _)
  | equality => exact mirrors_equality hcall
  | sum => exact mirrors_rightChain _ (hcall _) (hcall _)
  | product => exact mirrors_rightChain _ (hcall _) (hcall _)
  | prefixed => exact mirrors_prefixed hcall
  | applied => exact mirrors_applied hcall hwithin
  | operand => exact mirrors_operand hcall
  | group => exact mirrors_group hwithin
  | array => exact mirrors_array hwithin
  | block => exact mirrors_block hwithin
  | conditional => exact mirrors_conditional hcall

/-- Whatever the room, no rule looks at positions. -/
theorem mirrors_parse (g : Position → Position) (room : Nat) : Blind g (parse room) := by
  induction room using Nat.twoStepInduction with
  | zero => exact fun _ => mirrors_tooDeep _
  | one => exact mirrors_body (fun _ => mirrors_tooDeep _) (fun _ => mirrors_tooDeep _)
  | more room ih ih' => exact mirrors_body ih' ih

theorem mirrors_statements (g : Position → Position) (room : Nat) (closing : Token.Kind) :
    Mirrors g (Prod.map (List.map (Node.place g)) (Option.map (Node.place g)))
      (statements room closing) (statements room closing) := by
  cases room with
  | zero => exact mirrors_tooDeep _
  | succ room => exact mirrors_sequence closing (mirrors_parse g room _)

theorem program_of_outcome {room : Nat} {s m : State}
    {r : Except Failure (List Node × Option Node)} :
    (statements (room - 1) .eof).outcome s = (r, m) →
      (program room).run s =
        match r with
        | .ok (complete, last) => (complete ++ last.toList, m)
        | .error _ => ([m.giveUp.1], m.giveUp.2) := by
  intro h
  have hrun : StateT.run (ExceptT.run (statements (room - 1) .eof)) s = (r, m) := h
  rw [program, StateT.run_bind, hrun]
  cases r <;> rfl

/-- Whole texts, also those for which there is no room. -/
theorem program_follows (room : Nat) {s t : State} (hst : Corresponds g s t) :
    Moves s ((program room).run s).2 ∧ Moves t ((program room).run t).2 ∧
      ((program room).run t).1 = ((program room).run s).1.map (Node.place g) ∧
      Corresponds g ((program room).run s).2 ((program room).run t).2 := by
  obtain ⟨hleft, hright, hresult, hstates⟩ := mirrors_statements g (room - 1) .eof s t hst
  rcases hs : (statements (room - 1) .eof).outcome s with ⟨r, m⟩
  rcases ht : (statements (room - 1) .eof).outcome t with ⟨r', m'⟩
  rw [hs] at hleft hresult hstates
  rw [ht] at hright hresult hstates
  rw [program_of_outcome hs, program_of_outcome ht]
  cases hresult
  rcases r with e | ⟨complete, last⟩
  · obtain ⟨hnode, hgaveUp⟩ := hstates.giveUp
    exact ⟨hleft.giveUp, hright.giveUp, congrArg (fun n => [n]) hnode, hgaveUp⟩
  · refine ⟨hleft, hright, ?_, hstates⟩
    cases last <;> simp

end Grammar

end Scriptlet
