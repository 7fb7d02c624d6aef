import Scriptlet.Proofs.Grammar.Derivable
import Scriptlet.Proofs.Grammar.Exact

/-!
# What a rule calls

Two parsers concur when both come to the same result from the same state; a first one that is
limited may be too deep for that, but nothing else. A rule whose callees concur concurs with
itself, and only the callees below it count: those that start behind further tokens, and those
that start where the rule does but stand lower on the ladder of the rules. There is one lemma for
each rule, and the loops have one for each kind of round.
-/

namespace Scriptlet

open Scriptlet.Grammar

namespace Parser

open ExceptT (outcome_bind)

variable {α β : Type} {s m : State}

/-- A token is skipped instead of a statement that consumed none. -/
theorem Later.moveOn (h : Moves s m) (hk : s.current.kind ≠ .eof) :
    Later s (Grammar.moveOn s.consumed m) :=
  ⟨.moveOn _ h, consumed_moveOn h hk⟩

/-- Both parsers come to the same result, which has the property. If the first one is limited,
it may be too deep instead. -/
def Concur (limited : Prop) (Q : α → State → Prop) (p q : Parser α) (s : State) : Prop :=
  (limited ∧ ∃ m, p.outcome s = (.error .tooDeep, m)) ∨
    ∃ a m, p.Gives s a m ∧ q.Gives s a m ∧ Moves s m ∧ Q a m

/-- Both parsers come to the same result. -/
def Same (limited : Prop) (p q : Parser α) (s : State) : Prop :=
  Concur limited (fun _ _ => True) p q s

variable {limited : Prop} {Q : β → State → Prop} {p q : Parser α} {k l : α → Parser β}

theorem concur_give {p q : Parser β} {b : β} (hp : p.Gives s b m) (hq : q.Gives s b m)
    (hm : Moves s m) (hQ : Q b m) : Concur limited Q p q s := .inr ⟨b, m, hp, hq, hm, hQ⟩

/-- Only what the parsers do in the state counts. -/
theorem Concur.congr {p q p' q' : Parser β} (h : Concur limited Q p q m) (hm : Moves s m)
    (hp : p'.outcome s = p.outcome m) (hq : q'.outcome s = q.outcome m) :
    Concur limited Q p' q' s := by
  rcases h with ⟨hlimited, m', hdeep⟩ | ⟨b, m', hpb, hqb, hm', hQ⟩
  · exact .inl ⟨hlimited, m', hp.trans hdeep⟩
  · exact concur_give (hp.trans hpb) (hq.trans hqb) (hm.trans hm') hQ

theorem Concur.bind {R : α → State → Prop} (hp : Concur limited R p q s)
    (hk : ∀ a m, Moves s m → R a m → Concur limited Q (k a) (l a) m) :
    Concur limited Q (p >>= k) (q >>= l) s := by
  rcases hp with ⟨hlimited, m, hdeep⟩ | ⟨a, m, hpa, hqa, hm, hR⟩
  · refine .inl ⟨hlimited, m, ?_⟩
    rw [outcome_bind, hdeep]
  · exact (hk a m hm hR).congr hm (outcome_bind_of_ok hpa) (outcome_bind_of_ok hqa)

theorem Same.bind (hp : Same limited p q s)
    (hk : ∀ a m, Moves s m → Concur limited Q (k a) (l a) m) :
    Concur limited Q (p >>= k) (q >>= l) s := Concur.bind hp fun a m hm _ => hk a m hm

/-- What the parsers come to is what the first one gives. -/
theorem Same.gives_left (h : Same limited p q s) :
    Concur limited (fun a m => p.Gives s a m) p q s := by
  rcases h with hdeep | ⟨a, m, hp, hq, hm, -⟩
  · exact .inl hdeep
  · exact concur_give hp hq hm hp

theorem Concur.mono {R : β → State → Prop} {p q : Parser β} (h : Concur limited R p q s)
    (hRQ : ∀ b m, Moves s m → R b m → Q b m) : Concur limited Q p q s := by
  rcases h with hdeep | ⟨b, m, hp, hq, hm, hR⟩
  · exact .inl hdeep
  · exact concur_give hp hq hm (hRQ b m hm hR)

theorem concur_pure {b : β} (hb : Q b s) : Concur limited Q (pure b) (pure b) s :=
  concur_give (gives_return b s) (gives_return b s) (.refl s) hb

theorem same_pure (a : α) (s : State) : Same limited (pure a : Parser α) (pure a) s :=
  concur_pure trivial

/-- Both begin with the same, which comes to a result. -/
theorem concur_begin {a : α} (hp : p.outcome s = (.ok a, m)) (hm : Moves s m)
    (hk : Concur limited Q (k a) (l a) m) : Concur limited Q (p >>= k) (p >>= l) s :=
  hk.congr hm (outcome_bind_of_ok hp) (outcome_bind_of_ok hp)

theorem concur_get {k l : State → Parser β} (hk : Concur limited Q (k s) (l s) s) :
    Concur limited Q (get >>= k) (get >>= l) s := concur_begin rfl (.refl s) hk

theorem concur_current {k l : Token → Parser β}
    (hk : Concur limited Q (k s.current) (l s.current) s) :
    Concur limited Q (current >>= k) (current >>= l) s := concur_begin rfl (.refl s) hk

theorem concur_currentKind {k l : Token.Kind → Parser β}
    (hk : Concur limited Q (k s.current.kind) (l s.current.kind) s) :
    Concur limited Q (currentKind >>= k) (currentKind >>= l) s := concur_begin rfl (.refl s) hk

theorem concur_check {kinds : List Token.Kind} {k l : Bool → Parser β}
    (hk : Concur limited Q (k (kinds.contains s.current.kind))
      (l (kinds.contains s.current.kind)) s) :
    Concur limited Q (check kinds >>= k) (check kinds >>= l) s := concur_begin rfl (.refl s) hk

theorem concur_checkKind {kind : Token.Kind} {k l : Bool → Parser β}
    (htrue : s.current.kind = kind → Concur limited Q (k true) (l true) s)
    (hfalse : s.current.kind ≠ kind → Concur limited Q (k false) (l false) s) :
    Concur limited Q (check [kind] >>= k) (check [kind] >>= l) s := by
  refine concur_begin (outcome_checkKind kind s) (.refl s) ?_
  by_cases hkind : s.current.kind = kind
  · rw [decide_eq_true hkind]
    exact htrue hkind
  · rw [decide_eq_false hkind]
    exact hfalse hkind

theorem concur_advance {k l : Token → Parser β}
    (hk : Concur limited Q (k s.current) (l s.current) s.advance) :
    Concur limited Q (advance >>= k) (advance >>= l) s := concur_begin rfl (.advance (.refl s)) hk

theorem concur_discard {k l : Unit → Parser β} (hk : Concur limited Q (k ()) (l ()) s.advance) :
    Concur limited Q (discard advance >>= k) (discard advance >>= l) s :=
  concur_begin rfl (.advance (.refl s)) hk

theorem concur_acceptKind {kind : Token.Kind} {k l : Bool → Parser β}
    (htrue : s.current.kind = kind → Concur limited Q (k true) (l true) s.advance)
    (hfalse : s.current.kind ≠ kind → Concur limited Q (k false) (l false) s) :
    Concur limited Q (acceptKind kind >>= k) (acceptKind kind >>= l) s := by
  refine concur_begin (outcome_acceptKind kind s) (.skip kind (.refl s)) ?_
  by_cases hkind : s.current.kind = kind
  · rw [decide_eq_true hkind, State.skip, if_pos hkind]
    exact htrue hkind
  · rw [decide_eq_false hkind, State.skip, if_neg hkind]
    exact hfalse hkind

theorem concur_synchronize {closing : Token.Kind} {k l : Unit → Parser β}
    (hk : Concur limited Q (k ()) (l ()) (s.synchronize closing 0)) :
    Concur limited Q (synchronize closing >>= k) (synchronize closing >>= l) s :=
  concur_begin rfl (.synchronize closing 0 (.refl s)) hk

theorem same_expected (what : String) (s : State) :
    Same limited (expected what) (expected what) s :=
  concur_give (gives_complaint what s) (gives_complaint what s) (.expected what (.refl s)) trivial

theorem same_fault (f : SyntaxFault) (p : Position) (s : State) :
    Same limited (fault f p) (fault f p) s := by
  have hgives := (gives_fault f p s _ _).mpr ⟨rfl, rfl⟩
  exact concur_give hgives hgives (.fault f p (.refl s)) trivial

/-- A round of a loop leaves more than `c` tokens consumed, unless it is the last one for the
reason given. -/
def Advanced (c : Nat) (reason : Prop) : α ⊕ β → State → Prop
  | .inl _, m => c < m.consumed
  | .inr _, m => c < m.consumed ∨ reason

theorem Advanced.of_later {reason : Prop} {r : α ⊕ β} (h : Later s m) :
    Advanced s.consumed reason r m := by
  cases r with
  | inl a => exact h.consumed
  | inr b => exact .inl h.consumed

theorem Advanced.consumed {c : Nat} {reason : Prop} {r : α ⊕ β} (h : Advanced c reason r m)
    (hreason : ¬ reason) : c < m.consumed := by
  cases r with
  | inl a => exact h
  | inr b => exact h.resolve_right hreason

/-- A token is skipped instead of what consumed none. -/
theorem concur_moveOn {reason : Prop} {k l : Parser (α ⊕ β)} (hm : Moves s m)
    (hk : s.current.kind ≠ .eof) (hkl : ∀ n, Same limited k l n) :
    Concur limited (Advanced s.consumed reason)
      (get >>= fun u : State =>
        if u.consumed = s.consumed then discard advance >>= fun _ => k else k)
      (get >>= fun u : State =>
        if u.consumed = s.consumed then discard advance >>= fun _ => l else l) m := by
  have hmoved := Later.moveOn hm hk
  rw [Grammar.moveOn] at hmoved
  refine concur_get ?_
  by_cases hstuck : m.consumed = s.consumed
  · rw [if_pos hstuck] at hmoved
    rw [if_pos hstuck, if_pos hstuck]
    exact concur_discard ((hkl _).mono fun _ _ hm' _ => .of_later (hmoved.trans hm'))
  · rw [if_neg hstuck] at hmoved
    rw [if_neg hstuck, if_neg hstuck]
    exact (hkl m).mono fun _ _ hm' _ => .of_later (hmoved.trans hm')

/-- Where every round but the last one consumes a token, the loops come to an end: fewer
tokens remain for the rounds behind it. -/
theorem same_iterate {step step' : α → Parser (α ⊕ β)} {reason : α → State → Prop}
    (hstep : ∀ a m, Moves s m →
      Concur limited (Advanced m.consumed (reason a m)) (step a) (step' a) m) (a : α) :
    Same limited (iterate step a) (iterate step' a) s := by
  have loops (n : Nat) (a : α) (m : State) (hm : Moves s m) (hn : m.remaining < n) :
      Same limited (iterateUpTo step n a) (iterateUpTo step' n a) m := by
    induction n generalizing a m with
    | zero => omega
    | succ n ih =>
      refine (hstep a m hm).bind fun r m' hm' hadvanced => ?_
      cases r with
      | inr b => exact same_pure b m'
      | inl a' =>
        have hless := remaining_lt hm' hadvanced
        exact ih a' m' (hm.trans hm') (by omega)
  exact concur_get (loops _ a s (.refl s) (Nat.lt_succ_self _))

end Parser

namespace Grammar

open Scriptlet.Parser

variable {limited : Prop} {c c' w w' : Rule → Parser Node} {rule r : Rule} {s m : State}

/-- How high a rule stands. From one place in the text a rule calls only lower ones. -/
def ladder : Rule → Nat
  | .statement => 11
  | .expression => 10
  | .assignment => 9
  | .disjunction => 8
  | .conjunction => 7
  | .equality => 6
  | .sum => 5
  | .product => 4
  | .prefixed => 3
  | .applied => 2
  | .operand => 1
  | .binding | .giveBack | .group | .array | .block | .conditional => 0

/-- Where a rule that starts in some state may call another one: behind further tokens, or
at the same place but lower on the ladder. Only blocks have statements. -/
structure Below (rule : Rule) (s : State) (r : Rule) (m : State) : Prop where
  admits : Admits r m.current.kind
  block : r = .statement → rule = .block ∧ s.current.kind = .leftBrace ∧ Later s m
  descends : Later s m ∨ (m = s ∧ ladder r < ladder rule)

/-- The callees concur wherever the rule may call them. -/
def Answers (limited : Prop) (c c' : Rule → Parser Node) (rule : Rule) (s : State) : Prop :=
  ∀ r m, Below rule s r m → Same limited (c r) (c' r) m

theorem Answers.here (h : Answers limited c c' rule s) (hladder : ladder r < ladder rule)
    (hr : r ≠ .statement) (hadmits : Admits r s.current.kind) : Same limited (c r) (c' r) s :=
  h r s ⟨hadmits, fun hstatement => absurd hstatement hr, .inr ⟨rfl, hladder⟩⟩

theorem Answers.later (h : Answers limited c c' rule s) (hm : Later s m) (hr : r ≠ .statement)
    (hadmits : Admits r m.current.kind) : Same limited (c r) (c' r) m :=
  h r m ⟨hadmits, fun hstatement => absurd hstatement hr, .inl hm⟩

theorem same_statement (hcall : Answers limited c c' .statement s) :
    Same limited (statement c) (statement c') s := by
  refine concur_currentKind ?_
  split
  · next hk => exact hcall.here (by decide) (by decide) hk
  · next hk => exact hcall.here (by decide) (by decide) hk
  · exact hcall.here (by decide) (by decide) trivial

theorem same_parameter (s : State) : Same limited parameter parameter s := by
  refine concur_begin (outcome_acceptKind .kwMut s) (.skip .kwMut (.refl s)) ?_
  refine concur_begin (outcome_accept .identifier _) (.skip .identifier (.refl _)) ?_
  split
  · exact (same_expected _ _).bind fun e m _ => same_pure _ _
  · exact same_pure _ _

theorem same_binding (hk : s.current.kind = .kwLet) (hcall : Answers limited c c' .binding s) :
    Same limited (letBinding c) (letBinding c') s := by
  have hstart : Later s s.advance := .advance (.refl s) (by rw [hk]; decide)
  refine concur_advance ((same_parameter _).bind fun read m hm => ?_)
  split
  · exact same_pure _ _
  · refine concur_acceptKind (fun _ => ?_) fun _ => same_expected _ _
    refine Same.bind (hcall.later (hstart.trans (.advance hm)) (by decide) trivial) ?_
    exact fun value m' _ => same_pure _ _

theorem same_giveBack (hk : s.current.kind = .kwReturn) (hcall : Answers limited c c' .giveBack s) :
    Same limited (returnStatement c) (returnStatement c') s := by
  refine concur_advance (concur_check ?_)
  split
  · exact same_pure _ _
  · have hstart : Later s s.advance := .advance (.refl s) (by rw [hk]; decide)
    exact Same.bind (hcall.later hstart (by decide) trivial) fun n m _ => same_pure _ _

theorem same_assignment (hcall : Answers limited c c' .assignment s) :
    Same limited (assign c) (assign c') s := by
  refine Same.bind (hcall.here (by decide) (by decide) trivial) fun left m hm => ?_
  refine concur_currentKind ?_
  split
  · exact same_pure _ _
  · next op hop =>
    have hright : Later s m.advance :=
      .advance hm fun heof => by rw [heof] at hop; cases hop
    refine concur_discard (Same.bind (hcall.later hright (by decide) trivial) fun right m' _ => ?_)
    split
    · exact same_pure _ _
    · split
      · exact same_fault _ _ _
      · exact same_pure _ _

/-- A round of a chain consumes an operator, unless none is there. -/
theorem concur_chainStep {joint : Token.Kind} {op : BinaryOp} {p q : Parser Node} {left : Node}
    (hjoint : joint ≠ .eof) (htighter : Later m m.advance → Same limited p q m.advance) :
    Concur limited (Advanced m.consumed (m.current.kind ≠ joint))
      (chainStep joint op p left) (chainStep joint op q left) m := by
  refine concur_acceptKind (fun hk => ?_) fun hk => concur_pure (.inr hk)
  have hright : Later m m.advance := .advance (.refl m) (hk ▸ hjoint)
  exact (htighter hright).bind fun right m' hm' => concur_pure (.of_later (hright.trans hm'))

theorem same_leftChain {joint : Token.Kind} {op : BinaryOp} (hjoint : joint ≠ .eof)
    (hladder : ladder r < ladder rule) (hr : r ≠ .statement) (hadmits : ∀ k, Admits r k)
    (hcall : Answers limited c c' rule s) :
    Same limited (leftChain joint op (c r)) (leftChain joint op (c' r)) s := by
  refine Same.bind (hcall.here hladder hr (hadmits _)) fun left m hm => ?_
  refine same_iterate (fun l m' hm' => concur_chainStep hjoint fun hright => ?_) left
  exact hcall.later (.of_moves (hm.trans hm') hright) hr (hadmits _)

theorem same_rightChain {op? : Token.Kind → Option BinaryOp} (hop? : op? .eof = none)
    (hladder : ladder r < ladder rule) (hr : r ≠ .statement) (hrule : rule ≠ .statement)
    (hadmits : ∀ k, Admits r k) (hsame : ∀ k, Admits rule k) (hcall : Answers limited c c' rule s) :
    Same limited (rightChain op? (c r) (c rule)) (rightChain op? (c' r) (c' rule)) s := by
  refine Same.bind (hcall.here hladder hr (hadmits _)) fun left m hm => ?_
  refine concur_currentKind ?_
  split
  · exact same_pure _ _
  · next op hop =>
    have hright : Later s m.advance :=
      .advance hm fun heof => by rw [heof, hop?] at hop; cases hop
    exact concur_discard (Same.bind (hcall.later hright hrule (hsame _)) fun right m' _ =>
      same_pure _ _)

theorem same_equality (hcall : Answers limited c c' .equality s) :
    Same limited (equalityChain c) (equalityChain c') s := by
  refine Same.bind (hcall.here (by decide) (by decide) trivial) fun left m hm => ?_
  have complete (op : BinaryOp) {m : State} (hm : Moves s m) (hk : m.current.kind ≠ .eof) :
      Same limited (equalityChain.complete c left op) (equalityChain.complete c' left op) m :=
    concur_discard (Same.bind (hcall.later (.advance hm hk) (by decide) trivial) fun right m' _ =>
      same_pure _ _)
  refine concur_currentKind ?_
  split
  · next hk => exact complete _ hm (by rw [hk]; decide)
  · next hk => exact complete _ hm (by rw [hk]; decide)
  · next hk => exact complete _ hm (by rw [hk]; decide)
  · refine concur_discard (concur_checkKind (fun hin => ?_) fun _ => same_expected _ _)
    exact complete _ (.advance hm) (by rw [hin]; decide)
  · exact same_pure _ _

theorem same_prefixed (hcall : Answers limited c c' .prefixed s) :
    Same limited (prefixOperators c) (prefixOperators c') s := by
  refine concur_current ?_
  split
  · exact hcall.here (by decide) (by decide) trivial
  · next op hop =>
    have hright : Later s s.advance :=
      .advance (.refl s) fun heof => by rw [heof] at hop; cases hop
    exact concur_discard (Same.bind (hcall.later hright (by decide) trivial) fun n m _ =>
      same_pure _ _)

/-- The end of a list of items, from where the reason for it is known. -/
theorem concur_finishItems {closing : Token.Kind} {glyph : String} {read : List Node}
    {comma : Bool} {c : Nat} {reason : Prop}
    (h : ∀ m', Moves m m' → c < m'.consumed ∨ reason) : Concur limited (Advanced c reason)
      (finishItems closing glyph read comma) (finishItems closing glyph read comma) m :=
  concur_acceptKind (fun _ => concur_pure (h _ (.advance (.refl m)))) fun _ =>
    (same_expected glyph m).bind fun _ _ hm => concur_pure (h _ hm)

/-- A round of a list of items consumes a token, unless the closing one is there or no
expression. -/
theorem concur_itemsStep {closing : Token.Kind} {glyph : String} {read : List Node × Bool}
    {p q : Parser Node} (hitem : Same limited p q m) :
    Concur limited (Advanced m.consumed (m.current.kind = closing ∨
        ∃ item m', p.Gives m item m' ∧ (item.isError = true ∨ m'.consumed = m.consumed)))
      (itemsStep p closing glyph read) (itemsStep q closing glyph read) m := by
  refine concur_checkKind (fun hk => concur_finishItems fun _ _ => .inr (.inl hk)) fun _ => ?_
  refine hitem.gives_left.bind fun item m' hm' hgives => ?_
  split
  · next he => exact concur_pure (.inr (.inr ⟨item, m', hgives, .inl he⟩))
  · refine concur_acceptKind (fun hcomma => concur_pure ?_) fun _ => concur_finishItems ?_
    · exact .of_later (.advance hm' (by rw [hcomma]; decide))
    · intro m'' hm''
      have hle := consumed_le hm'
      have hle' := consumed_le hm''
      by_cases hidle : m'.consumed = m.consumed
      · exact .inr (.inr ⟨item, m', hgives, .inr hidle⟩)
      · exact .inl (by omega)

theorem same_items {closing : Token.Kind} {glyph : String} (hm : Later s m)
    (hcall : Answers limited c c' rule s) :
    Same limited (items (c .expression) closing glyph) (items (c' .expression) closing glyph) m :=
  same_iterate (fun _ _ hm' =>
    concur_itemsStep (hcall.later (r := .expression) (hm.trans hm') (by decide) trivial)) _

/-- A round of calls and indexes consumes an opening token, unless none is there. -/
theorem concur_applicationsStep {node : Node} (hm : Moves s m) (hcall : Answers limited c c' rule s)
    (hwithin : Answers limited w w' rule s) :
    Concur limited (Advanced m.consumed
        (m.current.kind ≠ .leftParen ∧ m.current.kind ≠ .leftBracket))
      (applicationsStep c w node) (applicationsStep c' w' node) m := by
  refine concur_acceptKind (fun hparen => ?_) fun hparen => concur_acceptKind (fun hbracket => ?_)
    fun hbracket => concur_pure (.inr ⟨hparen, hbracket⟩)
  · have hopen : Later m m.advance := .advance (.refl m) (by rw [hparen]; decide)
    refine Same.bind (same_items (.of_moves hm hopen) hwithin) fun read m' hm' => ?_
    split <;> exact concur_pure (.of_later (hopen.trans hm'))
  · have hopen : Later m m.advance := .advance (.refl m) (by rw [hbracket]; decide)
    refine Same.bind (hcall.later (.of_moves hm hopen) (by decide) trivial) fun index m' hm' => ?_
    have hindex := hopen.trans hm'
    split
    · exact concur_pure (.of_later hindex)
    · refine concur_acceptKind (fun _ => concur_pure ?_) fun _ =>
        (same_expected _ _).bind fun _ _ hm'' => concur_pure (.of_later (hindex.trans hm''))
      exact .of_later (hindex.trans (.advance (.refl m')))

theorem same_applied (hcall : Answers limited c c' .applied s)
    (hwithin : Answers limited w w' .applied s) :
    Same limited (applications c w) (applications c' w') s := by
  refine Same.bind (hcall.here (by decide) (by decide) trivial) fun first m hm => ?_
  split
  · exact same_pure _ _
  · exact same_iterate (fun _ _ hm' =>
      concur_applicationsStep (hm.trans hm') hcall hwithin) first

theorem same_operand (hcall : Answers limited c c' .operand s) :
    Same limited (primary c) (primary c') s := by
  refine concur_current ?_
  split
  iterate 2
    · refine concur_discard ?_
      split
      · exact same_pure _ _
      · exact same_fault _ _ _
  iterate 4
    · exact concur_discard (same_pure _ _)
  iterate 5
    · next hk => exact hcall.here (by decide) (by decide) hk
  · exact concur_discard (same_fault _ _ _)
  · exact concur_discard (same_pure _ _)
  · exact same_expected _ _

theorem same_group (hk : s.current.kind = .leftParen) (hwithin : Answers limited w w' .group s) :
    Same limited (parenthesized w) (parenthesized w') s := by
  refine concur_advance (concur_acceptKind (fun _ => same_pure _ _) fun _ => ?_)
  have hopen : Later s s.advance := .advance (.refl s) (by rw [hk]; decide)
  refine Same.bind (same_items hopen hwithin) fun read m _ => ?_
  split <;> exact same_pure _ _

theorem same_array (hk : s.current.kind = .leftBracket) (hwithin : Answers limited w w' .array s) :
    Same limited (bracketed w) (bracketed w') s := by
  have hopen : Later s s.advance := .advance (.refl s) (by rw [hk]; decide)
  refine concur_advance (Same.bind (same_items hopen hwithin) fun read m _ => ?_)
  split <;> exact same_pure _ _

/-- A round of a list of statements consumes a token, unless the list has come to its end: a
semicolon, the statement, or what is skipped instead of it. -/
theorem concur_sequenceStep {closing : Token.Kind} {read : List Node} {p q : Parser Node}
    (hstatement : Same limited p q m) :
    Concur limited (Advanced m.consumed ([closing, .eof].contains m.current.kind = true))
      (sequenceStep p closing read) (sequenceStep q closing read) m := by
  refine concur_check ?_
  split
  · next hend => exact concur_pure (.inr hend)
  next hend =>
  have hk : m.current.kind ≠ .eof := fun heof => hend (by simp [heof])
  refine concur_acceptKind (fun _ => concur_pure ?_) fun _ => ?_
  · exact .of_later (.advance (.refl m) hk)
  refine concur_get (hstatement.bind fun item m' hm' => ?_)
  refine concur_moveOn hm' hk fun n => concur_acceptKind (fun _ => same_pure _ _) fun _ =>
    concur_checkKind (fun _ => same_pure _ _) fun _ => ?_
  rw [if_neg Bool.false_ne_true]
  split
  · exact concur_synchronize (same_pure _ _)
  · split
    · exact same_pure _ _
    · exact (same_expected _ _).bind fun e _ _ => same_pure _ _

theorem same_sequence {closing : Token.Kind} {p q : Parser Node}
    (hstatement : ∀ m, Moves s m → Same limited p q m) :
    Same limited (sequence p closing) (sequence q closing) s :=
  same_iterate (fun _ m hm => concur_sequenceStep (hstatement m hm)) []

theorem same_block (hk : s.current.kind = .leftBrace) (hwithin : Answers limited w w' .block s) :
    Same limited (braced w) (braced w') s := by
  have hopen : Later s s.advance := .advance (.refl s) (by rw [hk]; decide)
  refine concur_advance (Same.bind (same_sequence fun m hm => ?_) fun read m _ => ?_)
  · exact hwithin _ _ ⟨trivial, fun _ => ⟨rfl, hk, hopen.trans hm⟩, .inl (hopen.trans hm)⟩
  · exact concur_acceptKind (fun _ => same_pure _ _) fun _ => same_expected _ _

theorem same_conditional (hk : s.current.kind = .kwIf)
    (hcall : Answers limited c c' .conditional s) :
    Same limited (choice c) (choice c') s := by
  have hstart : Later s s.advance := .advance (.refl s) (by rw [hk]; decide)
  refine concur_advance (Same.bind (hcall.later hstart (by decide) trivial)
    fun condition m hm => ?_)
  split
  · exact same_pure _ _
  refine concur_checkKind (fun hbrace => ?_) fun _ => same_expected _ _
  refine Same.bind (hcall.later (hstart.trans hm) (by decide) hbrace) fun thenBlock m' hm' => ?_
  have hm' := hstart.trans (hm.trans hm')
  split
  · exact same_pure _ _
  refine concur_acceptKind (fun _ => ?_) fun _ => same_pure _ _
  have helse : Later s m'.advance := hm'.trans (.advance (.refl m'))
  refine concur_checkKind (fun hif => concur_check ?_) fun _ =>
    concur_checkKind (fun hblock => ?_) fun _ => same_expected _ _
  · refine Same.bind (hcall.later helse (by decide) hif) fun branch n _ => ?_
    dsimp only
    split <;> exact same_pure _ _
  · refine Same.bind (hcall.later helse (by decide) hblock) fun branch n _ => ?_
    dsimp only
    split <;> exact same_pure _ _

/-- The callees below a rule settle what it comes to. -/
theorem same_body (hadmits : Admits rule s.current.kind) (hcall : Answers limited c c' rule s)
    (hwithin : Answers limited w w' rule s) : Same limited (body c w rule) (body c' w' rule) s := by
  cases rule with
  | statement => exact same_statement hcall
  | binding => exact same_binding hadmits hcall
  | giveBack => exact same_giveBack hadmits hcall
  | expression => exact hcall.here (by decide) (by decide) trivial
  | assignment => exact same_assignment hcall
  | disjunction =>
    exact same_leftChain (by decide) (by decide) (by decide) (fun _ => trivial) hcall
  | conjunction =>
    exact same_leftChain (by decide) (by decide) (by decide) (fun _ => trivial) hcall
  | equality => exact same_equality hcall
  | sum =>
    exact same_rightChain rfl (by decide) (by decide) (by decide) (fun _ => trivial)
      (fun _ => trivial) hcall
  | product =>
    exact same_rightChain rfl (by decide) (by decide) (by decide) (fun _ => trivial)
      (fun _ => trivial) hcall
  | prefixed => exact same_prefixed hcall
  | applied => exact same_applied hcall hwithin
  | operand => exact same_operand hcall
  | group => exact same_group hadmits hwithin
  | array => exact same_array hadmits hwithin
  | block => exact same_block hadmits hwithin
  | conditional => exact same_conditional hadmits hcall

end Grammar

end Scriptlet
