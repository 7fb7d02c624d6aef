import Scriptlet.Proofs.Grammar.Exact
import Scriptlet.Proofs.Grammar.Faithful
import Scriptlet.Proofs.Tree.Placing

/-!
# Corresponding parsers

Two parsers correspond when the tokens that they have yet to consume are the same up to
a map of positions, and so are their faults. Where the tokens come from does not matter:
one may take them from a text and the other from a list. A parser mirrors another one when
from corresponding states the two come to the same, be it a result or the end of the room,
and to states that correspond again.

The supplies allow different numbers of rounds to a loop. Each round that is not the last
one consumes a token, so neither of the bounds is ever met.
-/

namespace Scriptlet

open Scriptlet.Grammar

namespace Parser

open ExceptT (outcome_bind outcome_get_bind)

variable {α β γ : Type} {g : Position → Position} {s t : State}

/-- The token that is taken is the next one to be consumed, or the end. -/
theorem pull_token (supply : Supply) (ending : Position) :
    (supply.pull ending).1 = supply.pending.head?.getD (.endAt ending) := by
  by_cases heof : (supply.pull ending).1.kind = .eof
  · rw [Supply.pending_of_eof heof]
    cases supply with
    | lexer lx => exact if_pos ((Supply.pull_lexer_kind lx ending).symm.trans heof)
    | tokens ts =>
      cases ts with
      | nil => rfl
      | cons t ts => exact if_pos ((Supply.pull_tokens_kind t ts ending).symm.trans heof)
  · rw [Supply.pending_of_ne_eof heof]
    rfl

theorem current_advance (hk : s.current.kind ≠ .eof) :
    s.advance.current = s.pending.tail.head?.getD (.endAt s.ending) := by
  rw [State.advance, if_neg hk, State.pending, if_neg hk]
  exact pull_token s.supply s.ending

theorem ending_advance (s : State) : s.advance.ending = s.ending := by
  rw [State.advance]
  split <;> rfl

/-- The second parser has the tokens and the faults of the first one, placed anew. -/
structure Corresponds (g : Position → Position) (s t : State) : Prop where
  current : t.current = s.current.place g
  pending : t.pending = s.pending.map (Token.place g)
  consumed : t.consumed = s.consumed
  diagnostics : t.diagnostics = s.diagnostics.map (Diagnostic.place g)
  ending : t.ending = g s.ending

namespace Corresponds

theorem kind (h : Corresponds g s t) : t.current.kind = s.current.kind := by
  rw [h.current, Token.place]

theorem kind_ne {k : Token.Kind} (h : Corresponds g s t) (hk : s.current.kind ≠ k) :
    t.current.kind ≠ k := h.kind ▸ hk

theorem advance (h : Corresponds g s t) : Corresponds g s.advance t.advance := by
  by_cases hk : s.current.kind = .eof
  · have hk' : t.current.kind = .eof := h.kind.trans hk
    rwa [State.advance, State.advance, if_pos hk, if_pos hk']
  · have hk' : t.current.kind ≠ .eof := h.kind ▸ hk
    refine ⟨?_, ?_, ?_, ?_, ?_⟩
    · rw [current_advance hk, current_advance hk', h.pending, h.ending]
      cases s.pending with
      | nil => rfl
      | cons a ts => cases ts <;> rfl
    · rw [pending_advance, pending_advance, h.pending, List.map_tail]
    · rw [consumed_advance hk, consumed_advance hk', h.consumed]
    · rw [diagnostics_advance, diagnostics_advance, h.diagnostics]
    · rw [ending_advance, ending_advance, h.ending]

theorem fault (h : Corresponds g s t) (f : SyntaxFault) (p : Position) :
    Corresponds g (s.fault f p).2 (t.fault f (g p)).2 := by
  refine ⟨h.current, h.pending, h.consumed, ?_, h.ending⟩
  change t.diagnostics ++ _ = (s.diagnostics ++ _).map _
  rw [List.map_append, h.diagnostics]
  rfl

/-- The complaint is the same: tokens are shown without their positions. -/
theorem expected (h : Corresponds g s t) (what : String) :
    (t.expected what).1 = (s.expected what).1.place g ∧
      Corresponds g (s.expected what).2 (t.expected what).2 := by
  have hfault : t.expected what =
      t.fault (.expected what s.current.shown) (g s.current.position) := by
    rw [State.expected, h.current]
    rfl
  rw [hfault]
  exact ⟨rfl, h.fault _ _⟩

theorem synchronize (closing : Token.Kind) (depth : Nat) (s : State) :
    ∀ {t : State}, Corresponds g s t →
      Corresponds g (s.synchronize closing depth) (t.synchronize closing depth) := by
  induction depth, s using State.synchronize.induct closing with
  | case1 depth s hk =>
    intro t h
    rwa [synchronize_eof hk, synchronize_eof (h.kind.trans hk)]
  | case2 depth s hk hstop =>
    intro t h
    rwa [synchronize_stop hk hstop, synchronize_stop (h.kind_ne hk) (h.kind ▸ hstop)]
  | case3 depth s hk hstop hleft ih =>
    intro t h
    rw [synchronize_leftBrace hk hstop hleft,
      synchronize_leftBrace (h.kind_ne hk) (h.kind ▸ hstop) (h.kind.trans hleft)]
    exact ih h.advance
  | case4 depth s hk hstop hright ih =>
    intro t h
    rw [synchronize_rightBrace hk hstop hright,
      synchronize_rightBrace (h.kind_ne hk) (h.kind ▸ hstop) (h.kind.trans hright)]
    exact ih h.advance
  | case5 depth s hk hstop hleft hright ih =>
    intro t h
    rw [synchronize_other hk hstop hleft hright,
      synchronize_other (h.kind_ne hk) (h.kind ▸ hstop) (h.kind_ne hleft) (h.kind_ne hright)]
    exact ih h.advance

theorem drain {s : State} : ∀ {t : State}, Corresponds g s t → Corresponds g s.drain t.drain := by
  induction s using State.drain.induct with
  | case1 s hk =>
    intro t h
    rw [State.drain.eq_def s, State.drain.eq_def t, dif_pos hk, dif_pos (h.kind.trans hk)]
    exact h
  | case2 s hk ih =>
    intro t h
    rw [State.drain.eq_def s, State.drain.eq_def t, dif_neg hk, dif_neg (h.kind_ne hk)]
    exact ih h.advance

end Corresponds

theorem Moves.drain {m : State} : Moves s m → Moves s m.drain := by
  induction m using State.drain.induct with
  | case1 m hk =>
    intro h
    rwa [State.drain, dif_pos hk]
  | case2 m hk ih =>
    intro h
    rw [State.drain, dif_neg hk]
    exact ih (.advance h)

theorem Moves.giveUp {m : State} (h : Moves s m) : Moves s m.giveUp.2 := .drain (.fault _ _ h)

theorem Corresponds.giveUp (h : Corresponds g s t) :
    t.giveUp.1 = s.giveUp.1.place g ∧ Corresponds g s.giveUp.2 t.giveUp.2 := by
  have hfault := h.fault .nestedTooDeeply s.current.position
  have hposition : t.current.position = g s.current.position := by rw [h.current, Token.place]
  rw [← hposition] at hfault
  refine ⟨?_, hfault.drain⟩
  change Node.ofError _ t.current.position = _
  rw [hposition]
  rfl

theorem corresponds_ofSupply {supply supply' : Supply} {text text' : List Char}
    (hpending : supply'.pending = supply.pending.map (Token.place g))
    (hending : .endOf text' = g (.endOf text)) :
    Corresponds g (.ofSupply supply text) (.ofSupply supply' text') := by
  refine ⟨?_, ?_, rfl, rfl, hending⟩
  · simp only [State.ofSupply, pull_token, hpending, hending]
    cases supply.pending <;> rfl
  · rw [pending_ofSupply, pending_ofSupply, hpending]

theorem Corresponds.refl (s : State) : Corresponds id s s := by
  have hplace : Token.place id = id := rfl
  have hplace' : Diagnostic.place id = id := rfl
  refine ⟨rfl, ?_, rfl, ?_, rfl⟩
  · rw [hplace, List.map_id]
  · rw [hplace', List.map_id]

/-- What one parser comes to from `s`, the other comes to from `t`, placed anew. -/
structure Follows (g : Position → Position) (f : α → β) (p : Parser α) (q : Parser β)
    (s t : State) : Prop where
  left : Moves s (p.outcome s).2
  right : Moves t (q.outcome t).2
  result : (q.outcome t).1 = (p.outcome s).1.map f
  states : Corresponds g (p.outcome s).2 (q.outcome t).2

/-- The parsers do the same from all states that correspond. -/
def Mirrors (g : Position → Position) (f : α → β) (p : Parser α) (q : Parser β) : Prop :=
  ∀ s t, Corresponds g s t → Follows g f p q s t

variable {δ : Type} {f : α → γ} {h : β → δ} {p : Parser α} {q : Parser γ}

theorem Follows.bind {k : α → Parser β} {l : γ → Parser δ} (hp : Follows g f p q s t)
    (hk : ∀ a m m', p.outcome s = (.ok a, m) → Moves s m → Moves t m' → Corresponds g m m' →
      Follows g h (k a) (l (f a)) m m') : Follows g h (p >>= k) (q >>= l) s t := by
  obtain ⟨hleft, hright, hresult, hstates⟩ := hp
  rcases hps : p.outcome s with ⟨r, m⟩
  rcases hqt : q.outcome t with ⟨r', m'⟩
  rw [hps, hqt] at hresult hstates
  rw [hps] at hleft
  rw [hqt] at hright
  cases hresult
  cases r with
  | error e =>
    refine ⟨?_, ?_, ?_, ?_⟩ <;> rw [outcome_bind] <;> simp only [hps, hqt, outcome_bind]
    · exact hleft
    · exact hright
    · rfl
    · exact hstates
  | ok a =>
    obtain ⟨hleft', hright', hresult', hstates'⟩ := hk a m m' hps hleft hright hstates
    refine ⟨?_, ?_, ?_, ?_⟩ <;> rw [outcome_bind] <;> simp only [hps, hqt, outcome_bind]
    · exact hleft.trans hleft'
    · exact hright.trans hright'
    · exact hresult'
    · exact hstates'

theorem mirrors_bind {k : α → Parser β} {l : γ → Parser δ} (hp : Mirrors g f p q)
    (hk : ∀ a, Mirrors g h (k a) (l (f a))) : Mirrors g h (p >>= k) (q >>= l) :=
  fun s t hst => (hp s t hst).bind fun a m m' _ _ _ hm => hk a m m' hm

theorem mirrors_pure {a : α} {b : γ} (hb : b = f a) :
    Mirrors g f (pure a : Parser α) (pure b) := by
  intro s t hst
  subst hb
  exact ⟨.refl s, .refl t, rfl, hst⟩

theorem mirrors_tooDeep (f : α → γ) : Mirrors g f tooDeep tooDeep :=
  fun s t hst => ⟨.refl s, .refl t, rfl, hst⟩

theorem mirrors_current : Mirrors g (Token.place g) current current :=
  fun s t hst => ⟨.refl s, .refl t, congrArg Except.ok hst.current, hst⟩

theorem mirrors_currentKind : Mirrors g id currentKind currentKind :=
  fun s t hst => ⟨.refl s, .refl t, congrArg Except.ok hst.kind, hst⟩

/-- A state is looked at from both sides. -/
theorem mirrors_get_bind {k : State → Parser β} {l : State → Parser δ}
    (hk : ∀ s t, Corresponds g s t → Follows g h (k s) (l t) s t) :
    Mirrors g h (get >>= k) (get >>= l) := fun s t hst => by
  obtain ⟨hleft, hright, hresult, hstates⟩ := hk s t hst
  exact ⟨hleft, hright, hresult, hstates⟩

theorem mirrors_check (kinds : List Token.Kind) : Mirrors g id (check kinds) (check kinds) := by
  intro s t hst
  refine ⟨.refl s, .refl t, ?_, hst⟩
  change Except.ok (kinds.contains t.current.kind) = .ok (kinds.contains s.current.kind)
  rw [hst.kind]

theorem mirrors_advance : Mirrors g (Token.place g) advance advance :=
  fun s t hst =>
    ⟨.advance (.refl s), .advance (.refl t), congrArg Except.ok hst.current, hst.advance⟩

theorem mirrors_discard : Mirrors g id (discard advance) (discard advance) :=
  fun s t hst => ⟨.advance (.refl s), .advance (.refl t), rfl, hst.advance⟩

theorem mirrors_accept (kinds : List Token.Kind) :
    Mirrors g (Option.map (Token.place g)) (accept kinds) (accept kinds) := by
  refine mirrors_bind (mirrors_check kinds) fun accepted => ?_
  cases accepted with
  | true => exact mirrors_bind mirrors_advance fun t => mirrors_pure rfl
  | false => exact mirrors_pure rfl

theorem mirrors_acceptKind (kind : Token.Kind) :
    Mirrors g id (acceptKind kind) (acceptKind kind) :=
  mirrors_bind (mirrors_accept [kind]) fun _ => mirrors_pure (Option.isSome_map ..)

theorem mirrors_fault (f : SyntaxFault) (p : Position) :
    Mirrors g (Node.place g) (fault f p) (fault f (g p)) :=
  fun s t hst => ⟨.fault f p (.refl s), .fault f (g p) (.refl t), rfl, hst.fault f p⟩

theorem mirrors_expected (what : String) :
    Mirrors g (Node.place g) (expected what) (expected what) := by
  intro s t hst
  obtain ⟨hnode, hstates⟩ := hst.expected what
  exact ⟨.expected what (.refl s), .expected what (.refl t), congrArg Except.ok hnode, hstates⟩

theorem mirrors_synchronize (closing : Token.Kind) :
    Mirrors g id (synchronize closing) (synchronize closing) :=
  fun s _ hst => ⟨.synchronize closing 0 (.refl s), .synchronize closing 0 (.refl _), rfl,
    hst.synchronize closing 0 s⟩

/-- One round of a loop: it does the same on both sides, and goes on only when more than `c`
tokens are consumed. -/
structure Rounds (c : Nat) (g : Position → Position) (f : α → γ) (h : β → δ) (p : Parser (α ⊕ β))
    (q : Parser (γ ⊕ δ)) (s t : State) : Prop where
  follows : Follows g (Sum.map f h) p q s t
  progress : ∀ a m, p.outcome s = (.ok (.inl a), m) → c < m.consumed

section Rounds

variable {ε ζ : Type} {c : Nat} {p : Parser (α ⊕ β)} {q : Parser (γ ⊕ δ)}

theorem rounds_inr {b : β} {d : δ} (hd : d = h b) (hst : Corresponds g s t) :
    Rounds c g f h (pure (.inr b)) (pure (.inr d)) s t := by
  subst hd
  refine ⟨mirrors_pure rfl s t hst, fun a m hout => ?_⟩
  cases hout

/-- When enough is consumed, the round may go on. -/
theorem rounds_of_lt (hc : c < s.consumed) (hpq : Follows g (Sum.map f h) p q s t) :
    Rounds c g f h p q s t := by
  refine ⟨hpq, fun a m hout => Nat.lt_of_lt_of_le hc (consumed_le ?_)⟩
  rw [← show (p.outcome s).2 = m from congrArg Prod.snd hout]
  exact hpq.left

theorem rounds_bind {p : Parser ε} {q : Parser ζ} {e : ε → ζ} {k : ε → Parser (α ⊕ β)}
    {l : ζ → Parser (γ ⊕ δ)} (hp : Follows g e p q s t)
    (hk : ∀ a m m', p.outcome s = (.ok a, m) → Moves s m → Corresponds g m m' →
      Rounds c g f h (k a) (l (e a)) m m') : Rounds c g f h (p >>= k) (q >>= l) s t := by
  refine ⟨hp.bind fun a m m' hout hm _ hm' => (hk a m m' hout hm hm').follows, fun a s' hout => ?_⟩
  rw [outcome_bind] at hout
  rcases hps : p.outcome s with ⟨r, m⟩
  obtain ⟨hleft, -, -, hstates⟩ := hp
  rw [hps] at hout hleft hstates
  cases r with
  | error => cases hout
  | ok r => exact (hk r m _ hps hleft hstates).progress a s' hout

theorem rounds_get_bind {k : State → Parser (α ⊕ β)} {l : State → Parser (γ ⊕ δ)}
    (hk : Rounds c g f h (k s) (l t) s t) : Rounds c g f h (get >>= k) (get >>= l) s t := by
  obtain ⟨⟨hleft, hright, hresult, hstates⟩, hprogress⟩ := hk
  exact ⟨⟨hleft, hright, hresult, hstates⟩, hprogress⟩

theorem rounds_check_bind {kinds : List Token.Kind} {k : Bool → Parser (α ⊕ β)}
    {l : Bool → Parser (γ ⊕ δ)} (hst : Corresponds g s t)
    (hk : Rounds c g f h (k (kinds.contains s.current.kind)) (l (kinds.contains s.current.kind))
      s t) :
    Rounds c g f h (check kinds >>= k) (check kinds >>= l) s t := by
  obtain ⟨⟨hleft, hright, hresult, hstates⟩, hprogress⟩ := hk
  have ht : (check kinds >>= l).outcome t = (l (kinds.contains s.current.kind)).outcome t := by
    rw [← hst.kind]
    rfl
  refine ⟨⟨hleft, ?_, ?_, ?_⟩, hprogress⟩ <;> rw [ht]
  · exact hright
  · exact hresult
  · exact hstates

/-- What stopped a statement that consumed nothing is skipped, so the round may go on. -/
theorem rounds_moveOn {m m' : State} {k : Parser (α ⊕ β)} {l : Parser (γ ⊕ δ)}
    (hs : s.current.kind ≠ .eof) (hst : Corresponds g s t) (hmoves : Moves s m)
    (hm : Corresponds g m m') (hkl : Mirrors g (Sum.map f h) k l) :
    Rounds s.consumed g f h
      (get >>= fun u : State =>
        if u.consumed = s.consumed then discard advance >>= fun _ => k else k)
      (get >>= fun u : State =>
        if u.consumed = t.consumed then discard advance >>= fun _ => l else l) m m' := by
  refine rounds_get_bind ?_
  rw [hm.consumed, hst.consumed]
  by_cases heq : m.consumed = s.consumed
  · rw [if_pos heq, if_pos heq]
    refine rounds_bind (mirrors_discard m m' hm) fun _ n n' hout _ hn =>
      rounds_of_lt ?_ (hkl n n' hn)
    cases hout
    rw [consumed_advance (current_of_consumed_eq hmoves heq ▸ hs), heq]
    exact Nat.lt_succ_self _
  · rw [if_neg heq, if_neg heq]
    have hle := consumed_le hmoves
    exact rounds_of_lt (by omega) (hkl m m' hm)

/-- A round may go on when it starts with a token of a certain kind. -/
theorem rounds_acceptKind_bind {kind : Token.Kind} (hkind : kind ≠ .eof)
    {k : Bool → Parser (α ⊕ β)} {l : Bool → Parser (γ ⊕ δ)} (hc : c ≤ s.consumed)
    (hst : Corresponds g s t) (htrue : Mirrors g (Sum.map f h) (k true) (l true))
    (hfalse : ∀ t, Corresponds g s t → Rounds c g f h (k false) (l false) s t) :
    Rounds c g f h (acceptKind kind >>= k) (acceptKind kind >>= l) s t := by
  refine rounds_bind (mirrors_acceptKind kind s t hst) fun a m m' hout _ hm => ?_
  rw [outcome_acceptKind, State.skip] at hout
  by_cases hk : s.current.kind = kind
  · rw [decide_eq_true hk, if_pos hk] at hout
    cases hout
    refine rounds_of_lt ?_ (htrue _ m' hm)
    rw [consumed_advance (hk ▸ hkind)]
    omega
  · rw [decide_eq_false hk, if_neg hk] at hout
    cases hout
    exact hfalse m' hm

/-- Both loops come to the same, with any number of rounds that suffices for the tokens. -/
theorem follows_iterateUpTo {step : α → Parser (α ⊕ β)} {step' : γ → Parser (γ ⊕ δ)}
    (hstep : ∀ a s t, Corresponds g s t →
      Rounds s.consumed g f h (step a) (step' (f a)) s t) (n : Nat) :
    ∀ (m : Nat) (a : α) (s t : State), Corresponds g s t → s.remaining < n → t.remaining < m →
      Follows g h (iterateUpTo step n a) (iterateUpTo step' m (f a)) s t := by
  induction n with
  | zero => intro m a s t _ hs; omega
  | succ n ih =>
    intro m a s t hst hs ht
    cases m with
    | zero => omega
    | succ m =>
      obtain ⟨hfollows, hprogress⟩ := hstep a s t hst
      refine hfollows.bind fun r s' t' hout hs' ht' hst' => ?_
      cases r with
      | inr b => exact mirrors_pure rfl s' t' hst'
      | inl a' =>
        have hconsumed := hprogress a' s' hout
        have hless := remaining_lt hs' hconsumed
        have hless' := remaining_lt ht' (by rw [hst.consumed, hst'.consumed]; exact hconsumed)
        exact ih m a' s' t' hst' (by omega) (by omega)

theorem mirrors_iterate {step : α → Parser (α ⊕ β)} {step' : γ → Parser (γ ⊕ δ)}
    (hstep : ∀ a s t, Corresponds g s t →
      Rounds s.consumed g f h (step a) (step' (f a)) s t) (a : α) :
    Mirrors g h (iterate step a) (iterate step' (f a)) :=
  mirrors_get_bind fun s t hst =>
    follows_iterateUpTo hstep _ _ a s t hst (Nat.lt_succ_self _) (Nat.lt_succ_self _)

end Rounds

end Parser

end Scriptlet
