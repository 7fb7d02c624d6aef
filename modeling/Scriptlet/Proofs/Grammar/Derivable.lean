import Scriptlet.Grammar.Program
import Scriptlet.Proofs.Grammar.Derivation

/-!
# Everything that is read has a derivation

One lemma for each rule, about any parsers that it may call whose results have
derivations. The induction on the room puts them together.
-/

namespace Scriptlet.Grammar

open Scriptlet.Parser

/-- Does the rule expect a first token of the kind? Most rules look for themselves. -/
def Admits : Rule → Token.Kind → Prop
  | .binding, k => k = .kwLet
  | .giveBack, k => k = .kwReturn
  | .group, k => k = .leftParen
  | .array, k => k = .leftBracket
  | .block, k => k = .leftBrace
  | .conditional, k => k = .kwIf
  | _, _ => True

/-- Whatever the parsers give from where they may be called has a derivation. -/
def Derived (room : Nat) (call : Rule → Parser Node) : Prop :=
  ∀ rule s n s', Admits rule s.current.kind → (call rule).Gives s n s' →
    Reads room (.rule rule) s (.node n) s'

variable {room : Nat} {call within : Rule → Parser Node} {s s' : State} {n : Node}

section Loops

variable {α β : Type} (task : α → Task) (yield : β → Yield)

/-- One round of a loop, seen from what is still to be read. -/
def Round (room : Nat) (a : α) (s : State) :
    α ⊕ β → State → Prop
  | .inl a', m => ∀ y s', Reads room (task a') m y s' → Reads room (task a) s y s'
  | .inr b, m => Reads room (task a) s (yield b) m

theorem reads_of_repeats {step : α → Parser (α ⊕ β)}
    (hstep : ∀ a s r m, (step a).Gives s r m → Round task yield room a s r m)
    {a : α} {b : β} (h : Repeats step a s b s') : Reads room (task a) s (yield b) s' := by
  induction h with
  | stop h => exact hstep _ _ _ _ h
  | again h _ ih => exact hstep _ _ _ _ h _ _ ih

end Loops

theorem reads_statement (hcall : Derived room call) (h : (statement call).Gives s n s') :
    Reads (room + 1) (.rule .statement) s (.node n) s' := by
  rw [statement, gives_currentKind_bind] at h
  split at h
  · next hk => exact .bindingStatement hk (hcall .binding _ _ _ hk h)
  · next hk => exact .returnStatement hk (hcall .giveBack _ _ _ hk h)
  · next hlet hreturn => exact .expressionStatement hlet hreturn (hcall .expression _ _ _ trivial h)

theorem reads_binding (hcall : Derived room call) (hk : s.current.kind = .kwLet)
    (h : (letBinding call).Gives s n s') : Reads (room + 1) (.rule .binding) s (.node n) s' := by
  rw [letBinding, parameter] at h
  simp only [gives_advance_bind, bind_assoc, gives_acceptKind_bind, gives_accept_bind] at h
  by_cases hname : (s.advance.skip .kwMut).current.kind = .identifier
  · simp only [if_pos hname, pure_bind, gives_acceptKind_bind] at h
    have hskip : (s.advance.skip .kwMut).skip .identifier = (s.advance.skip .kwMut).advance :=
      if_pos hname
    rw [hskip] at h
    by_cases hassign : (s.advance.skip .kwMut).advance.current.kind = .assign
    · simp only [hassign, decide_true, Bool.not_true, Bool.false_eq_true, if_false] at h
      obtain ⟨v, m, hv, h⟩ := (gives_bind ..).mp h
      obtain ⟨rfl, rfl⟩ := (gives_pure ..).mp h
      rw [State.skip, if_pos hassign] at hv
      exact .binding hk rfl hname hassign (hcall .expression _ _ _ trivial hv)
    · simp only [hassign, decide_false, Bool.not_false, if_true] at h
      rw [State.skip, if_neg hassign] at h
      obtain ⟨rfl, rfl⟩ := (gives_expected ..).mp h
      exact .unassigned hk rfl hname hassign
  · simp only [if_neg hname, bind_assoc, pure_bind] at h
    have hskip : (s.advance.skip .kwMut).skip .identifier = s.advance.skip .kwMut := if_neg hname
    rw [hskip] at h
    obtain ⟨e, m, he, h⟩ := (gives_bind ..).mp h
    obtain ⟨rfl, rfl⟩ := (gives_expected ..).mp he
    obtain ⟨rfl, rfl⟩ := (gives_pure ..).mp h
    exact .unnamed hk rfl hname

theorem reads_giveBack (hcall : Derived room call) (hk : s.current.kind = .kwReturn)
    (h : (returnStatement call).Gives s n s') :
    Reads (room + 1) (.rule .giveBack) s (.node n) s' := by
  rw [returnStatement, gives_advance_bind, gives_check_bind] at h
  split at h
  · next hbare =>
    obtain ⟨rfl, rfl⟩ := (gives_pure ..).mp h
    exact .bareReturn hk hbare
  · next hbare =>
    obtain ⟨v, m, hv, h⟩ := (gives_bind ..).mp h
    obtain ⟨rfl, rfl⟩ := (gives_pure ..).mp h
    exact .returnOf hk (eq_false_of_ne_true hbare) (hcall .expression _ _ _ trivial hv)

theorem reads_assignment (hcall : Derived room call) (h : (assign call).Gives s n s') :
    Reads (room + 1) (.rule .assignment) s (.node n) s' := by
  obtain ⟨l, m, hl, h⟩ := (gives_bind ..).mp h
  rw [gives_currentKind_bind] at h
  have hleft := hcall .disjunction _ _ _ trivial hl
  split at h
  · next hop =>
    obtain ⟨rfl, rfl⟩ := (gives_pure ..).mp h
    exact .unassigning hleft hop
  · next op hop =>
    rw [gives_discard_bind] at h
    obtain ⟨r, m', hr, h⟩ := (gives_bind ..).mp h
    have hright := hcall .assignment _ _ _ trivial hr
    split at h
    · next he =>
      obtain ⟨rfl, rfl⟩ := (gives_pure ..).mp h
      exact .assignmentToError hleft hop hright he
    · next he =>
      have he := eq_false_of_ne_true he
      split at h
      · next hkind =>
        obtain ⟨rfl, rfl⟩ := (gives_fault ..).mp h
        exact .invalidTarget hleft hop hright he hkind
      · next hkind =>
        obtain ⟨rfl, rfl⟩ := (gives_pure ..).mp h
        exact .assignment hleft hop hright he (Decidable.not_not.mp hkind)

theorem round_chain {joint : Token.Kind} {op : BinaryOp} {tighter : Rule} {l : Node}
    {r : Node ⊕ Node} (hcall : Derived room call) (htighter : ∀ k, Admits tighter k)
    (h : (chainStep joint op (call tighter) l).Gives s r s') :
    Round (.chain joint op tighter) .node room l s r s' := by
  rw [chainStep, gives_acceptKind_bind] at h
  by_cases hk : s.current.kind = joint
  · simp only [hk, decide_true, if_true, State.skip] at h
    obtain ⟨right, m, hright, h⟩ := (gives_bind ..).mp h
    obtain ⟨rfl, rfl⟩ := (gives_pure ..).mp h
    intro y s'' hrest
    exact .chainLink hk (hcall tighter _ _ _ (htighter _) hright) hrest
  · simp only [hk, decide_false, Bool.false_eq_true, if_false, State.skip] at h
    obtain ⟨rfl, rfl⟩ := (gives_pure ..).mp h
    exact .chainEnd hk

theorem reads_chain {joint : Token.Kind} {op : BinaryOp} {tighter : Rule} {l : Node}
    (hcall : Derived room call) (htighter : ∀ k, Admits tighter k)
    (h : (iterate (chainStep joint op (call tighter)) l).Gives s n s') :
    Reads room (.chain joint op tighter l) s (.node n) s' :=
  reads_of_repeats _ _ (fun _ _ _ _ => round_chain hcall htighter) (repeats_of_iterate h)

theorem reads_disjunction (hcall : Derived room call)
    (h : (leftChain .kwOr .or (call .conjunction)).Gives s n s') :
    Reads (room + 1) (.rule .disjunction) s (.node n) s' := by
  obtain ⟨l, m, hl, h⟩ := (gives_bind ..).mp h
  exact .disjunction (hcall .conjunction _ _ _ trivial hl)
    (reads_chain hcall (fun _ => trivial) h)

theorem reads_conjunction (hcall : Derived room call)
    (h : (leftChain .kwAnd .and (call .equality)).Gives s n s') :
    Reads (room + 1) (.rule .conjunction) s (.node n) s' := by
  obtain ⟨l, m, hl, h⟩ := (gives_bind ..).mp h
  exact .conjunction (hcall .equality _ _ _ trivial hl)
    (reads_chain hcall (fun _ => trivial) h)

theorem reads_rightChain {rule tighter : Rule} {op? : Token.Kind → Option BinaryOp}
    (hcall : Derived room call) (hlevel : RightLevel rule op? tighter) (hrule : rule ≠ .equality)
    (hsame : ∀ k, Admits rule k) (htighter : ∀ k, Admits tighter k)
    (h : (rightChain op? (call tighter) (call rule)).Gives s n s') :
    Reads (room + 1) (.rule rule) s (.node n) s' := by
  obtain ⟨l, m, hl, h⟩ := (gives_bind ..).mp h
  have hleft := hcall tighter _ _ _ (htighter _) hl
  rw [gives_currentKind_bind] at h
  split at h
  · next hop =>
    obtain ⟨rfl, rfl⟩ := (gives_pure ..).mp h
    exact .chainless hlevel hleft hop (absurd · hrule)
  · next op hop =>
    rw [gives_discard_bind] at h
    obtain ⟨r, m', hr, h⟩ := (gives_bind ..).mp h
    obtain ⟨rfl, rfl⟩ := (gives_pure ..).mp h
    exact .rightChain hlevel hleft hop (hcall rule _ _ _ (hsame _) hr)

theorem reads_equality (hcall : Derived room call) (h : (equalityChain call).Gives s n s') :
    Reads (room + 1) (.rule .equality) s (.node n) s' := by
  obtain ⟨l, m, hl, h⟩ := (gives_bind ..).mp h
  have hleft := hcall .sum _ _ _ trivial hl
  -- What follows an operator of one word, and the second word of `not in`.
  have complete (op : BinaryOp) {m : State} (h : (equalityChain.complete call l op).Gives m n s') :
      ∃ r, Reads room (.rule .equality) m.advance (.node r) s' ∧ binaryNode op l r = n := by
    rw [equalityChain.complete, gives_discard_bind] at h
    obtain ⟨r, m', hr, h⟩ := (gives_bind ..).mp h
    obtain ⟨hn, rfl⟩ := (gives_pure ..).mp h
    exact ⟨r, hcall .equality _ _ _ trivial hr, hn⟩
  rw [gives_currentKind_bind] at h
  split at h
  · next hk =>
    obtain ⟨r, hr, rfl⟩ := complete _ h
    exact .rightChain .equality hleft (by simp only [hk]) hr
  · next hk =>
    obtain ⟨r, hr, rfl⟩ := complete _ h
    exact .rightChain .equality hleft (by simp only [hk]) hr
  · next hk =>
    obtain ⟨r, hr, rfl⟩ := complete _ h
    exact .rightChain .equality hleft (by simp only [hk]) hr
  · next hk =>
    rw [gives_discard_bind, gives_checkKind_bind] at h
    by_cases hin : m.advance.current.kind = .kwIn
    · simp only [hin, decide_true, if_true] at h
      obtain ⟨r, hr, rfl⟩ := complete _ h
      exact .notMember hleft hk hin hr
    · simp only [hin, decide_false, Bool.false_eq_true, if_false] at h
      obtain ⟨rfl, rfl⟩ := (gives_expected ..).mp h
      exact .notAlone hleft hk hin
  · next hequal hnotEqual hin hnot =>
    obtain ⟨rfl, rfl⟩ := (gives_pure ..).mp h
    refine .chainless .equality hleft ?_ (fun _ => hnot)
    grind

theorem reads_prefixed (hcall : Derived room call) (h : (prefixOperators call).Gives s n s') :
    Reads (room + 1) (.rule .prefixed) s (.node n) s' := by
  rw [prefixOperators, gives_current_bind] at h
  split at h
  · next hop => exact .unprefixed hop (hcall .applied _ _ _ trivial h)
  · next op hop =>
    rw [gives_discard_bind] at h
    obtain ⟨r, m', hr, h⟩ := (gives_bind ..).mp h
    obtain ⟨rfl, rfl⟩ := (gives_pure ..).mp h
    exact .prefixed hop (hcall .prefixed _ _ _ trivial hr)

theorem gives_finishItems {closing : Token.Kind} {glyph : String} {read : List Node}
    {comma : Bool} {r : (List Node × Bool) ⊕ Except Node (List Node × Bool)}
    (h : (finishItems closing glyph read comma).Gives s r s') :
    (s.current.kind = closing ∧ .inr (.ok (read, comma)) = r ∧ s.advance = s') ∨
      (s.current.kind ≠ closing ∧ .inr (.error (s.expected glyph).1) = r ∧
        (s.expected glyph).2 = s') := by
  rw [finishItems, gives_acceptKind_bind] at h
  by_cases hk : s.current.kind = closing
  · simp only [hk, decide_true, if_true, State.skip] at h
    exact .inl ⟨hk, (gives_pure ..).mp h⟩
  · simp only [hk, decide_false, Bool.false_eq_true, if_false, State.skip] at h
    obtain ⟨e, m, he, h⟩ := (gives_bind ..).mp h
    obtain ⟨rfl, rfl⟩ := (gives_expected ..).mp he
    exact .inr ⟨hk, (gives_pure ..).mp h⟩

/-- What a list of items yields. -/
def yieldOfItems : Except Node (List Node × Bool) → Yield
  | .ok (read, comma) => .items read comma
  | .error e => .node e

theorem round_items {closing : Token.Kind} {glyph : String} {start : List Node × Bool}
    {r : (List Node × Bool) ⊕ Except Node (List Node × Bool)} (hcall : Derived room call)
    (h : (itemsStep (call .expression) closing glyph start).Gives s r s') :
    Round (fun start => .items closing glyph start.1 start.2) yieldOfItems room start s r s' := by
  rw [itemsStep, gives_checkKind_bind] at h
  by_cases hk : s.current.kind = closing
  · simp only [hk, decide_true, if_true] at h
    obtain ⟨-, rfl, rfl⟩ | ⟨hne, -, -⟩ := gives_finishItems h
    · exact .itemsEnd hk
    · exact absurd hk hne
  · simp only [hk, decide_false, Bool.false_eq_true, if_false] at h
    obtain ⟨item, m, hitem, h⟩ := (gives_bind ..).mp h
    have hread := hcall .expression _ _ _ trivial hitem
    split at h
    · next he =>
      obtain ⟨rfl, rfl⟩ := (gives_pure ..).mp h
      exact .badItem hk hread he
    · next he =>
      have he := eq_false_of_ne_true he
      rw [gives_acceptKind_bind] at h
      by_cases hcomma : m.current.kind = .comma
      · simp only [hcomma, decide_true, if_true, State.skip] at h
        obtain ⟨rfl, rfl⟩ := (gives_pure ..).mp h
        intro y s'' hrest
        exact .item hk hread he hcomma hrest
      · simp only [hcomma, decide_false, Bool.false_eq_true, if_false, State.skip] at h
        obtain ⟨hclosing, rfl, rfl⟩ | ⟨hclosing, rfl, rfl⟩ := gives_finishItems h
        · exact .lastItem hk hread he hcomma hclosing
        · exact .openItems hk hread he hcomma hclosing

theorem reads_items {closing : Token.Kind} {glyph : String} {r : Except Node (List Node × Bool)}
    (hcall : Derived room call) (h : (items (call .expression) closing glyph).Gives s r s') :
    Reads room (.items closing glyph [] false) s (yieldOfItems r) s' :=
  reads_of_repeats (fun start => .items closing glyph start.1 start.2) yieldOfItems
    (fun _ _ _ _ => round_items hcall) (repeats_of_iterate h)

theorem round_applications {first : Node} {r : Node ⊕ Node} (hcall : Derived room call)
    (hwithin : Derived (room - 1) within) (h : (applicationsStep call within first).Gives s r s') :
    Round .applications .node room first s r s' := by
  rw [applicationsStep, gives_acceptKind_bind] at h
  by_cases hparen : s.current.kind = .leftParen
  · simp only [hparen, decide_true, if_true, State.skip] at h
    obtain ⟨read, m, hread, h⟩ := (gives_bind ..).mp h
    have hitems := reads_items hwithin hread
    split at h
    · obtain ⟨rfl, rfl⟩ := (gives_pure ..).mp h
      exact .badCall hparen hitems
    · obtain ⟨rfl, rfl⟩ := (gives_pure ..).mp h
      intro y s'' hrest
      exact .call hparen hitems hrest
  · simp only [hparen, decide_false, Bool.false_eq_true, if_false, State.skip,
      gives_acceptKind_bind] at h
    by_cases hbracket : s.current.kind = .leftBracket
    · simp only [hbracket, decide_true, if_true] at h
      obtain ⟨i, m, hi, h⟩ := (gives_bind ..).mp h
      have hindex := hcall .expression _ _ _ trivial hi
      split at h
      · next he =>
        obtain ⟨rfl, rfl⟩ := (gives_pure ..).mp h
        exact .badIndex hbracket hindex he
      · next he =>
        have he := eq_false_of_ne_true he
        rw [gives_acceptKind_bind] at h
        by_cases hclosed : m.current.kind = .rightBracket
        · simp only [hclosed, decide_true, Bool.not_true, Bool.false_eq_true, if_false,
            State.skip, if_true] at h
          obtain ⟨rfl, rfl⟩ := (gives_pure ..).mp h
          intro y s'' hrest
          exact .index hbracket hindex he hclosed hrest
        · simp only [hclosed, decide_false, Bool.not_false, if_true, State.skip] at h
          obtain ⟨e, m', he', h⟩ := (gives_bind ..).mp h
          obtain ⟨rfl, rfl⟩ := (gives_expected ..).mp he'
          obtain ⟨rfl, rfl⟩ := (gives_pure ..).mp h
          exact .openIndex hbracket hindex he hclosed
    · simp only [hbracket, decide_false, Bool.false_eq_true, if_false] at h
      obtain ⟨rfl, rfl⟩ := (gives_pure ..).mp h
      exact .applicationsEnd hparen hbracket

theorem reads_applied (hcall : Derived room call) (hwithin : Derived (room - 1) within)
    (h : (applications call within).Gives s n s') :
    Reads (room + 1) (.rule .applied) s (.node n) s' := by
  obtain ⟨first, m, hfirst, h⟩ := (gives_bind ..).mp h
  have hoperand := hcall .operand _ _ _ trivial hfirst
  split at h
  · next hend =>
    obtain ⟨rfl, rfl⟩ := (gives_pure ..).mp h
    exact .unapplied hoperand hend
  · next hend =>
    exact .applied hoperand (eq_false_of_ne_true hend)
      (reads_of_repeats _ _ (fun _ _ _ _ => round_applications hcall hwithin)
        (repeats_of_iterate h))

theorem reads_operand (hcall : Derived room call) (h : (primary call).Gives s n s') :
    Reads (room + 1) (.rule .operand) s (.node n) s' := by
  rw [primary, gives_current_bind] at h
  split at h
  · next hk =>
    rw [gives_discard_bind] at h
    split at h
    · next i hi =>
      obtain ⟨rfl, rfl⟩ := (gives_pure ..).mp h
      exact .leaf (.integer hk hi)
    · next f hf =>
      obtain ⟨rfl, rfl⟩ := (gives_fault ..).mp h
      exact .refused (.integer hk hf)
  · next hk =>
    rw [gives_discard_bind] at h
    split at h
    · next x hx =>
      obtain ⟨rfl, rfl⟩ := (gives_pure ..).mp h
      exact .leaf (.float hk hx)
    · next f hf =>
      obtain ⟨rfl, rfl⟩ := (gives_fault ..).mp h
      exact .refused (.float hk hf)
  · next hk =>
    rw [gives_discard_bind] at h
    obtain ⟨rfl, rfl⟩ := (gives_pure ..).mp h
    exact .leaf (.string hk)
  · next hk =>
    rw [gives_discard_bind] at h
    obtain ⟨rfl, rfl⟩ := (gives_pure ..).mp h
    exact .leaf (.true hk)
  · next hk =>
    rw [gives_discard_bind] at h
    obtain ⟨rfl, rfl⟩ := (gives_pure ..).mp h
    exact .leaf (.false hk)
  · next hk =>
    rw [gives_discard_bind] at h
    obtain ⟨rfl, rfl⟩ := (gives_pure ..).mp h
    exact .leaf (.identifier hk)
  · next hk => exact .compound (by rw [hk]; rfl) (hcall .group _ _ _ hk h)
  · next hk => exact .compound (by rw [hk]; rfl) (hcall .array _ _ _ hk h)
  · next hk => exact .compound (by rw [hk]; rfl) (hcall .block _ _ _ hk h)
  · next hk => exact .compound (by rw [hk]; rfl) (hcall .conditional _ _ _ hk h)
  · next hk => exact .compound (by rw [hk]; rfl) (hcall .binding _ _ _ hk h)
  · next hk =>
    rw [gives_discard_bind] at h
    obtain ⟨rfl, rfl⟩ := (gives_fault ..).mp h
    exact .refused (.function hk)
  · next hk =>
    rw [gives_discard_bind] at h
    obtain ⟨rfl, rfl⟩ := (gives_pure ..).mp h
    exact .invalidToken hk
  · next h₁ h₂ h₃ h₄ h₅ h₆ h₇ h₈ h₉ h₁₀ h₁₁ h₁₂ h₁₃ =>
    obtain ⟨rfl, rfl⟩ := (gives_expected ..).mp h
    refine .missing ?_
    simp only [operandKinds, List.mem_cons, List.not_mem_nil, or_false, not_or]
    exact ⟨h₁, h₂, h₃, h₄, h₅, h₆, h₇, h₈, h₉, h₁₀, h₁₁, h₁₂, h₁₃⟩

theorem reads_group (hwithin : Derived (room - 1) within) (hk : s.current.kind = .leftParen)
    (h : (parenthesized within).Gives s n s') :
    Reads (room + 1) (.rule .group) s (.node n) s' := by
  rw [parenthesized, gives_advance_bind, gives_acceptKind_bind] at h
  by_cases hempty : s.advance.current.kind = .rightParen
  · simp only [hempty, decide_true, if_true, State.skip] at h
    obtain ⟨rfl, rfl⟩ := (gives_pure ..).mp h
    exact .unit hk hempty
  · simp only [hempty, decide_false, Bool.false_eq_true, if_false, State.skip] at h
    obtain ⟨read, m, hread, h⟩ := (gives_bind ..).mp h
    have hitems := reads_items hwithin hread
    split at h
    · obtain ⟨rfl, rfl⟩ := (gives_pure ..).mp h
      exact .badGroup hk hempty hitems
    · obtain ⟨rfl, rfl⟩ := (gives_pure ..).mp h
      exact .grouped hk hempty hitems
    · next read comma hnotGroup =>
      obtain ⟨rfl, rfl⟩ := (gives_pure ..).mp h
      refine .tuple hk hempty hitems fun hone => ?_
      obtain ⟨item, rfl⟩ := List.length_eq_one_iff.mp hone
      cases comma with
      | true => rfl
      | false => exact (hnotGroup item rfl rfl).elim

theorem reads_array (hwithin : Derived (room - 1) within) (hk : s.current.kind = .leftBracket)
    (h : (bracketed within).Gives s n s') : Reads (room + 1) (.rule .array) s (.node n) s' := by
  rw [bracketed, gives_advance_bind] at h
  obtain ⟨read, m, hread, h⟩ := (gives_bind ..).mp h
  have hitems := reads_items hwithin hread
  split at h
  · obtain ⟨rfl, rfl⟩ := (gives_pure ..).mp h
    exact .badArray hk hitems
  · obtain ⟨rfl, rfl⟩ := (gives_pure ..).mp h
    exact .array hk hitems

/-- What a list of statements yields. -/
def yieldOfSequence : List Node × Option Node → Yield
  | (read, last) => .sequence read last

/-- The round of a list of statements from behind a statement. -/
theorem round_statement {closing : Token.Kind} {read : List Node} {item : Node} {m : State}
    {r : List Node ⊕ (List Node × Option Node)}
    (hend : [closing, .eof].contains s.current.kind = false)
    (hsemicolon : s.current.kind ≠ .semicolon)
    (hitem : Reads room (.rule .statement) s (.node item) m)
    (h : (do
      if ← acceptKind .semicolon then return .inl (read ++ [item])
      if ← check [closing] then return .inr (read, some item)
      if item.isError then
        synchronize closing
        return .inl (read ++ [item])
      if item.isBlockLike then return .inl (read ++ [item])
      return .inl (read ++ [item, ← expected "`;`"]) :
        Parser (List Node ⊕ (List Node × Option Node))).Gives (moveOn s.consumed m) r s') :
    Round (.sequence closing) yieldOfSequence room read s r s' := by
  rw [gives_acceptKind_bind] at h
  by_cases hk : (moveOn s.consumed m).current.kind = .semicolon
  · simp only [hk, decide_true, if_true, State.skip] at h
    obtain ⟨rfl, rfl⟩ := (gives_pure ..).mp h
    intro y s'' hrest
    exact .terminated hend hsemicolon hitem hk hrest
  · simp only [hk, decide_false, Bool.false_eq_true, if_false, State.skip,
      gives_checkKind_bind] at h
    by_cases hclosing : (moveOn s.consumed m).current.kind = closing
    · simp only [hclosing, decide_true, if_true] at h
      obtain ⟨rfl, rfl⟩ := (gives_pure ..).mp h
      exact .trailing hend hsemicolon hitem hk hclosing
    · simp only [hclosing, decide_false, Bool.false_eq_true, if_false] at h
      split at h
      · next he =>
        rw [gives_synchronize_bind] at h
        obtain ⟨rfl, rfl⟩ := (gives_pure ..).mp h
        intro y s'' hrest
        exact .recovered hend hsemicolon hitem hk hclosing he hrest
      · next he =>
        have he := eq_false_of_ne_true he
        split at h
        · next hblock =>
          obtain ⟨rfl, rfl⟩ := (gives_pure ..).mp h
          intro y s'' hrest
          exact .unterminated hend hsemicolon hitem hk hclosing he hblock hrest
        · next hblock =>
          obtain ⟨e, m', he', h⟩ := (gives_bind ..).mp h
          obtain ⟨rfl, rfl⟩ := (gives_expected ..).mp he'
          obtain ⟨rfl, rfl⟩ := (gives_pure ..).mp h
          intro y s'' hrest
          exact .unseparated hend hsemicolon hitem hk hclosing he (eq_false_of_ne_true hblock) hrest

theorem round_sequence {closing : Token.Kind} {read : List Node}
    {r : List Node ⊕ (List Node × Option Node)} (hcall : Derived room call)
    (h : (sequenceStep (call .statement) closing read).Gives s r s') :
    Round (.sequence closing) yieldOfSequence room read s r s' := by
  rw [sequenceStep, gives_check_bind] at h
  split at h
  · next hend =>
    obtain ⟨rfl, rfl⟩ := (gives_pure ..).mp h
    exact .sequenceEnd hend
  · next hend =>
    have hend := eq_false_of_ne_true hend
    rw [gives_acceptKind_bind] at h
    by_cases hk : s.current.kind = .semicolon
    · simp only [hk, decide_true, if_true, State.skip] at h
      obtain ⟨rfl, rfl⟩ := (gives_pure ..).mp h
      intro y s'' hrest
      exact .separator hend hk hrest
    · simp only [hk, decide_false, Bool.false_eq_true, if_false, State.skip,
        gives_get_bind] at h
      obtain ⟨item, m, hitem, h⟩ := (gives_bind ..).mp h
      refine round_statement hend hk (hcall .statement _ _ _ trivial hitem) ?_
      rw [gives_get_bind] at h
      by_cases hstuck : m.consumed = s.consumed
      · rw [moveOn, if_pos hstuck]
        simpa only [if_pos hstuck, gives_discard_bind] using h
      · rw [moveOn, if_neg hstuck]
        simpa only [if_neg hstuck] using h

theorem reads_sequence {closing : Token.Kind} {r : List Node × Option Node}
    (hcall : Derived room call) (h : (sequence (call .statement) closing).Gives s r s') :
    Reads room (.sequence closing []) s (yieldOfSequence r) s' :=
  reads_of_repeats _ _ (fun _ _ _ _ => round_sequence hcall) (repeats_of_iterate h)

theorem reads_block (hwithin : Derived (room - 1) within) (hk : s.current.kind = .leftBrace)
    (h : (braced within).Gives s n s') : Reads (room + 1) (.rule .block) s (.node n) s' := by
  rw [braced, gives_advance_bind] at h
  obtain ⟨⟨read, last⟩, m, hread, h⟩ := (gives_bind ..).mp h
  have hsequence := reads_sequence hwithin hread
  simp only [gives_acceptKind_bind] at h
  by_cases hclosed : m.current.kind = .rightBrace
  · simp only [hclosed, decide_true, Bool.not_true, Bool.false_eq_true, if_false, State.skip,
      if_true] at h
    obtain ⟨rfl, rfl⟩ := (gives_pure ..).mp h
    have hblock := Reads.block hk hsequence hclosed
    cases last <;> exact hblock
  · simp only [hclosed, decide_false, Bool.not_false, if_true, State.skip] at h
    obtain ⟨rfl, rfl⟩ := (gives_expected ..).mp h
    exact .openBlock hk hsequence hclosed

/-- What stands behind `else`, when a block was read before it. -/
theorem reads_else {c t : Node} {m m' : State} (hcall : Derived room call)
    (hk : s.current.kind = .kwIf)
    (hcondition : Reads room (.rule .expression) s.advance (.node c) m)
    (hce : c.isError = false) (hbrace : m.current.kind = .leftBrace)
    (hthen : Reads room (.rule .block) m (.node t) m') (hte : t.isError = false)
    (helse : m'.current.kind = .kwElse)
    (h : (do
      let branch ←
        if ← check [.kwIf] then call .conditional
        else if ← check [.leftBrace] then call .block
        else return ← expected "`\x7b` or `if` after `else`"
      if branch.isError then return branch
      return { Node.make .conditional s.current.position .absent [c, t] with
        elseBranch := [branch] } : Parser Node).Gives m'.advance n s') :
    Reads (room + 1) (.rule .conditional) s (.node n) s' := by
  have branch (rule : Rule) (hbranch : branch? m'.advance.current.kind = some rule)
      (hadmits : Admits rule m'.advance.current.kind)
      (h : (do
        let branch ← call rule
        if branch.isError then return branch
        return { Node.make .conditional s.current.position .absent [c, t] with
          elseBranch := [branch] } : Parser Node).Gives m'.advance n s') :
      Reads (room + 1) (.rule .conditional) s (.node n) s' := by
    obtain ⟨e, m'', he, h⟩ := (gives_bind ..).mp h
    have hread := hcall rule _ _ _ hadmits he
    split at h
    · next hee =>
      obtain ⟨rfl, rfl⟩ := (gives_pure ..).mp h
      exact .badBranch hk hcondition hce hbrace hthen hte helse hbranch hread hee
    · next hee =>
      obtain ⟨rfl, rfl⟩ := (gives_pure ..).mp h
      exact .ifThenElse hk hcondition hce hbrace hthen hte helse hbranch hread
        (eq_false_of_ne_true hee)
  rw [gives_checkKind_bind] at h
  by_cases hif : m'.advance.current.kind = .kwIf
  · simp only [hif, decide_true, if_true] at h
    exact branch .conditional (by rw [hif]; rfl) hif h
  simp only [hif, decide_false, Bool.false_eq_true, if_false, gives_checkKind_bind] at h
  by_cases hblock : m'.advance.current.kind = .leftBrace
  · simp only [hblock, decide_true, if_true] at h
    exact branch .block (by rw [hblock]; rfl) hblock h
  simp only [hblock, decide_false, Bool.false_eq_true, if_false] at h
  obtain ⟨rfl, rfl⟩ := (gives_expected ..).mp h
  refine .noBranch hk hcondition hce hbrace hthen hte helse ?_
  unfold branch?
  split
  · next hk' => exact absurd hk' hif
  · next hk' => exact absurd hk' hblock
  · rfl

theorem reads_conditional (hcall : Derived room call) (hk : s.current.kind = .kwIf)
    (h : (choice call).Gives s n s') : Reads (room + 1) (.rule .conditional) s (.node n) s' := by
  rw [choice, gives_advance_bind] at h
  obtain ⟨c, m, hc, h⟩ := (gives_bind ..).mp h
  have hcondition := hcall .expression _ _ _ trivial hc
  split at h
  · next hce =>
    obtain ⟨rfl, rfl⟩ := (gives_pure ..).mp h
    exact .badCondition hk hcondition hce
  next hce =>
  have hce := eq_false_of_ne_true hce
  rw [gives_checkKind_bind] at h
  by_cases hbrace : m.current.kind = .leftBrace
  case neg =>
    simp only [hbrace, decide_false, Bool.not_false, if_true] at h
    obtain ⟨rfl, rfl⟩ := (gives_expected ..).mp h
    exact .noBlock hk hcondition hce hbrace
  simp only [hbrace, decide_true, Bool.not_true, Bool.false_eq_true, if_false] at h
  obtain ⟨t, m', ht, h⟩ := (gives_bind ..).mp h
  have hthen := hcall .block _ _ _ hbrace ht
  split at h
  · next hte =>
    obtain ⟨rfl, rfl⟩ := (gives_pure ..).mp h
    exact .badBlock hk hcondition hce hbrace hthen hte
  next hte =>
  have hte := eq_false_of_ne_true hte
  rw [gives_acceptKind_bind] at h
  by_cases helse : m'.current.kind = .kwElse
  case neg =>
    simp only [helse, decide_false, Bool.not_false, if_true, State.skip] at h
    obtain ⟨rfl, rfl⟩ := (gives_pure ..).mp h
    exact .ifThen hk hcondition hce hbrace hthen hte helse
  simp only [helse, decide_true, Bool.not_true, Bool.false_eq_true, if_false, State.skip,
    if_true] at h
  exact reads_else hcall hk hcondition hce hbrace hthen hte helse h

theorem derived_body (hcall : Derived room call) (hwithin : Derived (room - 1) within) :
    Derived (room + 1) (body call within) := by
  intro rule s n s' hadmits h
  cases rule with
  | statement => exact reads_statement hcall h
  | binding => exact reads_binding hcall hadmits h
  | giveBack => exact reads_giveBack hcall hadmits h
  | expression => exact .expression (hcall .assignment _ _ _ trivial h)
  | assignment => exact reads_assignment hcall h
  | disjunction => exact reads_disjunction hcall h
  | conjunction => exact reads_conjunction hcall h
  | equality => exact reads_equality hcall h
  | sum =>
    exact reads_rightChain hcall .sum (by decide) (fun _ => trivial) (fun _ => trivial) h
  | product =>
    exact reads_rightChain hcall .product (by decide) (fun _ => trivial) (fun _ => trivial) h
  | prefixed => exact reads_prefixed hcall h
  | applied => exact reads_applied hcall hwithin h
  | operand => exact reads_operand hcall h
  | group => exact reads_group hwithin hadmits h
  | array => exact reads_array hwithin hadmits h
  | block => exact reads_block hwithin hadmits h
  | conditional => exact reads_conditional hcall hadmits h

theorem derived_tooDeep (room : Nat) : Derived room fun _ => tooDeep :=
  fun _ _ _ _ _ h => (not_gives_throw _ _ _ _ h).elim

theorem derived_parse : (room : Nat) → Derived room (parse room)
  | 0 => derived_tooDeep 0
  | 1 => derived_body (derived_tooDeep 0) (derived_tooDeep _)
  | room + 2 => derived_body (derived_parse (room + 1)) (derived_parse room)

/-- Statements that are read have a derivation. -/
theorem reads_of_statements {closing : Token.Kind} {read : List Node} {last : Option Node}
    (h : (statements (room + 1) closing).Gives s (read, last) s') :
    Reads room (.sequence closing []) s (.sequence read last) s' :=
  reads_sequence (derived_parse room) h

end Scriptlet.Grammar
