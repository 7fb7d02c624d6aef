import Scriptlet.Proofs.Grammar.Consumed
import Scriptlet.Proofs.Grammar.Isolation

/-!
# Lists of tokens that go on

A run of the parser that meets no fault on its way to the end of a list of tokens is also a run
over any longer list, as long as the token behind does not go on with what was read: at the end of
its own tokens the parser only looks at what comes next. Where it looks at nothing, as behind the
token that closes a block or a list of items, any token may come next.
-/

namespace Scriptlet

open Scriptlet.Parser

namespace Grammar

variable {room : Nat} {task : Task} {rule : Rule} {s m s' : State} {y : Yield}

/-- The kinds of tokens that statements and expressions start with. -/
def starts : List Token.Kind := .kwReturn :: .minus :: .bang :: .kwNot :: operandKinds

theorem Leaf.mem_starts {t : Token} {n : Node} (h : Leaf t n) : t.kind ∈ starts := by
  cases h <;> simp [starts, operandKinds, *]

theorem Refused.mem_starts {t : Token} {f : SyntaxFault} (h : Refused t f) : t.kind ∈ starts := by
  cases h <;> simp [starts, operandKinds, *]

theorem prefixOp?_mem_starts {k : Token.Kind} {op : UnaryOp} (h : prefixOp? k = some op) :
    k ∈ starts := by
  unfold prefixOp? at h
  split at h <;> simp_all [starts]

/-- No fault is recorded on the way. -/
def Faultless (s s' : State) : Prop := s'.diagnostics.length ≤ s.diagnostics.length

theorem faults_le (h : Moves s s') : s.diagnostics.length ≤ s'.diagnostics.length := by
  induction h with
  | refl => exact Nat.le_refl _
  | advance _ ih => rwa [diagnostics_advance]
  | @fault m f p _ ih =>
    have hlength : (m.fault f p).2.diagnostics.length = m.diagnostics.length + 1 :=
      List.length_append
    omega

theorem faultless_of_nil (h : s'.diagnostics = []) : Faultless s s' := by
  rw [Faultless, h]
  exact Nat.zero_le _

theorem Faultless.before (h : Faultless s s') (hrest : Moves m s') : Faultless s m :=
  Nat.le_trans (faults_le hrest) h

theorem Faultless.behind (h : Faultless s s') (hfirst : Moves s m) : Faultless m s' :=
  Nat.le_trans h (faults_le hfirst)

theorem Faultless.advance (h : Faultless s s') : Faultless s.advance s' :=
  h.behind (.advance (.refl s))

theorem not_faultless_of_fault {f : SyntaxFault} {p : Position} (h : Moves s m)
    (h' : Moves (m.fault f p).2 s') : ¬ Faultless s s' := by
  intro hfaults
  have hle := faults_le h
  have hle' := faults_le h'
  have hlength : (m.fault f p).2.diagnostics.length = m.diagnostics.length + 1 :=
    List.length_append
  unfold Faultless at hfaults
  omega

/-- A rule that records no fault starts with a token that one starts with. -/
theorem Reads.mem_starts (h : Reads room (.rule rule) s y s') (hfaults : Faultless s s') :
    s.current.kind ∈ starts := by
  generalize htask : Task.rule rule = task at h
  induction h generalizing rule with
  | bindingStatement _ _ ih | returnStatement _ _ ih | expressionStatement _ _ _ ih
  | expression _ ih | unassigning _ _ ih | chainless _ _ _ _ ih | unprefixed _ _ ih
  | unapplied _ _ ih | compound _ _ ih => exact ih hfaults rfl
  -- Rules whose first part starts with the token
  | disjunction _ hrest ih | conjunction _ hrest ih | applied _ _ hrest ih =>
    exact ih (hfaults.before (.of_reads hrest)) rfl
  | assignment _ _ hr _ _ ih | assignmentToError _ _ hr _ ih | rightChain _ _ _ hr ih =>
    exact ih (hfaults.before (.of_advance (.of_reads hr))) rfl
  | invalidTarget _ _ hr _ _ ih =>
    exact ih (hfaults.before (.of_advance (.fault _ _ (.of_reads hr)))) rfl
  | notMember _ _ _ hr ih =>
    exact ih (hfaults.before (.of_advance (.of_advance (.of_reads hr)))) rfl
  | notAlone _ _ _ ih => exact ih (hfaults.before (.expected _ (.advance (.refl _)))) rfl
  -- Rules that start with a token of their own
  | unnamed hk | unassigned hk | binding hk | bareReturn hk | returnOf hk | invalidToken hk
  | unit hk | grouped hk | tuple hk | badGroup hk | array hk | badArray hk | block hk
  | openBlock hk | badCondition hk | noBlock hk | badBlock hk | ifThen hk | noBranch hk
  | badBranch hk | ifThenElse hk => rw [hk]; decide
  | prefixed hop => exact prefixOp?_mem_starts hop
  | leaf hleaf => exact hleaf.mem_starts
  | refused hrefused => exact hrefused.mem_starts
  | missing => exact absurd hfaults (not_faultless_of_fault (.refl _) (.refl _))
  | _ => cases htask

theorem Reads.ne_eof (h : Reads room (.rule rule) s y s') (hfaults : Faultless s s') :
    s.current.kind ≠ .eof := by
  intro hk
  have hstart := h.mem_starts hfaults
  rw [hk] at hstart
  exact absurd hstart (by decide)

theorem Reads.ne_eof_of_items {closing : Token.Kind} {glyph : String} {read : List Node}
    {comma : Bool} (h : Reads room (.items closing glyph read comma) s y s')
    (hclosing : closing ≠ .eof) (hfaults : Faultless s s') : s.current.kind ≠ .eof := by
  cases h with
  | itemsEnd hk => rwa [hk]
  | badItem _ hn => exact hn.ne_eof hfaults
  | item _ hn _ _ hrest => exact hn.ne_eof (hfaults.before (.of_advance (.of_reads hrest)))
  | lastItem _ hn => exact hn.ne_eof (hfaults.before (.advance (.refl _)))
  | openItems _ hn => exact hn.ne_eof (hfaults.before (.expected _ (.refl _)))

/-- The kind of the first token, or that of the end. -/
def next (more : List Token) : Token.Kind := (more.head?.map Token.kind).getD .eof

/-- No token of the kind goes on with an expression. -/
def Rests (k : Token.Kind) : Prop := joinLevel k = 10 ∧ k ≠ .kwElse

theorem Rests.facts {k : Token.Kind} (h : Rests k) :
    k ≠ .leftParen ∧ k ≠ .leftBracket ∧ assignOp? k = none ∧ joinLevel k = 10 ∧ k ≠ .kwElse := by
  obtain ⟨hjoin, helse⟩ := h
  obtain ⟨happly, -, -, -, -, -, hassign⟩ := joinLevel_facts k
  exact ⟨(happly (by omega)).1, (happly (by omega)).2, hassign (by omega), hjoin, helse⟩

theorem RightLevel.rests {tighter : Rule} {op? : Token.Kind → Option BinaryOp} {k : Token.Kind}
    (h : RightLevel rule op? tighter) (hk : Rests k) :
    op? k = none ∧ (rule = .equality → k ≠ .kwNot) := by
  obtain ⟨hjoin, -⟩ := hk
  cases h <;> cases k <;> simp_all [joinLevel, sumOp?, productOp?]

end Grammar

/-- Is the rule one for expressions or for parts of them? -/
def Rule.isInner : Rule → Bool
  | .statement | .giveBack => false
  | _ => true

namespace Grammar

/-- Is the task a part of reading an expression, and no list of statements? -/
def Task.Inner : Task → Prop
  | .rule r => r.isInner = true
  | .chain joint _ tighter _ => joinLevel joint ≠ 10 ∧ tighter.isInner = true
  | .applications _ => True
  | .items closing _ _ _ => closing ≠ .eof
  | .sequence _ _ => False

theorem RightLevel.inner {rule tighter : Rule} {op? : Token.Kind → Option BinaryOp}
    (h : RightLevel rule op? tighter) : rule.isInner = true ∧ tighter.isInner = true := by
  cases h <;> exact ⟨rfl, rfl⟩

theorem opened?_inner {k : Token.Kind} {rule : Rule} (h : opened? k = some rule) :
    rule.isInner = true ∧ k ≠ .eof := by
  unfold opened? at h
  split at h <;> cases h <;> exact ⟨rfl, nofun⟩

theorem branch?_inner {k : Token.Kind} {rule : Rule} (h : branch? k = some rule) :
    rule.isInner = true ∧ k ≠ .eof := by
  unfold branch? at h
  split at h <;> cases h <;> exact ⟨rfl, nofun⟩

end Grammar

namespace Parser.State

open Scriptlet.Grammar

/-- The tokens come from a list, and no end stands between them. -/
def Listed (s : State) : Prop := ∃ ts, s.supply = .tokens ts ∧ ∀ t ∈ ts, t.kind ≠ .eof

/-- The state of a parser that at the end of its own tokens goes on to more. -/
def extend (more : List Token) (s : State) : State :=
  if s.current.kind = .eof then
    let (current, supply) := (Supply.tokens more).pull s.ending
    { s with current, supply }
  else s.embed ⟨0, [], more⟩

variable {s s' : State} {ts more : List Token} {text : List Char}

theorem Listed.of_moves (hs : s.Listed) (h : Moves s s') : s'.Listed := by
  obtain ⟨ts, hts, hkinds⟩ := hs
  obtain ⟨rest, hrest, hsuffix⟩ := tokens_of_moves h hts
  exact ⟨rest, hrest, fun t ht => hkinds t (hsuffix.subset ht)⟩

theorem Listed.advance (hs : s.Listed) : s.advance.Listed := hs.of_moves (.advance (.refl s))

theorem Listed.of_reads {room : Nat} {task : Task} {y : Yield} (hs : s.Listed)
    (h : Reads room task s y s') : s'.Listed := hs.of_moves (.of_reads h)

theorem listed_ofSupply (hts : ∀ t ∈ ts, t.kind ≠ .eof) :
    (State.ofSupply (.tokens ts) text).Listed :=
  ⟨ts.tail, supply_ofSupply ts text, fun t ht => hts t (List.mem_of_mem_tail ht)⟩

theorem extend_eq (hk : s.current.kind ≠ .eof) : s.extend more = s.embed ⟨0, [], more⟩ := if_neg hk

theorem extend_current (more : List Token) (hk : s.current.kind ≠ .eof) :
    (s.extend more).current = s.current := by
  rw [extend_eq hk, embed_current]

/-- What is looked for, and is no end, is found all the same. -/
theorem kind_extend_eq {k : Token.Kind} (hk : s.current.kind = k) (hne : k ≠ .eof) :
    (s.extend more).current.kind = k := by
  rw [extend_current _ (hk ▸ hne), hk]

theorem kind_extend (hk : s.current.kind = .eof) : (s.extend more).current.kind = next more := by
  rw [extend, if_pos hk]
  cases more with
  | nil => rfl
  | cons t more => exact Supply.pull_tokens_kind t more s.ending

/-- What holds of the current kind, and of the next one too, holds where the list goes on. -/
theorem extend_kind {P : Token.Kind → Prop} (h : P s.current.kind) (hnext : P (next more)) :
    P (s.extend more).current.kind := by
  by_cases hk : s.current.kind = .eof
  · rwa [kind_extend hk]
  · rwa [extend_current _ hk]

/-- The token is the same, unless the end gives way to what comes next. -/
theorem extend_cases (more : List Token) (s : State) :
    (s.current.kind = .eof ∧ (s.extend more).current.kind = next more) ∨
      (s.current.kind ≠ .eof ∧ (s.extend more).current = s.current) := by
  by_cases hk : s.current.kind = .eof
  · exact .inl ⟨hk, kind_extend hk⟩
  · exact .inr ⟨hk, extend_current _ hk⟩

theorem extend_advance (hs : s.Listed) (hk : s.current.kind ≠ .eof) :
    s.advance.extend more = (s.extend more).advance := by
  obtain ⟨ts, hts, hkinds⟩ := hs
  rw [State.advance, if_neg hk, extend_eq hk, State.advance, embed_current, if_neg hk, hts]
  cases ts with
  | nil =>
    simp only [extend, embed, Supply.pull, hts, Token.endAt, Supply.extend]
    simp
  | cons t ts =>
    have ht := hkinds t (by simp)
    simp only [extend, embed, Supply.pull, hts, Supply.extend, ht, if_false]
    simp [ht]

theorem extend_skip {kind : Token.Kind} (hs : s.Listed) (hk : s.current.kind ≠ .eof) :
    (s.skip kind).extend more = (s.extend more).skip kind := by
  rw [State.skip, State.skip, extend_current _ hk]
  split
  · exact extend_advance hs hk
  · rfl

/-- The start of a list that goes on. -/
theorem extend_ofSupply (hts : ∀ t ∈ ts, t.kind ≠ .eof) :
    (State.ofSupply (.tokens ts) text).extend more = .ofSupply (.tokens (ts ++ more)) text := by
  cases ts with
  | nil => rfl
  | cons t ts =>
    have hk : (State.ofSupply (.tokens (t :: ts)) text).current.kind = t.kind :=
      Supply.pull_tokens_kind t ts (.endOf text)
    have hne := hk ▸ hts t (by simp)
    rw [extend_eq hne, embed_ofSupply (List.cons_ne_nil t ts)]

/-- The end of a list that goes on is the start of what comes next. -/
theorem extend_ends (h : Moves (.ofSupply (.tokens ts) text) s') (hk : s'.current.kind = .eof) :
    s'.extend more =
      (State.ofSupply (.tokens more) text).embed ⟨s'.consumed, s'.diagnostics, []⟩ := by
  have hending : s'.ending = .endOf text := ending_of_moves h
  rw [extend, if_pos hk]
  simp [embed, ofSupply, hending, Supply.extend_nil]

end Parser.State

namespace Grammar

open State (Listed)

variable {room : Nat} {task : Task} {s m s' : State} {y : Yield} {more : List Token}

/-- Before the end of its tokens a parser does not notice that they go on. -/
theorem Reads.extend_inside (h : Reads room task s y s') (more : List Token)
    (hk : s'.current.kind ≠ .eof) : Reads room task (s.extend more) y (s'.extend more) := by
  have hs : s.current.kind ≠ .eof := fun heof => hk (State.eof_of_moves (.of_reads h) heof)
  rw [State.extend_eq hs, State.extend_eq hk]
  exact h.embed (.inr hk)

end Grammar

/-- Is the rule one for operands that end with a token of their own? -/
def Rule.isEnclosed : Rule → Bool
  | .group | .array | .block | .conditional => true
  | _ => false

namespace Grammar

open State (Listed)

/-- What is read ends with a token of its own, behind which only `else` could be looked for. -/
def Closed : Task → Yield → Prop
  | .items _ _ _ _, y => ∃ read comma, y = .items read comma
  | .rule r, y => ∃ n, y = .node n ∧ n.isError = false ∧
      (r.isEnclosed = true ∨ (r = .operand ∧ n.isBlockLike = true))
  | _, _ => False

theorem opened?_enclosed {k : Token.Kind} {rule : Rule} (h : opened? k = some rule) :
    rule.isEnclosed = true ∨ rule = .binding := by
  unfold opened? at h
  split at h <;> cases h <;> simp [Rule.isEnclosed]

theorem branch?_enclosed {k : Token.Kind} {rule : Rule} (h : branch? k = some rule) :
    rule.isEnclosed = true := by
  unfold branch? at h
  split at h <;> cases h <;> rfl

theorem RightLevel.not_enclosed {rule tighter : Rule} {op? : Token.Kind → Option BinaryOp}
    (h : RightLevel rule op? tighter) : rule.isEnclosed = false ∧ rule ≠ .operand := by
  cases h <;> exact ⟨rfl, nofun⟩

theorem Leaf.not_blockLike {t : Token} {n : Node} (h : Leaf t n) : ¬ n.isBlockLike = Bool.true := by
  cases h <;> exact nofun

theorem Reads.not_blockLike_of_binding {room : Nat} {s s' : State} {n : Node}
    (h : Reads room (.rule .binding) s (.node n) s') : ¬ n.isBlockLike = true := by
  cases h with
  | chainless hlevel => cases hlevel
  | rightChain hlevel => cases hlevel
  | _ => exact nofun

section Closed

variable {room : Nat} {rule : Rule} {s s' : State} {y : Yield} {n : Node}

theorem not_closed_of_rule (hrule : rule.isEnclosed = false ∧ rule ≠ .operand) :
    ¬ Closed (.rule rule) y := by
  rintro ⟨n, -, -, henclosed | ⟨hoperand, -⟩⟩
  · rw [hrule.1] at henclosed
    cases henclosed
  · exact hrule.2 hoperand

theorem not_closed_of_error (he : n.isError = true) : ¬ Closed (.rule rule) (.node n) := by
  rintro ⟨n', heq, herror, -⟩
  cases heq
  rw [he] at herror
  cases herror

theorem not_closed_of_items {closing : Token.Kind} {glyph : String} {read : List Node}
    {comma : Bool} : ¬ Closed (.items closing glyph read comma) (.node n) := nofun

theorem not_closed_of_operand (hn : ¬ n.isBlockLike = true) :
    ¬ Closed (.rule .operand) (.node n) := by
  rintro ⟨n', heq, -, henclosed | ⟨-, hblock⟩⟩
  · cases henclosed
  · cases heq
    exact hn hblock

/-- An operand that ends with a token of its own is one that starts with it. -/
theorem Closed.of_operand (h : Closed (.rule .operand) y)
    (hrule : opened? s.current.kind = some rule) (hn : Reads room (.rule rule) s y s') :
    Closed (.rule rule) y := by
  obtain ⟨n, rfl, herror, henclosed | ⟨-, hblock⟩⟩ := h
  · cases henclosed
  · rcases opened?_enclosed hrule with henclosed | rfl
    · exact ⟨n, rfl, herror, .inl henclosed⟩
    · exact absurd hblock hn.not_blockLike_of_binding

end Closed

section Extend

variable {room : Nat} {task : Task} {s s' : State} {y : Yield} {more : List Token}

/-- What comes next does not go on with what is read. -/
def Parts (more : List Token) (task : Task) (y : Yield) : Prop :=
  Rests (next more) ∨ (next more ≠ .kwElse ∧ Closed task y)

theorem Parts.ne_else (h : Parts more task y) : next more ≠ .kwElse :=
  h.elim And.right And.left

theorem Parts.rests (h : Parts more task y) (hopen : ¬ Closed task y) : Rests (next more) :=
  h.resolve_right fun hclosed => hopen hclosed.2

/-- Nor does it go on with the last part of what has no end of its own. -/
theorem Parts.part {task' : Task} {y' : Yield} (h : Parts more task y) (hopen : ¬ Closed task y) :
    Parts more task' y' := .inl (h.rests hopen)

/-- At the end a parser takes what comes next for the end, unless that goes on with an expression
which may go on. -/
theorem Reads.extend (h : Reads room task s y s') (hs : s.Listed) (hfaults : Faultless s s')
    (htask : task.Inner) (hnext : Parts more task y) :
    Reads room task (s.extend more) y (s'.extend more) := by
  induction h with
  -- The node holds a token that lies between the first one and the name.
  | @binding _ s m v s' hk hm hname hassign hv ih =>
    have hrests := hnext.rests (not_closed_of_rule ⟨rfl, nofun⟩)
    have hlet : s.current.kind ≠ .eof := by simp [hk]
    have hne : m.current.kind ≠ .eof := by simp [hname]
    have hne' : m.advance.current.kind ≠ .eof := by simp [hassign]
    have hmarker : s.advance.current.kind ≠ .eof := by
      intro heof
      exact hne (hm ▸ State.eof_of_moves (.skip .kwMut (.refl s.advance)) heof)
    have hmoves := Moves.marker hm
    have hlisted := hs.of_moves hmoves
    have hskip : (s.extend more).advance.skip .kwMut = m.extend more := by
      rw [← State.extend_advance hs hlet, ← State.extend_skip hs.advance hmarker, hm]
    have hequal : (m.extend more).advance.current.kind = .assign := by
      rw [← State.extend_advance hlisted hne]
      exact State.kind_extend_eq hassign (by decide)
    have hread := ih hlisted.advance.advance (hfaults.behind (.advance (.advance hmoves))) rfl
      (.inl hrests)
    rw [State.extend_advance hlisted.advance hne', State.extend_advance hlisted hne] at hread
    have hnode := Reads.binding (State.kind_extend_eq hk (by decide)) hskip
      (State.kind_extend_eq hname (by decide)) hequal hread
    rwa [← State.extend_advance hs hlet, State.extend_current _ hlet,
      State.extend_current _ hmarker, State.extend_current _ hne] at hnode
  | expression _ ih =>
    exact .expression (ih hs hfaults rfl (hnext.part (not_closed_of_rule ⟨rfl, nofun⟩)))
  -- Operators
  | unassigning _ hop ih =>
    have hrests := hnext.rests (not_closed_of_rule ⟨rfl, nofun⟩)
    exact .unassigning (ih hs hfaults rfl (.inl hrests))
      (State.extend_kind (P := fun k => assignOp? k = none) hop hrests.facts.2.2.1)
  | assignment hl hop hr he hkind _ ihr =>
    have hm := (assignOp?_kind_ne hop).1
    have hright := Moves.advance (.of_reads hl)
    have hread := ihr (hs.of_moves hright) (hfaults.behind hright) rfl
      (hnext.part (not_closed_of_rule ⟨rfl, nofun⟩))
    rw [State.extend_advance (hs.of_reads hl) hm] at hread
    exact .assignment (hl.extend_inside _ hm) (by rwa [State.extend_current _ hm]) hread he hkind
  | assignmentToError hl hop hr he _ ihr =>
    have hm := (assignOp?_kind_ne hop).1
    have hright := Moves.advance (.of_reads hl)
    have hread := ihr (hs.of_moves hright) (hfaults.behind hright) rfl
      (hnext.part (not_closed_of_rule ⟨rfl, nofun⟩))
    rw [State.extend_advance (hs.of_reads hl) hm] at hread
    exact .assignmentToError (hl.extend_inside _ hm) (by rwa [State.extend_current _ hm]) hread he
  | disjunction hl hrest ihl ih =>
    have hrests := hnext.rests (not_closed_of_rule ⟨rfl, nofun⟩)
    exact .disjunction (ihl hs (hfaults.before (.of_reads hrest)) rfl (.inl hrests))
      (ih (hs.of_reads hl) (hfaults.behind (.of_reads hl)) ⟨by decide, rfl⟩ (.inl hrests))
  | conjunction hl hrest ihl ih =>
    have hrests := hnext.rests (not_closed_of_rule ⟨rfl, nofun⟩)
    exact .conjunction (ihl hs (hfaults.before (.of_reads hrest)) rfl (.inl hrests))
      (ih (hs.of_reads hl) (hfaults.behind (.of_reads hl)) ⟨by decide, rfl⟩ (.inl hrests))
  | chainEnd hk =>
    have hrests : Rests (next more) := hnext.rests id
    refine .chainEnd (State.extend_kind (P := (· ≠ _)) hk ?_)
    rintro rfl
    exact htask.1 hrests.1
  | @chainLink _ _ _ _ _ s _ _ _ _ hk hr hrest ihr ih =>
    have hrests : Rests (next more) := hnext.rests id
    have hne : s.current.kind ≠ .eof := by
      intro heof
      rw [heof] at hk
      exact htask.1 (hk ▸ rfl)
    have hlink := hfaults.before (.of_reads hrest)
    have hread := ihr hs.advance hlink.advance htask.2 (.inl hrests)
    rw [State.extend_advance hs hne] at hread
    exact .chainLink (by rwa [State.extend_current _ hne]) hread
      (ih (hs.advance.of_reads hr) (hfaults.behind (.of_advance (.of_reads hr))) htask
        (.inl hrests))
  | chainless hlevel _ hop hnot ih =>
    have hrests := hnext.rests (not_closed_of_rule hlevel.not_enclosed)
    obtain ⟨hop', hnot'⟩ := hlevel.rests hrests
    exact .chainless hlevel (ih hs hfaults hlevel.inner.2 (.inl hrests))
      (State.extend_kind (P := fun k => _ = none) hop hop')
      fun hrule => State.extend_kind (P := (· ≠ .kwNot)) (hnot hrule) (hnot' hrule)
  | rightChain hlevel hl hop hr _ ihr =>
    have hm := (hlevel.kind_ne hop).1
    have hright := Moves.advance (.of_reads hl)
    have hread := ihr (hs.of_moves hright) (hfaults.behind hright) htask
      (hnext.part (not_closed_of_rule hlevel.not_enclosed))
    rw [State.extend_advance (hs.of_reads hl) hm] at hread
    exact .rightChain hlevel (hl.extend_inside _ hm) (by rwa [State.extend_current _ hm]) hread
  | @notMember _ s l m r s' hl hnot hin hr _ ihr =>
    have hm : m.current.kind ≠ .eof := by simp [hnot]
    have hm' : m.advance.current.kind ≠ .eof := by simp [hin]
    have hlisted := hs.of_reads hl
    have hread := ihr hlisted.advance.advance
      (hfaults.behind (.advance (.advance (.of_reads hl)))) rfl
      (hnext.part (not_closed_of_rule ⟨rfl, nofun⟩))
    rw [State.extend_advance hlisted.advance hm', State.extend_advance hlisted hm] at hread
    refine .notMember (hl.extend_inside _ hm) (State.kind_extend_eq hnot (by decide)) ?_ hread
    rw [← State.extend_advance hlisted hm]
    exact State.kind_extend_eq hin (by decide)
  | unprefixed hop h ih =>
    have hk := h.ne_eof hfaults
    exact .unprefixed (by rwa [State.extend_current _ hk])
      (ih hs hfaults rfl (hnext.part (not_closed_of_rule ⟨rfl, nofun⟩)))
  | @prefixed _ s _ _ _ hop _ ih =>
    have hk := (prefixOp?_kind_ne hop).1
    have hread := ih hs.advance hfaults.advance rfl (hnext.part (not_closed_of_rule ⟨rfl, nofun⟩))
    rw [State.extend_advance hs hk] at hread
    rw [← State.extend_current more hk]
    exact .prefixed (by rwa [State.extend_current _ hk]) hread
  -- Calls and indexes
  | unapplied _ hend ih =>
    exact .unapplied (ih hs hfaults rfl (hnext.part (not_closed_of_rule ⟨rfl, nofun⟩))) hend
  | applied hn hend hrest ihn ih =>
    have hrests := hnext.rests (not_closed_of_rule ⟨rfl, nofun⟩)
    exact .applied (ihn hs (hfaults.before (.of_reads hrest)) rfl (.inl hrests)) hend
      (ih (hs.of_reads hn) (hfaults.behind (.of_reads hn)) trivial (.inl hrests))
  | applicationsEnd hparen hbracket =>
    have hrests : Rests (next more) := hnext.rests id
    exact .applicationsEnd (State.extend_kind (P := (· ≠ .leftParen)) hparen hrests.facts.1)
      (State.extend_kind (P := (· ≠ .leftBracket)) hbracket hrests.facts.2.1)
  | @call _ _ s _ _ _ _ _ hk hitems hrest ihitems ih =>
    have hne : s.current.kind ≠ .eof := by simp [hk]
    have hinner := hfaults.before (.of_reads hrest)
    have hread := ihitems hs.advance hinner.advance nofun (.inr ⟨hnext.ne_else, _, _, rfl⟩)
    rw [State.extend_advance hs hne] at hread
    exact .call (State.kind_extend_eq hk (by decide)) hread
      (ih (hs.advance.of_reads hitems) (hfaults.behind (.of_advance (.of_reads hitems))) trivial
        (hnext.part id))
  | @badCall _ _ s _ _ hk hitems ih =>
    have hne : s.current.kind ≠ .eof := by simp [hk]
    have hread := ih hs.advance hfaults.advance nofun (hnext.part id)
    rw [State.extend_advance hs hne] at hread
    exact .badCall (State.kind_extend_eq hk (by decide)) hread
  | @index _ _ s _ m _ _ hk hi he hclose hrest _ ih =>
    have hne : s.current.kind ≠ .eof := by simp [hk]
    have hm : m.current.kind ≠ .eof := by simp [hclose]
    have hinner := hs.advance.of_reads hi
    have hread := hi.extend_inside more hm
    have hread' := ih hinner.advance (hfaults.behind (.advance (.of_advance (.of_reads hi))))
      trivial (hnext.part id)
    rw [State.extend_advance hs hne] at hread
    rw [State.extend_advance hinner hm] at hread'
    exact .index (State.kind_extend_eq hk (by decide)) hread he
      (State.kind_extend_eq hclose (by decide)) hread'
  | @badIndex _ _ s _ _ hk hi he ih =>
    have hne : s.current.kind ≠ .eof := by simp [hk]
    have hread := ih hs.advance hfaults.advance rfl (hnext.part id)
    rw [State.extend_advance hs hne] at hread
    exact .badIndex (State.kind_extend_eq hk (by decide)) hread he
  -- Operands
  | leaf hleaf =>
    have hk := hleaf.kind_ne.1
    rw [State.extend_advance hs hk]
    exact .leaf (by rwa [State.extend_current _ hk])
  | @invalidToken _ s hk =>
    have hne : s.current.kind ≠ .eof := by simp [hk]
    rw [State.extend_advance hs hne, ← State.extend_current more hne]
    exact .invalidToken (State.kind_extend_eq hk (by decide))
  | compound hrule h ih =>
    obtain ⟨hinner, hne⟩ := opened?_inner hrule
    have hnext' := hnext.imp_right (And.imp_right fun hclosed => hclosed.of_operand hrule h)
    exact .compound (by rwa [State.extend_current _ hne]) (ih hs hfaults hinner hnext')
  | @unit _ s hk hempty =>
    have hne : s.current.kind ≠ .eof := by simp [hk]
    have hne' : s.advance.current.kind ≠ .eof := by simp [hempty]
    rw [State.extend_advance hs.advance hne', State.extend_advance hs hne,
      ← State.extend_current more hne]
    refine .unit (State.kind_extend_eq hk (by decide)) ?_
    rw [← State.extend_advance hs hne]
    exact State.kind_extend_eq hempty (by decide)
  | @grouped _ s _ _ hk hempty hitems ih =>
    have hne : s.current.kind ≠ .eof := by simp [hk]
    have hread := ih hs.advance hfaults.advance nofun (.inr ⟨hnext.ne_else, _, _, rfl⟩)
    have hne' := hitems.ne_eof_of_items (by decide) hfaults.advance
    rw [State.extend_advance hs hne] at hread
    refine .grouped (State.kind_extend_eq hk (by decide)) ?_ hread
    rwa [← State.extend_advance hs hne, State.extend_current _ hne']
  | @tuple _ s _ _ _ hk hempty hitems hone ih =>
    have hne : s.current.kind ≠ .eof := by simp [hk]
    have hread := ih hs.advance hfaults.advance nofun (.inr ⟨hnext.ne_else, _, _, rfl⟩)
    have hne' := hitems.ne_eof_of_items (by decide) hfaults.advance
    rw [State.extend_advance hs hne] at hread
    rw [← State.extend_current more hne]
    refine .tuple (State.kind_extend_eq hk (by decide)) ?_ hread hone
    rwa [← State.extend_advance hs hne, State.extend_current _ hne']
  | @badGroup _ s _ _ hk hempty hitems ih =>
    have hne : s.current.kind ≠ .eof := by simp [hk]
    have hread := ih hs.advance hfaults.advance nofun
      (hnext.part (not_closed_of_error hitems.isError_of_items))
    have hne' := hitems.ne_eof_of_items (by decide) hfaults.advance
    rw [State.extend_advance hs hne] at hread
    refine .badGroup (State.kind_extend_eq hk (by decide)) ?_ hread
    rwa [← State.extend_advance hs hne, State.extend_current _ hne']
  | @array _ s _ _ _ hk _ ih =>
    have hne : s.current.kind ≠ .eof := by simp [hk]
    have hread := ih hs.advance hfaults.advance nofun (.inr ⟨hnext.ne_else, _, _, rfl⟩)
    rw [State.extend_advance hs hne] at hread
    rw [← State.extend_current more hne]
    exact .array (State.kind_extend_eq hk (by decide)) hread
  | @badArray _ s _ _ hk hitems ih =>
    have hne : s.current.kind ≠ .eof := by simp [hk]
    have hread := ih hs.advance hfaults.advance nofun
      (hnext.part (not_closed_of_error hitems.isError_of_items))
    rw [State.extend_advance hs hne] at hread
    exact .badArray (State.kind_extend_eq hk (by decide)) hread
  | @block _ s _ _ m hk hstatements hclose _ =>
    have hne : s.current.kind ≠ .eof := by simp [hk]
    have hm : m.current.kind ≠ .eof := by simp [hclose]
    have hread := hstatements.extend_inside more hm
    rw [State.extend_advance hs hne] at hread
    rw [State.extend_advance (hs.advance.of_reads hstatements) hm,
      ← State.extend_current more hne]
    exact .block (State.kind_extend_eq hk (by decide)) hread
      (State.kind_extend_eq hclose (by decide))
  | @badCondition _ s _ _ hk _ he ih =>
    have hne : s.current.kind ≠ .eof := by simp [hk]
    have hread := ih hs.advance hfaults.advance rfl (hnext.part (not_closed_of_error he))
    rw [State.extend_advance hs hne] at hread
    exact .badCondition (State.kind_extend_eq hk (by decide)) hread he
  | @badBlock _ s _ m _ _ hk hc he hbrace ht he' _ iht =>
    have hne : s.current.kind ≠ .eof := by simp [hk]
    have hread := hc.extend_inside more (by simp [hbrace])
    have hread' := iht (hs.advance.of_reads hc) (hfaults.behind (.of_advance (.of_reads hc))) rfl
      (hnext.part (not_closed_of_error he'))
    rw [State.extend_advance hs hne] at hread
    exact .badBlock (State.kind_extend_eq hk (by decide)) hread he
      (State.kind_extend_eq hbrace (by decide)) hread' he'
  | @ifThen _ s _ m _ _ hk hc he hbrace ht he' helse _ iht =>
    have hne : s.current.kind ≠ .eof := by simp [hk]
    have hread := hc.extend_inside more (by simp [hbrace])
    have hread' := iht (hs.advance.of_reads hc) (hfaults.behind (.of_advance (.of_reads hc))) rfl
      (.inr ⟨hnext.ne_else, _, rfl, he', .inl rfl⟩)
    rw [State.extend_advance hs hne] at hread
    rw [← State.extend_current more hne]
    exact .ifThen (State.kind_extend_eq hk (by decide)) hread he
      (State.kind_extend_eq hbrace (by decide)) hread' he'
      (State.extend_kind (P := (· ≠ .kwElse)) helse hnext.ne_else)
  | @badBranch _ s _ m _ m' _ _ _ hk hc he hbrace ht he' helse hrule hb he'' _ _ ihb =>
    have hne : s.current.kind ≠ .eof := by simp [hk]
    have hm' : m'.current.kind ≠ .eof := by simp [helse]
    obtain ⟨hinner, hbranch⟩ := branch?_inner hrule
    have hblock := (Moves.of_advance (.of_reads hc)).trans (.of_reads ht)
    have hread := hc.extend_inside more (by simp [hbrace])
    have hread' := ihb (hs.of_moves hblock).advance (hfaults.behind (.advance hblock)) hinner
      (hnext.part (not_closed_of_error he''))
    rw [State.extend_advance hs hne] at hread
    rw [State.extend_advance (hs.of_moves hblock) hm'] at hread'
    refine .badBranch (State.kind_extend_eq hk (by decide)) hread he
      (State.kind_extend_eq hbrace (by decide)) (ht.extend_inside _ hm') he'
      (State.kind_extend_eq helse (by decide)) ?_ hread' he''
    rwa [← State.extend_advance (hs.of_moves hblock) hm', State.extend_current _ hbranch]
  | @ifThenElse _ s _ m _ m' _ _ _ hk hc he hbrace ht he' helse hrule hb he'' _ _ ihb =>
    have hne : s.current.kind ≠ .eof := by simp [hk]
    have hm' : m'.current.kind ≠ .eof := by simp [helse]
    obtain ⟨hinner, hbranch⟩ := branch?_inner hrule
    have hblock := (Moves.of_advance (.of_reads hc)).trans (.of_reads ht)
    have hread := hc.extend_inside more (by simp [hbrace])
    have hread' := ihb (hs.of_moves hblock).advance (hfaults.behind (.advance hblock)) hinner
      (.inr ⟨hnext.ne_else, _, rfl, he'', .inl (branch?_enclosed hrule)⟩)
    rw [State.extend_advance hs hne] at hread
    rw [State.extend_advance (hs.of_moves hblock) hm'] at hread'
    rw [← State.extend_current more hne]
    refine .ifThenElse (State.kind_extend_eq hk (by decide)) hread he
      (State.kind_extend_eq hbrace (by decide)) (ht.extend_inside _ hm') he'
      (State.kind_extend_eq helse (by decide)) ?_ hread' he''
    rwa [← State.extend_advance (hs.of_moves hblock) hm', State.extend_current _ hbranch]
  -- Items
  | itemsEnd hk =>
    rw [State.extend_advance hs (hk ▸ htask)]
    exact .itemsEnd (State.kind_extend_eq hk htask)
  | badItem hk hn he ih =>
    have hne := hn.ne_eof hfaults
    exact .badItem (by rwa [State.extend_current _ hne])
      (ih hs hfaults rfl (hnext.part not_closed_of_items)) he
  | @item _ _ _ _ _ s _ m _ _ hk hn he hcomma hrest _ ih =>
    have hm : m.current.kind ≠ .eof := by simp [hcomma]
    have hne := hn.ne_eof (hfaults.before (.of_advance (.of_reads hrest)))
    have hread := ih (hs.of_reads hn).advance (hfaults.behind (.advance (.of_reads hn))) htask hnext
    rw [State.extend_advance (hs.of_reads hn) hm] at hread
    exact .item (by rwa [State.extend_current _ hne]) (hn.extend_inside _ hm) he
      (State.kind_extend_eq hcomma (by decide)) hread
  | lastItem hk hn he hcomma hclose _ =>
    have hm := hclose ▸ htask
    have hne := hn.ne_eof (hfaults.before (.advance (.refl _)))
    rw [State.extend_advance (hs.of_reads hn) hm]
    exact .lastItem (by rwa [State.extend_current _ hne]) (hn.extend_inside _ hm) he
      (by rwa [State.extend_current _ hm]) (State.kind_extend_eq hclose htask)
  -- The other ways record a fault, or they read statements.
  | unnamed _ hm => exact absurd hfaults (not_faultless_of_fault (.marker hm) (.refl _))
  | unassigned _ hm =>
    exact absurd hfaults (not_faultless_of_fault (.advance (.marker hm)) (.refl _))
  | invalidTarget hl _ hr =>
    have hmoves := (Moves.of_reads hl).trans (.of_advance (.of_reads hr))
    exact absurd hfaults (not_faultless_of_fault hmoves (.refl _))
  | notAlone hl =>
    exact absurd hfaults (not_faultless_of_fault (.advance (.of_reads hl)) (.refl _))
  | openIndex _ h | openBlock _ h | noBlock _ h =>
    exact absurd hfaults (not_faultless_of_fault (.of_advance (.of_reads h)) (.refl _))
  | refused => exact absurd hfaults (not_faultless_of_fault (.advance (.refl _)) (.refl _))
  | missing => exact absurd hfaults (not_faultless_of_fault (.refl _) (.refl _))
  | noBranch _ hc _ _ ht =>
    have hmoves := (Moves.of_advance (.of_reads hc)).trans (.of_reads ht)
    exact absurd hfaults (not_faultless_of_fault (.advance hmoves) (.refl _))
  | openItems _ hn => exact absurd hfaults (not_faultless_of_fault (.of_reads hn) (.refl _))
  | _ => cases htask

end Extend

end Grammar

end Scriptlet
