import Scriptlet.Proofs.Grammar.BlockLike
import Scriptlet.Proofs.Grammar.Blind
import Scriptlet.Proofs.Grammar.Ending
import Scriptlet.Proofs.Grammar.Matching

/-!
# Calls and indexes of expressions in parentheses

An expression in parentheses is an operand, which can be called and indexed. But parentheses leave
no node behind, so that a block, a conditional or a binding in them is taken for one without: what
stands behind it is neither a call nor an index.
-/

namespace Scriptlet

open Scriptlet.Parser

namespace Grammar

/-- The tokens are one expression, which is read as the node without diagnostics. -/
structure Accepts (tokens : List Token) (text : List Char) (n : Node) : Prop where
  reads : ((soleExpression nestingLimit).run (.ofSupply (.tokens tokens) text)).1 = n
  faultless :
    ((soleExpression nestingLimit).run (.ofSupply (.tokens tokens) text)).2.diagnostics = []
  proper : n.isError = false

/-- Do the rules of the expression stay within the limit of their nesting? -/
def expressionFits (tokens : List Token) (text : List Char) : Bool :=
  ((parse (nestingLimit - 1) .expression).outcome (.ofSupply (.tokens tokens) text)).1.isOk

section Single

variable {tokens : List Token} {text : List Char} {n : Node} {s s' : State}

/-- An expression that is no error is to come to the end. -/
theorem soleExpression_run {room : Nat} (h : Reads room (.rule .expression) s (.node n) s') :
    (soleExpression (room + 1)).run s =
      if s'.current.kind = .eof || n.isError then (n, s') else s'.expected "end of input" := by
  have hrun : StateT.run (ExceptT.run (parse room .expression)) s = (.ok n, s') :=
    serves_parse room .expression s n s' h
  rw [soleExpression, StateT.run_bind, Nat.add_sub_cancel room 1, hrun]
  by_cases hend : (s'.current.kind = .eof || n.isError) = true
  · rw [if_pos hend]
    change StateT.run (if _ then _ else _) s' = _
    rw [if_pos hend]
    rfl
  · rw [if_neg hend]
    change StateT.run (if _ then _ else _) s' = _
    rw [if_neg hend]
    rfl

/-- The two ways in which a single expression is read: it has a derivation, or there is no room
for it. -/
theorem soleExpression_cases (room : Nat) (s : State) :
    (∃ n s', Reads room (.rule .expression) s (.node n) s') ∨
      ∃ m : State, (soleExpression (room + 1)).run s = m.giveUp := by
  rcases hout : (parse room .expression).outcome s with ⟨r, m⟩
  cases r with
  | ok n => exact .inl ⟨n, m, derived_parse room .expression s n m trivial hout⟩
  | error e =>
    have hrun : StateT.run (ExceptT.run (parse room .expression)) s = (.error e, m) := hout
    refine .inr ⟨m, ?_⟩
    rw [soleExpression, StateT.run_bind, Nat.add_sub_cancel room 1, hrun]
    rfl

theorem accepts_iff : Accepts tokens text n ↔
    ∃ s, Reads 979 (.rule .expression) (.ofSupply (.tokens tokens) text) (.node n) s ∧
      s.current.kind = .eof ∧ s.diagnostics = [] ∧ n.isError = false := by
  constructor
  · rintro ⟨hread, hfaultless, hproper⟩
    obtain ⟨n', m, hreads⟩ | ⟨m, hrun⟩ :=
      soleExpression_cases 979 (.ofSupply (.tokens tokens) text)
    · rw [nestingLimit, soleExpression_run hreads] at hread hfaultless
      by_cases hend : (m.current.kind = .eof || n'.isError) = true
      · rw [if_pos hend] at hread hfaultless
        obtain rfl : n' = n := hread
        refine ⟨m, hreads, ?_, hfaultless, hproper⟩
        simpa [hproper] using hend
      · rw [if_neg hend] at hread
        rw [← hread] at hproper
        cases hproper
    · rw [nestingLimit, hrun] at hread
      rw [← hread] at hproper
      cases hproper
  · rintro ⟨s, hreads, hend, hfaultless, hproper⟩
    have hrun := soleExpression_run hreads
    rw [if_pos (by simp [hend])] at hrun
    exact ⟨congrArg Prod.fst hrun, (congrArg (·.2.diagnostics) hrun).trans hfaultless, hproper⟩

/-- The text only counts for complaints. -/
theorem Accepts.endingAt (h : Accepts tokens text n) (text' : List Char) :
    Accepts tokens text' n := by
  obtain ⟨s, hreads, hend, hfaultless, hproper⟩ := accepts_iff.mp h
  have hreads' := hreads.endingAt (faultless_of_nil hfaultless) (.endOf text')
  rw [State.endingAt_ofSupply] at hreads'
  exact accepts_iff.mpr
    ⟨_, hreads', (State.endingAt_kind _ s).trans hend, hfaultless, hproper⟩

/-- Nothing behind an end is looked at. -/
theorem Accepts.congr {tokens' : List Token}
    (hpending : (Supply.tokens tokens').pending = (Supply.tokens tokens).pending)
    (h : Accepts tokens text n) : Accepts tokens' text n := by
  obtain ⟨s, hreads, hend, hfaultless, hproper⟩ := accepts_iff.mp h
  have hplace : Token.place id = id := rfl
  have hstart : Corresponds id (.ofSupply (.tokens tokens) text)
      (.ofSupply (.tokens tokens') text) :=
    corresponds_ofSupply (by rw [hpending, hplace, List.map_id]) rfl
  have hgives := serves_parse 979 .expression _ n s hreads
  obtain ⟨-, -, hresult, hstates⟩ := mirrors_parse id 979 .expression _ _ hstart
  rcases hrun : (parse 979 .expression).outcome (.ofSupply (.tokens tokens') text) with ⟨r, m⟩
  rw [hgives, hrun] at hresult hstates
  dsimp only at hresult hstates
  rw [hresult, Except.map, Node.place_id] at hrun
  refine accepts_iff.mpr ⟨m, derived_parse 979 .expression _ n m trivial hrun, ?_, ?_, hproper⟩
  · rw [hstates.kind, hend]
  · rw [hstates.diagnostics, hfaultless]
    rfl

/-- Within the limit an expression is read as it is with enough room. -/
theorem Gets.reads (h : Gets .expression (.ofSupply (.tokens tokens) text) n s')
    (hfits : expressionFits tokens text = true) :
    Reads 979 (.rule .expression) (.ofSupply (.tokens tokens) text) (.node n) s' := by
  obtain ⟨n', m, hgives⟩ := exists_gives hfits
  have hreads := derived_parse 979 .expression _ n' m trivial hgives
  obtain ⟨room, h⟩ := h
  obtain ⟨larger, hlarge, hlarge'⟩ := common_room h hreads
  obtain ⟨rfl, rfl⟩ := hlarge.unique_node hlarge'
  exact hreads

end Single

section Before

variable {room k : Nat} {task : Task} {t : Token} {ts more : List Token} {text : List Char}
  {y : Yield} {s' : State}

/-- In front of the tokens, with `k` consumed before them and nothing recorded. -/
def before (k : Nat) (ts : List Token) (text : List Char) : State :=
  (State.ofSupply (.tokens ts) text).embed ⟨k, [], []⟩

theorem before_zero (ts : List Token) (text : List Char) :
    before 0 ts text = .ofSupply (.tokens ts) text := by
  simp [before, State.embed, State.ofSupply, Supply.extend_nil]

theorem kind_before (k : Nat) (ts : List Token) (text : List Char) :
    (before k ts text).current.kind = next ts := by
  cases ts with
  | nil => rfl
  | cons t ts => exact Supply.pull_tokens_kind t ts (.endOf text)

theorem advance_before (ht : t.kind ≠ .eof) :
    (before k (t :: ts) text).advance = before (k + 1) ts text := by
  have hk : (before k (t :: ts) text).current.kind ≠ .eof := by rwa [kind_before]
  rw [State.advance, if_neg hk]
  simp [before, State.embed, State.ofSupply, Supply.pull, Supply.extend_nil]

/-- What is read from all of a list is read from it in front of what does not go on with it. -/
theorem Reads.in_front_of (h : Reads room task (.ofSupply (.tokens ts) text) y s')
    (hts : ∀ t ∈ ts, t.kind ≠ .eof) (hend : s'.current.kind = .eof) (hclean : s'.diagnostics = [])
    (htask : task.Inner) (hnext : Rests (next more)) (k : Nat) :
    ∃ k', Reads room task (before k (ts ++ more) text) y (before k' more text) := by
  have hextended :=
    h.extend (State.listed_ofSupply hts) (faultless_of_nil hclean) htask (.inl hnext)
  rw [State.extend_ofSupply hts, State.extend_ends (.of_reads h) hend, hclean] at hextended
  have hembedded := hextended.embed (c := ⟨k, [], []⟩) (.inl rfl)
  refine ⟨k + s'.consumed, ?_⟩
  have htwice : (before s'.consumed more text).embed ⟨k, [], []⟩ =
      before (k + s'.consumed) more text := by
    simp [before, State.embed, Supply.extend_nil, Nat.add_assoc]
  exact htwice ▸ hembedded

/-- A single expression is read in front of what does not go on with it. -/
theorem Accepts.in_front_of {n : Node} (more : List Token) (h : Accepts ts text n)
    (hts : ∀ t ∈ ts, t.kind ≠ .eof) (hnext : Rests (next more)) (k : Nat) :
    ∃ k', Reads 979 (.rule .expression) (before k (ts ++ more) text) (.node n)
      (before k' more text) := by
  obtain ⟨s, hreads, hend, hfaultless, -⟩ := accepts_iff.mp h
  exact hreads.in_front_of hts hend hfaultless rfl hnext k

end Before

/-- What the tokens of the kinds around the second node make of the first node. -/
inductive Applies : Token.Kind → Token.Kind → Node → Node → Node → Prop where
  | call {t u} : Applies .leftParen .rightParen t u (.make .call t.position (.node t) [u])
  | index {t u} : Applies .leftBracket .rightBracket t u
      (.make .index t.position .absent [t, u])

section Groups

variable {room k : Nat} {opening closing left right t : Token} {E I rest : List Token}
  {text : List Char} {l u n : Node} {s m : State} {kind kind' : Token.Kind}

/-- One item, up to the token that closes the list. -/
theorem Reads.soleItem (glyph : String) (h : Reads room (.rule .expression) s (.node n) m)
    (hstart : s.current.kind ∈ starts) (hn : n.isError = false) (hm : m.current.kind = kind)
    (hkind : kind ∈ closers) :
    Reads room (.items kind glyph [] false) s (.items [n] false) m.advance := by
  have hfacts : ∀ k ∈ closers, k ∉ starts ∧ k ≠ .comma := by decide
  obtain ⟨hnone, hcomma⟩ := hfacts kind hkind
  exact .lastItem (fun heq => hnone (heq ▸ hstart)) h hn (hm ▸ hcomma) hm

/-- One item, with the end of the text behind it. -/
theorem Reads.openItem (glyph : String) (h : Reads room (.rule .expression) s (.node n) m)
    (hstart : s.current.kind ∈ starts) (hn : n.isError = false) (hm : m.current.kind = .eof)
    (hkind : kind ∈ closers) :
    Reads room (.items kind glyph [] false) s (.node (m.expected glyph).1)
      (m.expected glyph).2 := by
  have hfacts : ∀ k ∈ closers, k ∉ starts ∧ k ≠ .eof := by decide
  obtain ⟨hnone, heof⟩ := hfacts kind hkind
  exact .openItems (fun heq => hnone (heq ▸ hstart)) h hn (by simp [hm]) (by simp [hm, heof.symm])

/-- Behind a token a single expression is read in front of what does not go on with it. -/
theorem Accepts.behind (rest : List Token) (h : Accepts I text u) (hI : ∀ t ∈ I, t.kind ≠ .eof)
    (hleft : left.kind ≠ .eof) (hnext : Rests (next rest)) (k : Nat) :
    ∃ m, Reads 979 (.rule .expression) (before k (left :: I ++ rest) text).advance (.node u)
        (before m rest text) ∧
      (before k (left :: I ++ rest) text).advance.current.kind ∈ starts := by
  have hadvance : (before k (left :: I ++ rest) text).advance = before (k + 1) (I ++ rest) text :=
    advance_before hleft
  obtain ⟨m, hread⟩ := h.in_front_of rest hI hnext (k + 1)
  rw [hadvance]
  exact ⟨m, hread, hread.mem_starts (faultless_of_nil rfl)⟩

theorem ne_rightParen_of_starts {kind : Token.Kind} (h : kind ∈ starts) : kind ≠ .rightParen :=
  fun heq => absurd (heq ▸ h) (by decide)

/-- An expression in parentheses is read as the operand that it is without them. -/
theorem Accepts.group (rest : List Token) (h : Accepts E text l) (hE : ∀ t ∈ E, t.kind ≠ .eof)
    (hopening : opening.kind = .leftParen) (hclosing : closing.kind = .rightParen) :
    ∃ k, Reads 982 (.rule .operand) (before 0 (opening :: E ++ closing :: rest) text) (.node l)
      (before k rest text) := by
  have hnext : Rests (next (closing :: rest)) := by
    rw [show next (closing :: rest) = .rightParen from hclosing]
    exact ⟨rfl, nofun⟩
  have hne : opening.kind ≠ .eof := by simp [hopening]
  obtain ⟨k, hread, hstart⟩ := h.behind (closing :: rest) hE hne hnext 0
  have hk : (before 0 (opening :: E ++ closing :: rest) text).current.kind = .leftParen :=
    (kind_before ..).trans hopening
  have hbehind : (before k (closing :: rest) text).advance = before (k + 1) rest text :=
    advance_before (by simp [hclosing])
  have hitems := hread.soleItem "`)`" hstart h.proper ((kind_before ..).trans hclosing) (by decide)
  rw [hbehind] at hitems
  exact ⟨k + 1,
    .compound (congrArg opened? hk) (.grouped hk (ne_rightParen_of_starts hstart) hitems)⟩

/-- Without the closing parenthesis it is an error. -/
theorem Accepts.open_group (h : Accepts E text l) (hE : ∀ t ∈ E, t.kind ≠ .eof)
    (hopening : opening.kind = .leftParen) :
    ∃ e s, e.isError = true ∧ s.current.kind = .eof ∧
      Reads 982 (.rule .operand) (before 0 (opening :: E) text) (.node e) s := by
  have hne : opening.kind ≠ .eof := by simp [hopening]
  obtain ⟨k, hread, hstart⟩ := h.behind [] hE hne ⟨rfl, nofun⟩ 0
  rw [List.append_nil] at hread hstart
  have hk : (before 0 (opening :: E) text).current.kind = .leftParen :=
    (kind_before ..).trans hopening
  have hitems := hread.openItem "`)`" hstart h.proper (kind_before ..)
    (show .rightParen ∈ closers by decide)
  exact ⟨_, ((before k [] text).expected "`)`").2, rfl, kind_before k [] text,
    .compound (congrArg opened? hk) (.badGroup hk (ne_rightParen_of_starts hstart) hitems)⟩

/-- What is read otherwise is not accepted. -/
theorem not_accepts_of_gets (h : Gets .expression (before 0 I text) l s)
    (hl : s.current.kind ≠ .eof ∨ l.isError = true) : ¬ Accepts I text n := by
  intro haccepts
  obtain ⟨m, hreads, hend, -, hproper⟩ := accepts_iff.mp haccepts
  obtain ⟨room, h⟩ := h
  rw [before_zero] at h
  obtain ⟨larger, hlarge, hlarge'⟩ := common_room h hreads
  obtain ⟨rfl, rfl⟩ := hlarge.unique_node hlarge'
  rcases hl with hne | he
  · exact hne hend
  · rw [he] at hproper
    cases hproper

theorem Applies.isError (h : Applies kind kind' l u n) : n.isError = false := by
  cases h <;> rfl

theorem Applies.opens (h : Applies kind kind' l u n) : kind ≠ .eof ∧ Apart kind := by
  cases h <;> decide

theorem Applies.closes (h : Applies kind kind' l u n) : kind' ≠ .eof ∧ Rests kind' := by
  cases h <;> exact ⟨nofun, rfl, nofun⟩

/-- What stands between the tokens is read for a call or an index. -/
theorem Applies.reads (h : Applies kind kind' l u n) (hk : s.current.kind = kind)
    (hu : Reads 979 (.rule .expression) s.advance (.node u) m)
    (hstart : s.advance.current.kind ∈ starts) (hproper : u.isError = false)
    (hm : m.current.kind = kind') (hend : m.advance.current.kind = .eof) :
    Reads 980 (.applications l) s (.node n) m.advance := by
  have hlast : Reads 980 (.applications n) m.advance (.node n) m.advance :=
    .applicationsEnd (by simp [hend]) (by simp [hend])
  cases h with
  | call => exact .call hk (hu.soleItem _ hstart hproper hm (by decide)) hlast
  | index => exact .index hk hu.succ hproper hm hlast

/-- Without the second token it is an error. -/
theorem Applies.reads_open (h : Applies kind kind' l u n) (hk : s.current.kind = kind)
    (hu : Reads 979 (.rule .expression) s.advance (.node u) m)
    (hstart : s.advance.current.kind ∈ starts) (hproper : u.isError = false)
    (hm : m.current.kind = .eof) :
    ∃ e s', e.isError = true ∧ s'.current.kind = .eof ∧
      Reads 980 (.applications l) s (.node e) s' := by
  cases h with
  | call =>
    have hitems := hu.openItem "`)`" hstart hproper hm
      (show .rightParen ∈ closers by decide)
    exact ⟨_, (m.expected "`)`").2, rfl, hm, .badCall hk hitems⟩
  | index =>
    exact ⟨_, (m.expected "`]`").2, rfl, hm, .openIndex hk hu.succ hproper (by simp [hm])⟩

/-- An operand is a whole expression where it comes to the end. -/
theorem gets_of_operand (h : Reads room (.rule .operand) s (.node n) m)
    (hstart : s.current.kind = .leftParen) (hm : m.current.kind = .eof) :
    Gets .expression s n m := by
  have hlevel : Gets (level 0) s n m := ⟨room, h⟩
  exact hlevel.climb (Nat.zero_le 9) (Nat.le_refl 9) (fun _ => hstart ▸ rfl) (by rw [hm]; decide)

/-- So is one with calls or indexes behind it. -/
theorem gets_of_applications (h : Reads 982 (.rule .operand) s (.node l) m)
    (hl : endsOperand l = false) (h' : Reads 980 (.applications l) m (.node n) s')
    (hstart : s.current.kind = .leftParen) (hs' : s'.current.kind = .eof) :
    Gets .expression s n s' := by
  have hlevel : Gets (level 1) s n s' := ⟨983, .applied h hl (h'.mono (by decide))⟩
  exact hlevel.climb (by decide) (Nat.le_refl 9) (fun _ => hstart ▸ rfl) (by rw [hs']; decide)

/-- A call or an index is no part of the expression. -/
theorem Accepts.not_applied (h : Accepts E text l) (hE : ∀ t ∈ E, t.kind ≠ .eof)
    (hl : endsOperand l = true) (hopening : opening.kind = .leftParen)
    (hclosing : closing.kind = .rightParen) (hleft : left.kind ≠ .eof ∧ Apart left.kind) :
    ¬ Accepts (opening :: E ++ closing :: left :: rest) text n := by
  obtain ⟨k, hgroup⟩ := h.group (left :: rest) hE hopening hclosing
  have hk : (before k (left :: rest) text).current.kind = left.kind := kind_before ..
  have hstart : (before 0 (opening :: E ++ closing :: left :: rest) text).current.kind =
      .leftParen := (kind_before ..).trans hopening
  have hexpression := hgroup.level_of_operand (i := 9) hl (hstart ▸ rfl) (hk ▸ hleft.2)
    (Nat.le_refl 9)
  exact not_accepts_of_gets ⟨_, hexpression⟩ (.inl (hk ▸ hleft.1))

theorem Accepts.not_open_group (h : Accepts E text l) (hE : ∀ t ∈ E, t.kind ≠ .eof)
    (hopening : opening.kind = .leftParen) : ¬ Accepts (opening :: E) text n := by
  obtain ⟨e, s, he, hs, hgroup⟩ := h.open_group hE hopening
  exact not_accepts_of_gets (gets_of_operand hgroup ((kind_before ..).trans hopening) hs) (.inr he)

/-- A group is called or indexed, unless it is taken for a block, a conditional or a binding. -/
theorem Accepts.applied (h : Accepts E text l) (hE : ∀ t ∈ E, t.kind ≠ .eof)
    (hargument : Accepts I text u) (hI : ∀ t ∈ I, t.kind ≠ .eof) (hl : endsOperand l = false)
    (happly : Applies left.kind right.kind l u n) (hopening : opening.kind = .leftParen)
    (hclosing : closing.kind = .rightParen)
    (hfits : expressionFits (opening :: E ++ closing :: left :: I ++ [right]) text = true) :
    Accepts (opening :: E ++ closing :: left :: I ++ [right]) text n := by
  have hsplit : opening :: E ++ closing :: left :: I ++ [right] =
      opening :: E ++ closing :: (left :: I ++ [right]) := by simp
  obtain ⟨hright, hrests⟩ := happly.closes
  obtain ⟨k, hgroup⟩ := h.group (left :: I ++ [right]) hE hopening hclosing
  obtain ⟨m, hread, hstart⟩ := hargument.behind [right] hI happly.opens.1 hrests k
  have hbehind : (before m [right] text).advance = before (m + 1) [] text := advance_before hright
  have hend : (before (m + 1) [] text).current.kind = .eof := kind_before ..
  have happlication := happly.reads (kind_before ..) hread hstart hargument.proper
    (kind_before ..) (hbehind ▸ hend)
  rw [hbehind] at happlication
  rw [hsplit] at hfits ⊢
  have hgets := gets_of_applications hgroup hl happlication ((kind_before ..).trans hopening) hend
  rw [before_zero] at hgets
  exact accepts_iff.mpr ⟨_, hgets.reads hfits, hend, rfl, happly.isError⟩

/-- Without the last token the call or the index is an error. -/
theorem Accepts.not_open_applied (h : Accepts E text l) (hE : ∀ t ∈ E, t.kind ≠ .eof)
    (hargument : Accepts I text u) (hI : ∀ t ∈ I, t.kind ≠ .eof) (hl : endsOperand l = false)
    (happly : Applies left.kind kind l u n) (hopening : opening.kind = .leftParen)
    (hclosing : closing.kind = .rightParen) (n' : Node) :
    ¬ Accepts (opening :: E ++ closing :: left :: I) text n' := by
  obtain ⟨k, hgroup⟩ := h.group (left :: I) hE hopening hclosing
  obtain ⟨m, hread, hstart⟩ :=
    hargument.behind [] hI happly.opens.1 ⟨rfl, nofun⟩ k
  rw [List.append_nil] at hread hstart
  obtain ⟨e, s, he, hs, hopen⟩ :=
    happly.reads_open (kind_before ..) hread hstart hargument.proper (kind_before ..)
  exact not_accepts_of_gets
    (gets_of_applications hgroup hl hopen ((kind_before ..).trans hopening) hs) (.inr he)

end Groups

section Ends

variable {ts front behind E I rest : List Token} {e opening closing left : Token}
  {text : List Char} {kind : Token.Kind} {l u n n' : Node}

theorem exists_end (h : ¬ ∀ t ∈ ts, t.kind ≠ .eof) :
    ∃ front e behind, ts = front ++ e :: behind ∧ (∀ t ∈ front, t.kind ≠ .eof) ∧
      e.kind = .eof := by
  induction ts with
  | nil => exact absurd nofun h
  | cons t ts ih =>
    by_cases ht : t.kind = .eof
    · exact ⟨[], t, ts, rfl, nofun, ht⟩
    · obtain ⟨front, e, behind, rfl, hfront, he⟩ :=
        ih fun hts => h (List.forall_mem_cons.mpr ⟨ht, hts⟩)
      exact ⟨t :: front, e, behind, rfl, List.forall_mem_cons.mpr ⟨ht, hfront⟩, he⟩

theorem pending_end (hfront : ∀ t ∈ front, t.kind ≠ .eof) (he : e.kind = .eof) :
    (Supply.tokens (front ++ e :: behind)).pending = (Supply.tokens front).pending := by
  rw [pending_tokens hfront, Supply.pending, List.takeWhile_append_of_pos (by simpa using hfront)]
  simp [he]

/-- An end token is the end of the tokens. -/
theorem accepts_end_iff (hfront : ∀ t ∈ front, t.kind ≠ .eof) (he : e.kind = .eof) :
    Accepts (front ++ e :: behind) text n ↔ Accepts front text n :=
  ⟨.congr (pending_end hfront he).symm, .congr (pending_end hfront he)⟩

/-- In a group that is accepted there are no end tokens. -/
theorem Accepts.proper_group (h : Accepts E text l) (hopening : opening.kind = .leftParen)
    (hwhole : Accepts (opening :: E ++ rest) text n) : ∀ t ∈ E, t.kind ≠ .eof := by
  refine Decidable.byContradiction fun hnot => ?_
  obtain ⟨front, e, behind, rfl, hfront, he⟩ := exists_end hnot
  rw [accepts_end_iff hfront he] at h
  have hsplit : opening :: (front ++ e :: behind) ++ rest =
      (opening :: front) ++ e :: (behind ++ rest) := by simp
  have hkinds : ∀ t ∈ opening :: front, t.kind ≠ .eof :=
    List.forall_mem_cons.mpr ⟨by simp [hopening], hfront⟩
  rw [hsplit, accepts_end_iff hkinds he] at hwhole
  exact h.not_open_group hfront hopening hwhole

/-- Nor are there any in a call or an index of it. -/
theorem Accepts.proper_applied (h : Accepts E text l) (hE : ∀ t ∈ E, t.kind ≠ .eof)
    (hargument : Accepts I text u) (hl : endsOperand l = false)
    (happly : Applies left.kind kind l u n) (hopening : opening.kind = .leftParen)
    (hclosing : closing.kind = .rightParen)
    (hwhole : Accepts (opening :: E ++ closing :: left :: I ++ rest) text n') :
    ∀ t ∈ I, t.kind ≠ .eof := by
  refine Decidable.byContradiction fun hnot => ?_
  obtain ⟨front, e, behind, rfl, hfront, he⟩ := exists_end hnot
  rw [accepts_end_iff hfront he] at hargument
  have hsplit : opening :: E ++ closing :: left :: (front ++ e :: behind) ++ rest =
      (opening :: E ++ closing :: left :: front) ++ e :: (behind ++ rest) := by simp
  have hkinds : ∀ t ∈ opening :: E ++ closing :: left :: front, t.kind ≠ .eof := by
    have hkind := happly.opens.1
    simp only [List.forall_mem_append, List.forall_mem_cons]
    exact ⟨⟨by simp [hopening], hE⟩, by simp [hclosing], hkind, hfront⟩
  rw [hsplit, accepts_end_iff hkinds he] at hwhole
  exact h.not_open_applied hE hargument hfront hl happly hopening hclosing n' hwhole

theorem Accepts.unique (h : Accepts ts text n) (h' : Accepts ts text n') : n = n' :=
  h.reads.symm.trans h'.reads

end Ends

end Grammar

open Grammar

variable {E I : List Token} {opening closing left right : Token} {text : List Char}
  {t u applied n : Node}

/-- An expression in parentheses is called and indexed like any other operand, unless it is a
block, a conditional or a binding. -/
theorem parenthesized_expressions_are_called_and_indexed {textE textI : List Char}
    (hE : Accepts E textE t) (hI : Accepts I textI u) (hopening : opening.kind = .leftParen)
    (hclosing : closing.kind = .rightParen) (happly : Applies left.kind right.kind t u applied)
    (hfits : expressionFits (opening :: E ++ closing :: left :: I ++ [right]) text = true) :
    Accepts (opening :: E ++ closing :: left :: I ++ [right]) text n ↔
      (∀ k ∈ E ++ I, k.kind ≠ .eof) ∧ t.isBlockLike = false ∧ t.kind ≠ .binding ∧
        n = applied := by
  have hE' := hE.endingAt text
  have hI' := hI.endingAt text
  have hend : endsOperand t = false ↔ t.isBlockLike = false ∧ t.kind ≠ .binding := by
    simp [endsOperand, hE.proper]
  constructor
  · intro hwhole
    have hkindsE : ∀ k ∈ E, k.kind ≠ .eof := by
      rw [List.append_assoc] at hwhole
      exact hE'.proper_group hopening hwhole
    cases hl : endsOperand t with
    | true =>
      rw [List.append_assoc, List.cons_append, List.cons_append] at hwhole
      exact absurd hwhole (hE'.not_applied hkindsE hl hopening hclosing happly.opens)
    | false =>
      have hkindsI := hE'.proper_applied hkindsE hI' hl happly hopening hclosing hwhole
      have happlied := hE'.applied hkindsE hI' hkindsI hl happly hopening hclosing hfits
      exact ⟨List.forall_mem_append.mpr ⟨hkindsE, hkindsI⟩, (hend.mp hl).1, (hend.mp hl).2,
        hwhole.unique happlied⟩
  · rintro ⟨hkinds, hblock, hbinding, rfl⟩
    obtain ⟨hkindsE, hkindsI⟩ := List.forall_mem_append.mp hkinds
    exact hE'.applied hkindsE hI' hkindsI (hend.mpr ⟨hblock, hbinding⟩) happly hopening hclosing
      hfits

/-- An operation that is indexed by an assignment. -/
theorem disjunction_in_parentheses_is_indexed :
    let text := "(a or b)[i = 1]".toList
    let E := ((lex text).1.drop 1).take 3
    let I := ((lex text).1.drop 6).take 3
    let t := ((soleExpression nestingLimit).run (.ofSupply (.tokens E) text)).1
    let u := ((soleExpression nestingLimit).run (.ofSupply (.tokens I) text)).1
    Accepts E text t ∧ Accepts I text u ∧
      Accepts (lex text).1 text (.make .index t.position .absent [t, u]) := by
  intro text E I t u
  have hE : Accepts E text t := ⟨rfl, by decide +kernel, by decide +kernel⟩
  have hI : Accepts I text u := ⟨rfl, by decide +kernel, by decide +kernel⟩
  let opening : Token := ⟨.leftParen, "(", ⟨0, 1, 1⟩, 1⟩
  let closing : Token := ⟨.rightParen, ")", ⟨7, 1, 8⟩, 1⟩
  let left : Token := ⟨.leftBracket, "[", ⟨8, 1, 9⟩, 1⟩
  let right : Token := ⟨.rightBracket, "]", ⟨14, 1, 15⟩, 1⟩
  have htokens : (lex text).1 = opening :: E ++ closing :: left :: I ++ [right] := by
    decide +kernel
  have hfits : expressionFits (opening :: E ++ closing :: left :: I ++ [right]) text = true := by
    decide +kernel
  have happlied := (parenthesized_expressions_are_called_and_indexed hE hI rfl rfl
    (Applies.index (t := t) (u := u)) hfits).mpr
      ⟨by decide +kernel, by decide +kernel, by decide +kernel, rfl⟩
  exact ⟨hE, hI, htokens ▸ happlied⟩

/-- A block is an expression, but in parentheses it is not indexed: the end is looked for behind
them. -/
theorem block_in_parentheses_is_not_indexed :
    ¬ ∀ (E I : List Token) (text : List Char) (t u applied : Node)
        (opening closing left right : Token),
      (∀ k ∈ E ++ I, k.kind ≠ .eof) → Accepts E text t → Accepts I text u →
      opening.kind = .leftParen → closing.kind = .rightParen →
      Applies left.kind right.kind t u applied →
      expressionFits (opening :: E ++ closing :: left :: I ++ [right]) text = true →
      Accepts (opening :: E ++ closing :: left :: I ++ [right]) text applied := by
  intro h
  let text := "({ 1 })[0]".toList
  let E := ((lex text).1.drop 1).take 3
  let I := ((lex text).1.drop 6).take 1
  let t := ((soleExpression nestingLimit).run (.ofSupply (.tokens E) text)).1
  let u := ((soleExpression nestingLimit).run (.ofSupply (.tokens I) text)).1
  let opening : Token := ⟨.leftParen, "(", ⟨0, 1, 1⟩, 1⟩
  let closing : Token := ⟨.rightParen, ")", ⟨6, 1, 7⟩, 1⟩
  let left : Token := ⟨.leftBracket, "[", ⟨7, 1, 8⟩, 1⟩
  let right : Token := ⟨.rightBracket, "]", ⟨9, 1, 10⟩, 1⟩
  have hE : Accepts E text t := ⟨rfl, by decide +kernel, by decide +kernel⟩
  have hI : Accepts I text u := ⟨rfl, by decide +kernel, by decide +kernel⟩
  have hindexed := h E I text t u _ opening closing left right (by decide +kernel) hE hI rfl rfl
    .index (by decide +kernel)
  exact absurd hindexed.faultless (by decide +kernel)

end Scriptlet
