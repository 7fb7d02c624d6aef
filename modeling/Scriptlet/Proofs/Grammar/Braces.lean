import Scriptlet.Proofs.Grammar.Exact
import Scriptlet.Proofs.Grammar.Faithful

/-!
# Braces

However malformed a stretch of tokens is, with balanced braces in it and a semicolon or a
closing brace behind it no rule gets out of it: the only rule that consumes a brace is that
of blocks, and what it consumes is itself a stretch with a closing brace behind it. Recovery
starts outside of all braces of the stretch, and so it stops at its end at the latest.
-/

namespace Scriptlet.Grammar

open Scriptlet.Parser

/-- No closing brace stands before the opening one, and none is missing. -/
structure BraceBalanced (ts : List Token) : Prop where
  prefixes : ∀ front, front <+: ts →
    front.countP (·.kind = .rightBrace) ≤ front.countP (·.kind = .leftBrace)
  totals : ts.countP (·.kind = .rightBrace) = ts.countP (·.kind = .leftBrace)

/-- Do the tokens close `depth` braces, and those that they open? -/
def closes : Nat → List Token → Bool
  | depth, [] => depth == 0
  | depth, t :: ts =>
    match t.kind, depth with
    | .leftBrace, depth => closes (depth + 1) ts
    | .rightBrace, 0 => false
    | .rightBrace, depth + 1 => closes depth ts
    | _, depth => closes depth ts

section Closes

variable {t : Token} {ts : List Token} {depth : Nat}

theorem closes_leftBrace (h : t.kind = .leftBrace) :
    closes depth (t :: ts) = closes (depth + 1) ts := by
  simp only [closes, h]

theorem closes_rightBrace_zero (h : t.kind = .rightBrace) : closes 0 (t :: ts) = false := by
  simp only [closes, h]

theorem closes_rightBrace_succ (h : t.kind = .rightBrace) :
    closes (depth + 1) (t :: ts) = closes depth ts := by
  simp only [closes, h]

theorem closes_other (hleft : t.kind ≠ .leftBrace) (hright : t.kind ≠ .rightBrace) :
    closes depth (t :: ts) = closes depth ts := by
  conv => lhs; unfold closes
  split
  · next h => exact absurd h hleft
  · next h => exact absurd h hright
  · next h => exact absurd h hright
  · rfl

/-- Closing is a matter of counting, in the whole and in all that it begins with. -/
theorem closes_iff : closes depth ts = true ↔
    (∀ front, front <+: ts →
      front.countP (·.kind = .rightBrace) ≤ depth + front.countP (·.kind = .leftBrace)) ∧
    ts.countP (·.kind = .rightBrace) = depth + ts.countP (·.kind = .leftBrace) := by
  induction ts generalizing depth with
  | nil =>
    simp [closes]
    omega
  | cons t ts ih =>
    have hprefixes (P : List Token → Prop) :
        (∀ front, front <+: t :: ts → P front) ↔ P [] ∧ ∀ front, front <+: ts → P (t :: front) := by
      simp only [List.prefix_cons_iff]
      grind
    rw [hprefixes]
    by_cases hleft : t.kind = .leftBrace
    · rw [closes_leftBrace hleft, ih]
      simp [hleft]
      grind
    by_cases hright : t.kind = .rightBrace
    · cases depth with
      | zero =>
        rw [closes_rightBrace_zero hright]
        refine iff_of_false Bool.false_ne_true fun h => ?_
        have hone := h.1.2 [] List.nil_prefix
        simp [hright] at hone
      | succ depth =>
        rw [closes_rightBrace_succ hright, ih]
        simp [hright]
        grind
    · rw [closes_other hleft hright, ih]
      simp [hleft, hright]

theorem braceBalanced_iff : BraceBalanced ts ↔ closes 0 ts = true := by
  rw [closes_iff]
  simp only [Nat.zero_add]
  exact ⟨fun h => ⟨h.prefixes, h.totals⟩, fun h => ⟨h.1, h.2⟩⟩

instance : Decidable (BraceBalanced ts) := decidable_of_iff _ braceBalanced_iff.symm

end Closes

/-- The tokens that close further braces come to the brace that closes the last of them. -/
theorem exists_brace {depth outer : Nat} {ts : List Token}
    (h : closes (depth + (outer + 1)) ts = true) :
    ∃ front brace behind, ts = front ++ brace :: behind ∧ brace.kind = .rightBrace ∧
      closes depth front = true ∧ closes outer behind = true := by
  induction ts generalizing depth with
  | nil => simp [closes] at h
  | cons t ts ih =>
    by_cases hleft : t.kind = .leftBrace
    · rw [closes_leftBrace hleft, Nat.add_right_comm] at h
      obtain ⟨front, brace, behind, rfl, hbrace, hfront, hbehind⟩ := ih h
      exact ⟨t :: front, brace, behind, rfl, hbrace, by rwa [closes_leftBrace hleft], hbehind⟩
    by_cases hright : t.kind = .rightBrace
    · rw [← Nat.add_assoc, closes_rightBrace_succ hright] at h
      cases depth with
      | zero => exact ⟨[], t, ts, rfl, hright, rfl, by rwa [Nat.zero_add] at h⟩
      | succ depth =>
        rw [Nat.add_right_comm] at h
        obtain ⟨front, brace, behind, rfl, hbrace, hfront, hbehind⟩ := ih h
        exact ⟨t :: front, brace, behind, rfl, hbrace, by rwa [closes_rightBrace_succ hright],
          hbehind⟩
    · rw [closes_other hleft hright] at h
      obtain ⟨front, brace, behind, rfl, hbrace, hfront, hbehind⟩ := ih h
      exact ⟨t :: front, brace, behind, rfl, hbrace, by rwa [closes_other hleft hright], hbehind⟩

/-- With `depth` braces closed in front of it, the token `t` is still to come. -/
def Ahead (depth : Nat) (t : Token) (behind : List Token) (s : State) : Prop :=
  ∃ front, closes depth front = true ∧ s.pending = front ++ t :: behind

variable {room depth : Nat} {t : Token} {behind : List Token} {s m s' : State}

theorem current_of_pending {ts : List Token} (h : s.pending = t :: ts) :
    s.current = t ∧ s.current.kind ≠ .eof := by
  rw [State.pending] at h
  split at h
  · cases h
  · next hk => exact ⟨(List.cons.inj h).1, hk⟩

theorem Ahead.fault {f : SyntaxFault} {p : Position} (h : Ahead depth t behind s) :
    Ahead depth t behind (s.fault f p).2 := h

/-- Either the token is the current one, or the current one is of the stretch. -/
theorem Ahead.cases (h : Ahead depth t behind s) :
    (depth = 0 ∧ s.pending = t :: behind) ∨
      ∃ front, closes depth (s.current :: front) = true ∧
        s.pending = s.current :: front ++ t :: behind := by
  obtain ⟨front, hcloses, hpending⟩ := h
  cases front with
  | nil => exact .inl ⟨by simpa [closes] using hcloses, hpending⟩
  | cons x front =>
    obtain ⟨rfl, -⟩ := current_of_pending hpending
    exact .inr ⟨front, hcloses, hpending⟩

theorem Ahead.ne_eof (h : Ahead depth t behind s) : s.current.kind ≠ .eof := by
  obtain ⟨-, hpending⟩ | ⟨front, -, hpending⟩ := h.cases <;>
    exact (current_of_pending hpending).2

/-- A token that is neither a brace nor the one to come is passed. -/
theorem Ahead.advance (h : Ahead depth t behind s) (hleft : s.current.kind ≠ .leftBrace)
    (hright : s.current.kind ≠ .rightBrace) (ht : depth = 0 → s.current.kind ≠ t.kind) :
    Ahead depth t behind s.advance := by
  obtain ⟨hzero, hpending⟩ | ⟨front, hcloses, hpending⟩ := h.cases
  · exact absurd (current_of_pending hpending).1 (ne_of_apply_ne Token.kind (ht hzero))
  · rw [closes_other hleft hright] at hcloses
    exact ⟨front, hcloses, by rw [pending_advance, hpending]; rfl⟩

/-- Outside of the braces opened in front of it, a closing brace is the token to come. -/
theorem Ahead.of_rightBrace (h : Ahead 0 t behind s) (hright : s.current.kind = .rightBrace) :
    s.pending = t :: behind := by
  obtain ⟨-, hpending⟩ | ⟨front, hcloses, hpending⟩ := h.cases
  · exact hpending
  · rw [closes_rightBrace_zero hright] at hcloses
    cases hcloses

theorem Ahead.advance_leftBrace (h : Ahead depth t behind s) (hleft : s.current.kind = .leftBrace)
    (ht : t.kind ≠ .leftBrace) : Ahead (depth + 1) t behind s.advance := by
  obtain ⟨-, hpending⟩ | ⟨front, hcloses, hpending⟩ := h.cases
  · exact absurd ((current_of_pending hpending).1 ▸ hleft) ht
  · rw [closes_leftBrace hleft] at hcloses
    exact ⟨front, hcloses, by rw [pending_advance, hpending]; rfl⟩

theorem Ahead.advance_rightBrace (h : Ahead (depth + 1) t behind s)
    (hright : s.current.kind = .rightBrace) : Ahead depth t behind s.advance := by
  obtain ⟨hzero, -⟩ | ⟨front, hcloses, hpending⟩ := h.cases
  · cases hzero
  · rw [closes_rightBrace_succ hright] at hcloses
    exact ⟨front, hcloses, by rw [pending_advance, hpending]; rfl⟩

/-- Behind an opening brace lies the stretch up to the brace that closes it. -/
theorem Ahead.opened (h : Ahead 1 t behind s) :
    ∃ brace inner, brace.kind = .rightBrace ∧ Ahead 0 brace (inner ++ t :: behind) s ∧
      closes 0 inner = true := by
  obtain ⟨ts, hcloses, hpending⟩ := h
  have hcloses : closes (0 + (0 + 1)) ts = true := hcloses
  obtain ⟨front, brace, inner, rfl, hbrace, hfront, hinner⟩ := exists_brace hcloses
  exact ⟨brace, inner, hbrace, ⟨front, hfront, by simpa using hpending⟩, hinner⟩

section Recovery

variable {closing : Token.Kind}

/-- Recovery stops in the stretch, or at its end. -/
theorem Ahead.synchronize (h : Ahead depth t behind s)
    (ht : t.kind = .semicolon ∨ t.kind = closing) (hclosing : closing ≠ .leftBrace) :
    Ahead 0 t behind (s.synchronize closing depth) := by
  induction depth, s using State.synchronize.induct closing with
  | case1 depth s hk => exact absurd hk h.ne_eof
  | case2 depth s hk hstop =>
    rw [synchronize_stop hk hstop]
    simp only [Bool.and_eq_true, decide_eq_true_eq] at hstop
    rwa [hstop.1] at h
  | case3 depth s hk hstop hleft ih =>
    rw [synchronize_leftBrace hk hstop hleft]
    refine ih (h.advance_leftBrace hleft ?_)
    rcases ht with ht | ht <;> simp [ht, hclosing]
  | case4 depth s hk hstop hright ih =>
    rw [synchronize_rightBrace hk hstop hright]
    cases depth with
    | zero =>
      have hcurrent := (current_of_pending (h.of_rightBrace hright)).1
      rw [hcurrent] at hstop
      rcases ht with ht | ht <;> simp [ht] at hstop
    | succ depth => exact ih (h.advance_rightBrace hright)
  | case5 depth s hk hstop hleft hright ih =>
    rw [synchronize_other hk hstop hleft hright]
    refine ih (h.advance hleft hright fun hzero heq => hstop ?_)
    rcases ht with ht | ht <;> simp [hzero, heq, ht]

end Recovery

/-- A semicolon or a closing brace. -/
def Stop (k : Token.Kind) : Prop := k = .semicolon ∨ k = .rightBrace

/-- The kinds of tokens that rules consume, the braces of blocks apart. -/
def Plain (k : Token.Kind) : Prop := ¬ Stop k ∧ k ≠ .leftBrace

instance (k : Token.Kind) : Decidable (Plain k) :=
  inferInstanceAs (Decidable (¬ (k = .semicolon ∨ k = .rightBrace) ∧ k ≠ .leftBrace))

theorem Leaf.plain {n : Node} (h : Leaf t n) : Plain t.kind := by
  cases h
  all_goals
    simp only [*]
    decide

theorem Refused.plain {f : SyntaxFault} (h : Refused t f) : Plain t.kind := by
  cases h
  all_goals
    simp only [*]
    decide

theorem assignOp?_plain {k : Token.Kind} {op : AssignOp} (h : assignOp? k = some op) :
    Plain k := by
  refine ⟨?_, ?_⟩
  · rintro (rfl | rfl) <;> cases h
  · rintro rfl
    cases h

theorem prefixOp?_plain {k : Token.Kind} {op : UnaryOp} (h : prefixOp? k = some op) :
    Plain k := by
  refine ⟨?_, ?_⟩
  · rintro (rfl | rfl) <;> cases h
  · rintro rfl
    cases h

theorem RightLevel.plain {rule tighter : Rule} {op? : Token.Kind → Option BinaryOp}
    {k : Token.Kind} {op : BinaryOp} (hlevel : RightLevel rule op? tighter)
    (h : op? k = some op) : Plain k := by
  refine ⟨?_, ?_⟩
  · rintro (rfl | rfl) <;> cases hlevel <;> cases h
  · rintro rfl
    cases hlevel <;> cases h

/-- Is the token one at which the task stops, if not before? A list of statements goes
past semicolons, so that it only stops where its block is closed. -/
def Task.StopsAt (t : Token) : Task → Prop
  | .rule _ | .applications _ => Stop t.kind
  | .chain joint _ _ _ => Stop t.kind ∧ Plain joint
  | .items closing _ _ _ => Stop t.kind ∧ Plain closing
  | .sequence closing _ => t.kind = .rightBrace ∧ closing = .rightBrace

/-- A rule that starts at an opening brace consumes it. -/
theorem Reads.consumed_lt_of_leftBrace {rule : Rule} {y : Yield}
    (h : Reads room (.rule rule) s y s') (hleft : s.current.kind = .leftBrace) :
    s.consumed < s'.consumed := by
  refine ((h.idle_or_later trivial).resolve_left ?_).consumed
  rintro ⟨n, -, -, hk⟩
  rw [hleft] at hk
  exact absurd hk (by decide)

/-- Behind a statement, or the token skipped instead of it. -/
theorem Ahead.moveOn {rule : Rule} {y : Yield} (hm : Ahead 0 t behind m)
    (hread : Reads room (.rule rule) s y m) (hright : s.current.kind ≠ .rightBrace)
    (ht : s.current.kind ≠ t.kind) : Ahead 0 t behind (moveOn s.consumed m) := by
  rw [Grammar.moveOn]
  split
  · next heq =>
    have hcurrent := current_of_consumed_eq (.of_reads hread) heq
    refine hm.advance ?_ (hcurrent ▸ hright) fun _ => hcurrent ▸ ht
    intro hleft
    have hlt := hread.consumed_lt_of_leftBrace (hcurrent ▸ hleft)
    omega
  · exact hm

/-- Plain tokens are passed. -/
theorem Ahead.advance_plain (h : Ahead depth t behind s) (ht : Stop t.kind)
    (hk : Plain s.current.kind) : Ahead depth t behind s.advance := by
  refine h.advance hk.2 (fun hright => hk.1 (.inr hright)) fun _ heq => hk.1 ?_
  rwa [heq]

/-- A separator between the statements of a block is passed. -/
theorem Ahead.separator (h : Ahead 0 t behind s) (ht : t.kind = .rightBrace)
    (hk : s.current.kind = .semicolon) : Ahead 0 t behind s.advance := by
  refine h.advance ?_ ?_ fun _ => ?_ <;> simp [hk, ht]

/-- One step after another that looks for braces only as blocks do. The statements of a block are
also separated by semicolons, and recovery may skip what stands between them. -/
inductive Trail : Bool → State → State → Prop where
  | refl {inBlock : Bool} {s : State} : Trail inBlock s s
  | plain {inBlock : Bool} {s m : State} : Trail inBlock s m → Plain m.current.kind →
      Trail inBlock s m.advance
  | fault {inBlock : Bool} {s m : State} (f : SyntaxFault) (p : Position) :
      Trail inBlock s m → Trail inBlock s (m.fault f p).2
  | block {inBlock : Bool} {s m q : State} : Trail inBlock s m → m.current.kind = .leftBrace →
      Trail true m.advance q → q.current.kind = .rightBrace → Trail inBlock s q.advance
  | openBlock {inBlock : Bool} {s m q : State} : Trail inBlock s m → m.current.kind = .leftBrace →
      Trail true m.advance q → q.current.kind = .eof → Trail inBlock s q
  | semicolon {s m : State} : Trail true s m → m.current.kind = .semicolon →
      Trail true s m.advance
  | recovery {s m : State} : Trail true s m → Trail true s (m.synchronize .rightBrace 0)

namespace Trail

variable {inBlock : Bool}

theorem trans (h : Trail inBlock s m) (h' : Trail inBlock m s') : Trail inBlock s s' := by
  induction h' with
  | refl => exact h
  | plain _ hk ih => exact .plain (ih h) hk
  | fault f p _ ih => exact .fault f p (ih h)
  | block _ hleft hinside hright ih => exact .block (ih h) hleft hinside hright
  | openBlock _ hleft hinside hend ih => exact .openBlock (ih h) hleft hinside hend
  | semicolon _ hk ih => exact .semicolon (ih h) hk
  | recovery _ ih => exact .recovery (ih h)

theorem expected (what : String) (h : Trail inBlock s m) : Trail inBlock s (m.expected what).2 :=
  .fault _ _ h

/-- Behind a plain token. -/
theorem after (hk : Plain s.current.kind) (h : Trail inBlock s.advance s') :
    Trail inBlock s s' := trans (.plain .refl hk) h

/-- A plain token stands between. -/
theorem across (h : Trail inBlock s m) (hk : Plain m.current.kind)
    (h' : Trail inBlock m.advance s') : Trail inBlock s s' := h.trans (.after hk h')

/-- Behind `let` a marker is skipped. -/
theorem marker (hk : s.current.kind = .kwLet) (hm : s.advance.skip .kwMut = m) :
    Trail inBlock s m := by
  subst hm
  refine .after (by rw [hk]; decide) ?_
  rw [State.skip]
  split
  · next hmut => exact .plain .refl (by rw [hmut]; decide)
  · exact .refl

/-- What a rule does may be done in a block. -/
theorem inside (h : Trail inBlock s s') : Trail true s s' := by
  induction h with
  | refl => exact .refl
  | plain _ hk ih => exact .plain ih hk
  | fault f p _ ih => exact .fault f p ih
  | block _ hleft _ hright ih ihinside => exact .block ih hleft ihinside hright
  | openBlock _ hleft _ hend ih ihinside => exact .openBlock ih hleft ihinside hend
  | semicolon _ hk ih => exact .semicolon ih hk
  | recovery _ ih => exact .recovery ih

end Trail

/-- Does the task look for braces only as blocks do? -/
def Task.Braced : Task → Prop
  | .rule _ | .applications _ => True
  | .chain joint _ _ _ => Plain joint
  | .items closing _ _ _ => Plain closing
  | .sequence closing _ => closing = .rightBrace

/-- Is the task a list of statements? -/
def Task.inBlock : Task → Bool
  | .sequence _ _ => true
  | _ => false

/-- A statement of a block, and the token skipped where it consumed nothing. -/
theorem Trail.statement {closing : Token.Kind} {n : Node} (h : Trail false s m)
    (hread : Reads room (.rule .statement) s (.node n) m) (hclosing : closing = .rightBrace)
    (hend : [closing, .eof].contains s.current.kind = false)
    (hk : s.current.kind ≠ .semicolon) : Trail true s (moveOn s.consumed m) := by
  subst hclosing
  have hkinds : s.current.kind ≠ .rightBrace ∧ s.current.kind ≠ .eof := by simpa using hend
  rw [moveOn]
  split
  · next heq =>
    have hcurrent := current_of_consumed_eq (.of_reads hread) heq
    refine .plain h.inside ⟨?_, fun hleft => ?_⟩
    · rw [hcurrent]
      exact not_or.mpr ⟨hk, hkinds.1⟩
    · have hlt := hread.consumed_lt_of_leftBrace (hcurrent ▸ hleft)
      omega
  · exact h.inside

/-- Whatever is read, the braces are looked for by blocks. -/
theorem Reads.trail {task : Task} {y : Yield} (h : Reads room task s y s')
    (htask : task.Braced) : Trail task.inBlock s s' := by
  induction h with
  | bindingStatement _ _ ih | returnStatement _ _ ih | expressionStatement _ _ _ ih
  | expression _ ih | unassigning _ _ ih | chainless _ _ _ _ ih | unprefixed _ _ ih
  | unapplied _ _ ih | compound _ _ ih | badItem _ _ _ ih => exact ih trivial
  | chainEnd | applicationsEnd | sequenceEnd => exact .refl
  -- Single tokens
  | bareReturn hk | invalidToken hk => exact .plain .refl (by rw [hk]; decide)
  | leaf hleaf => exact .plain .refl hleaf.plain
  | refused hrefused => exact .fault _ _ (.plain .refl hrefused.plain)
  | missing => exact .expected _ .refl
  | unit hk hempty => exact .after (by rw [hk]; decide) (.plain .refl (by rw [hempty]; decide))
  | itemsEnd hk => exact .plain .refl (hk ▸ htask)
  | unnamed hk hm => exact .expected _ (.marker hk hm)
  | unassigned hk hm hname => exact .expected _ (.plain (.marker hk hm) (by rw [hname]; decide))
  | binding hk hm hname hassign _ ih =>
    have hvalue := Trail.after (by rw [hassign]; decide) (ih trivial)
    exact (Trail.marker hk hm).across (by rw [hname]; decide) hvalue
  -- Behind a first token
  | returnOf hk _ _ ih | badIndex hk _ _ ih | badCondition hk _ _ ih =>
    exact .after (by rw [hk]; decide) (ih trivial)
  | prefixed hop _ ih => exact .after (prefixOp?_plain hop) (ih trivial)
  | badCall hk _ ih | grouped hk _ _ ih | tuple hk _ _ _ ih | badGroup hk _ _ ih | array hk _ ih
  | badArray hk _ ih =>
    exact .after (by rw [hk]; decide) (ih (show Plain _ by decide))
  | openIndex hk _ _ _ ih | noBlock hk _ _ _ ih =>
    exact .expected _ (.after (by rw [hk]; decide) (ih trivial))
  | chainLink hk _ _ ihr ih =>
    exact (Trail.after (hk ▸ htask) (ihr trivial)).trans (ih htask)
  | call hk _ _ ihitems ih =>
    have hitems := Trail.after (by rw [hk]; decide) (ihitems (show Plain _ by decide))
    exact hitems.trans (ih trivial)
  | index hk _ _ hclose _ ihi ih =>
    exact (Trail.after (by rw [hk]; decide) (ihi trivial)).across (by rw [hclose]; decide)
      (ih trivial)
  -- Braces
  | block hk _ hclose ih => exact .block .refl hk (ih rfl) hclose
  | openBlock hk hstatements hopen ih =>
    exact .expected _ (.openBlock .refl hk (ih rfl) (hstatements.closed.resolve_left hopen))
  | badBlock hk _ _ _ _ _ ihc iht | ifThen hk _ _ _ _ _ _ ihc iht =>
    exact (Trail.after (by rw [hk]; decide) (ihc trivial)).trans (iht trivial)
  | noBranch hk _ _ _ _ _ helse _ ihc iht =>
    have hblock := (Trail.after (by rw [hk]; decide) (ihc trivial)).trans (iht trivial)
    exact .expected _ (.plain hblock (by rw [helse]; decide))
  | badBranch hk _ _ _ _ _ helse _ _ _ ihc iht ihe
  | ifThenElse hk _ _ _ _ _ helse _ _ _ ihc iht ihe =>
    have hblock := (Trail.after (by rw [hk]; decide) (ihc trivial)).trans (iht trivial)
    exact hblock.across (by rw [helse]; decide) (ihe trivial)
  -- Behind a first part
  | disjunction _ _ ihl ih | conjunction _ _ ihl ih =>
    exact (ihl trivial).trans (ih (show Plain _ by decide))
  | applied _ _ _ ihn ih => exact (ihn trivial).trans (ih trivial)
  | assignment _ hop _ _ _ ihl ihr | assignmentToError _ hop _ _ ihl ihr =>
    exact (ihl trivial).across (assignOp?_plain hop) (ihr trivial)
  | invalidTarget _ hop _ _ _ ihl ihr =>
    exact .fault _ _ ((ihl trivial).across (assignOp?_plain hop) (ihr trivial))
  | rightChain hlevel _ hop _ ihl ihr =>
    exact (ihl trivial).across (hlevel.plain hop) (ihr trivial)
  | notMember _ hnot hin _ ihl ihr =>
    have hright := Trail.after (by rw [hin]; decide) (ihr trivial)
    exact (ihl trivial).across (by rw [hnot]; decide) hright
  | notAlone _ hnot _ ih => exact .expected _ (.plain (ih trivial) (by rw [hnot]; decide))
  | item _ _ _ hcomma _ ihn ih =>
    exact (ihn trivial).across (by rw [hcomma]; decide) (ih htask)
  | lastItem _ _ _ _ hclose ih => exact .plain (ih trivial) (hclose ▸ htask)
  | openItems _ _ _ _ _ ih => exact .expected _ (ih trivial)
  -- Statements
  | separator _ hk _ ih => exact (Trail.semicolon .refl hk).trans (ih htask)
  | terminated hend hk hitem hsemicolon _ ihitem ih =>
    have hmoved := (ihitem trivial).statement hitem htask hend hk
    exact (hmoved.semicolon hsemicolon).trans (ih htask)
  | trailing hend hk hitem _ _ ihitem =>
    exact (ihitem trivial).statement hitem htask hend hk
  | recovered hend hk hitem _ _ _ _ ihitem ih =>
    have hmoved := (ihitem trivial).statement hitem htask hend hk
    exact (htask ▸ hmoved.recovery).trans (ih htask)
  | unterminated hend hk hitem _ _ _ _ _ ihitem ih =>
    have hmoved := (ihitem trivial).statement hitem htask hend hk
    exact hmoved.trans (ih htask)
  | unseparated hend hk hitem _ _ _ _ _ ihitem ih =>
    have hmoved := (ihitem trivial).statement hitem htask hend hk
    exact (hmoved.expected _).trans (ih htask)

/-- What happens in a stretch ends in it. -/
theorem Trail.ahead {inBlock : Bool} (h : Trail inBlock s s') (ht : Stop t.kind)
    (hblock : inBlock = true → t.kind = .rightBrace) (hs : Ahead 0 t behind s) :
    Ahead 0 t behind s' := by
  have hleft : t.kind ≠ .leftBrace := by rcases ht with ht | ht <;> simp [ht]
  induction h generalizing t behind with
  | refl => exact hs
  | plain _ hk ih => exact (ih ht hblock hs hleft).advance_plain ht hk
  | fault f p _ ih => exact (ih ht hblock hs hleft).fault
  | block _ hk _ hclosed ih ihinside =>
    have hm := (ih ht hblock hs hleft).advance_leftBrace hk hleft
    obtain ⟨brace, inner, hbrace, hinside, hinner⟩ := hm.opened
    have hq := (ihinside (.inr hbrace) (fun _ => hbrace) hinside (by simp [hbrace])).of_rightBrace
      hclosed
    exact ⟨inner, hinner, by rw [pending_advance, hq]; rfl⟩
  | openBlock _ hk _ hend ih ihinside =>
    have hm := (ih ht hblock hs hleft).advance_leftBrace hk hleft
    obtain ⟨brace, inner, hbrace, hinside, -⟩ := hm.opened
    exact absurd hend (ihinside (.inr hbrace) (fun _ => hbrace) hinside (by simp [hbrace])).ne_eof
  | semicolon _ hk ih => exact (ih ht hblock hs hleft).separator (hblock rfl) hk
  | recovery _ ih => exact (ih ht hblock hs hleft).synchronize (.inr (hblock rfl)) (by decide)

/-- What is read from a stretch ends in it. -/
theorem Reads.ahead {task : Task} {y : Yield} (h : Reads room task s y s')
    (htask : task.StopsAt t) (hs : Ahead 0 t behind s) : Ahead 0 t behind s' := by
  cases task with
  | rule | applications => exact (h.trail trivial).ahead htask nofun hs
  | chain | items => exact (h.trail htask.2).ahead htask.1 nofun hs
  | sequence => exact (h.trail htask.2).ahead (.inr htask.1) (fun _ => htask.1) hs

end Scriptlet.Grammar
