import Scriptlet.Proofs.Grammar.Ending
import Scriptlet.Proofs.Grammar.Grammatical

/-!
# Statements that need no semicolon

A block or a conditional is a statement exactly where it is an operand and the token behind it is
for none of the levels of operators. So it needs no semicolon behind it, unless the next statement
starts with a token that is also an operator between two operands: these are `-` and `not`.
-/

namespace Scriptlet

open Scriptlet.Parser

namespace Grammar

section Levels

variable {room i : Nat} {s m s' : State} {n l : Node} {rule : Rule} {y : Yield}

theorem joinLevel_iff (k : Token.Kind) :
    (productOp? k = none ↔ joinLevel k ≠ 3) ∧ (sumOp? k = none ↔ joinLevel k ≠ 4) ∧
      (k ∉ [.equal, .notEqual, .kwIn, .kwNot] ↔ joinLevel k ≠ 5) ∧
      (k ≠ .kwAnd ↔ joinLevel k ≠ 6) ∧ (k ≠ .kwOr ↔ joinLevel k ≠ 7) ∧
      (assignOp? k = none ↔ joinLevel k ≠ 8) ∧ joinLevel k ≠ 2 ∧ joinLevel k ≠ 9 := by
  cases k <;> simp [joinLevel, productOp?, sumOp?, assignOp?]

theorem Reads.room_pos (h : Reads room (.rule rule) s y s') : ∃ r, room = r + 1 := by
  cases h <;> exact ⟨_, rfl⟩

/-- A chain leaves what it starts from as it is, or makes a binary operation of it. -/
theorem Reads.chain_cases {joint : Token.Kind} {op : BinaryOp} {tighter : Rule}
    (h : Reads room (.chain joint op tighter l) s (.node n) s') :
    (n = l ∧ s' = s ∧ s.current.kind ≠ joint) ∨ n.isBlockLike = false := by
  generalize htask : Task.chain joint op tighter l = task at h
  generalize hy : Yield.node n = y at h
  induction h generalizing l with
  | chainEnd hk =>
    cases htask
    cases hy
    exact .inl ⟨rfl, rfl, hk⟩
  | chainLink _ _ _ _ ih =>
    cases htask
    rcases ih rfl hy with ⟨rfl, -, -⟩ | hn
    · exact .inr rfl
    · exact .inr hn
  | _ => cases htask

theorem not_blockLike_of_isError (h : n.isError = true) : n.isBlockLike = false := by
  have hkind : n.kind = .error := by simpa [Node.isError] using h
  rw [Node.isBlockLike, hkind]
  rfl

theorem isError_of_blockLike (hn : n.isBlockLike = true) : n.isError = false := by
  refine eq_false_of_ne_true fun he => ?_
  rw [not_blockLike_of_isError he] at hn
  cases hn

/-- Calls and indexes leave what they start from as it is, or make a call, an index or an error
of it. -/
theorem Reads.applications_cases (h : Reads room (.applications l) s (.node n) s') :
    n = l ∨ n.isBlockLike = false := by
  generalize htask : Task.applications l = task at h
  generalize hy : Yield.node n = y at h
  induction h generalizing l with
  | applicationsEnd =>
    cases htask
    cases hy
    exact .inl rfl
  | call _ _ _ _ ih | index _ _ _ _ _ _ ih =>
    cases htask
    rcases ih rfl hy with rfl | hn
    · exact .inr rfl
    · exact .inr hn
  | badCall _ hitems =>
    cases hy
    exact .inr (not_blockLike_of_isError hitems.isError_of_items)
  | badIndex _ _ he =>
    cases hy
    exact .inr (not_blockLike_of_isError he)
  | openIndex =>
    cases hy
    exact .inr rfl
  | _ => cases htask

/-- A block or a conditional that is read at one level is read at the next one, and the token
behind it is not for the level. -/
theorem Reads.inward (hn : n.isBlockLike = true) (hi : i < 9)
    (h : Reads room (.rule (level (i + 1))) s (.node n) s') :
    ∃ r, room = r + 1 ∧ Reads r (.rule (level i)) s (.node n) s' ∧
      (0 < i → joinLevel s'.current.kind ≠ i + 1) := by
  obtain ⟨hproduct, hsum, hequality, hand, hor, hassign, htwo, hnine⟩ :=
    joinLevel_iff s'.current.kind
  obtain ⟨r, rfl⟩ := h.room_pos
  refine ⟨r, rfl, ?_⟩
  have hbinary (op : BinaryOp) (l r : Node) : n ≠ binaryNode op l r := by
    rintro rfl
    cases hn
  match i, hi with
  | 0, _ =>
    have h : Reads (r + 1) (.rule .applied) s (.node n) s' := h
    cases h with
    | unapplied h => exact ⟨h, nofun⟩
    | applied h hend hrest =>
      rcases hrest.applications_cases with rfl | hother
      · simp [endsOperand, hn] at hend
      · rw [hn] at hother
        cases hother
    | chainless hlevel => cases hlevel
    | rightChain hlevel => cases hlevel
  | 1, _ =>
    have h : Reads (r + 1) (.rule .prefixed) s (.node n) s' := h
    cases h with
    | unprefixed _ h => exact ⟨h, fun _ => htwo⟩
    | prefixed => cases hn
    | chainless hlevel => cases hlevel
    | rightChain hlevel => cases hlevel
  | 2, _ =>
    rcases Reads.rightLevel .product (by decide) h with ⟨h, hop⟩ | ⟨l, m, op, r, -, -, -, heq⟩
    · exact ⟨h, fun _ => hproduct.mp hop⟩
    · exact absurd heq (hbinary op l r)
  | 3, _ =>
    rcases Reads.rightLevel .sum (by decide) h with ⟨h, hop⟩ | ⟨l, m, op, r, -, -, -, heq⟩
    · exact ⟨h, fun _ => hsum.mp hop⟩
    · exact absurd heq (hbinary op l r)
  | 4, _ =>
    have h : Reads (r + 1) (.rule .equality) s (.node n) s' := h
    cases h with
    | chainless hlevel h hop hnot =>
      obtain ⟨rfl, rfl⟩ := RightLevel.equality.unique hlevel
      refine ⟨h, fun _ => hequality.mp ?_⟩
      have hnot := hnot rfl
      dsimp only at hop
      split at hop <;> simp_all
    | rightChain | notMember => cases hn
    | notAlone => cases hn
  | 5, _ =>
    have h : Reads (r + 1) (.rule .conjunction) s (.node n) s' := h
    cases h with
    | conjunction h hrest =>
      rcases hrest.chain_cases with ⟨rfl, rfl, hk⟩ | hother
      · exact ⟨h, fun _ => hand.mp hk⟩
      · rw [hn] at hother
        cases hother
    | chainless hlevel => cases hlevel
    | rightChain hlevel => cases hlevel
  | 6, _ =>
    have h : Reads (r + 1) (.rule .disjunction) s (.node n) s' := h
    cases h with
    | disjunction h hrest =>
      rcases hrest.chain_cases with ⟨rfl, rfl, hk⟩ | hother
      · exact ⟨h, fun _ => hor.mp hk⟩
      · rw [hn] at hother
        cases hother
    | chainless hlevel => cases hlevel
    | rightChain hlevel => cases hlevel
  | 7, _ =>
    have h : Reads (r + 1) (.rule .assignment) s (.node n) s' := h
    cases h with
    | unassigning h hop => exact ⟨h, fun _ => hassign.mp hop⟩
    | assignment | invalidTarget => cases hn
    | assignmentToError _ _ _ he =>
      rw [not_blockLike_of_isError he] at hn
      cases hn
    | chainless hlevel => cases hlevel
    | rightChain hlevel => cases hlevel
  | 8, _ =>
    have h : Reads (r + 1) (.rule .expression) s (.node n) s' := h
    cases h with
    | expression h => exact ⟨h, fun _ => hnine⟩
    | chainless hlevel => cases hlevel
    | rightChain hlevel => cases hlevel

/-- What ends an operand is read at the next level, unless the token behind it is for that. -/
theorem Reads.outward (hn : endsOperand n = true) (hi : i < 9)
    (h : Reads room (.rule (level i)) s (.node n) s') (hstart : prefixOp? s.current.kind = none)
    (hjoin : 0 < i → joinLevel s'.current.kind ≠ i + 1) :
    Reads (room + 1) (.rule (level (i + 1))) s (.node n) s' := by
  obtain ⟨hproduct, hsum, hequality, hand, hor, hassign, -⟩ := joinLevel_iff s'.current.kind
  match i, hi with
  | 0, _ => exact .unapplied h hn
  | 1, _ => exact .unprefixed hstart h
  | 2, _ => exact .chainless .product h (hproduct.mpr (hjoin (by decide))) nofun
  | 3, _ => exact .chainless .sum h (hsum.mpr (hjoin (by decide))) nofun
  | 4, _ =>
    have hk := hequality.mpr (hjoin (by decide))
    simp only [List.mem_cons, List.not_mem_nil, or_false, not_or] at hk
    refine .chainless .equality h ?_ fun _ => hk.2.2.2
    split <;> simp_all
  | 5, _ => exact .conjunction h (.chainEnd (hand.mpr (hjoin (by decide))))
  | 6, _ => exact .disjunction h (.chainEnd (hor.mpr (hjoin (by decide))))
  | 7, _ => exact .unassigning h (hassign.mpr (hjoin (by decide)))
  | 8, _ => exact .expression h

/-- Is the token for none of the levels of binary operators and assignments? -/
def Apart (k : Token.Kind) : Prop := joinLevel k = 1 ∨ joinLevel k = 10

instance (k : Token.Kind) : Decidable (Apart k) :=
  inferInstanceAs (Decidable (joinLevel k = 1 ∨ joinLevel k = 10))

theorem apart_iff {k : Token.Kind} : Apart k ↔ ∀ j, 1 < j → j ≤ 9 → joinLevel k ≠ j := by
  have hrange : 0 < joinLevel k ∧ joinLevel k ≤ 10 := by cases k <;> simp [joinLevel]
  constructor
  · rintro (hk | hk) j hj hle <;> omega
  · intro h
    by_cases hone : joinLevel k = 1
    · exact .inl hone
    · refine .inr (Decidable.byContradiction fun hten => ?_)
      exact h (joinLevel k) (by omega) (by omega) rfl

theorem Reads.operand_of_level (hn : n.isBlockLike = true) (hi : i ≤ 9)
    (h : Reads room (.rule (level i)) s (.node n) s') :
    ∃ r, room = r + i ∧ Reads r (.rule .operand) s (.node n) s' ∧
      ∀ j, 1 < j → j ≤ i → joinLevel s'.current.kind ≠ j := by
  induction i generalizing room with
  | zero => exact ⟨room, rfl, h, by omega⟩
  | succ i ih =>
    obtain ⟨r, rfl, h, hlast⟩ := h.inward hn hi
    obtain ⟨r, rfl, hoperand, hjoins⟩ := ih (by omega) h
    refine ⟨r, rfl, hoperand, fun j hj hle => ?_⟩
    by_cases hji : j = i + 1
    · subst hji
      exact hlast (by omega)
    · exact hjoins j hj (by omega)

theorem Reads.level_of_operand (hn : endsOperand n = true)
    (h : Reads room (.rule .operand) s (.node n) s') (hstart : prefixOp? s.current.kind = none)
    (hapart : Apart s'.current.kind) (hi : i ≤ 9) :
    Reads (room + i) (.rule (level i)) s (.node n) s' := by
  induction i with
  | zero => exact h
  | succ i ih =>
    refine (ih (by omega)).outward hn hi hstart fun hpos => ?_
    exact apart_iff.mp hapart (i + 1) (by omega) hi

theorem endsOperand_of_blockLike (hn : n.isBlockLike = true) : endsOperand n = true := by
  simp [endsOperand, hn]

theorem mem_of_enclosed {k : Token.Kind} (h : opened? k = some rule)
    (hrule : rule.isEnclosed = true) : k ∈ [.leftParen, .leftBracket, .leftBrace, .kwIf] := by
  unfold opened? at h
  split at h <;> cases h <;> first | decide | cases hrule

theorem Reads.enclosed (hn : n.isBlockLike = true)
    (h : Reads room (.rule .operand) s (.node n) s') :
    ∃ r rule, room = r + 1 ∧ opened? s.current.kind = some rule ∧ rule.isEnclosed = true ∧
      Reads r (.rule rule) s (.node n) s' := by
  cases h with
  | leaf hleaf => exact absurd hn hleaf.not_blockLike
  | compound hrule h =>
    rcases opened?_enclosed hrule with henclosed | rfl
    · exact ⟨_, _, rfl, hrule, henclosed, h⟩
    · exact absurd hn h.not_blockLike_of_binding
  | refused | invalidToken | missing => cases hn
  | chainless hlevel => cases hlevel
  | rightChain hlevel => cases hlevel

theorem Reads.operand_of_statement (hn : n.isBlockLike = true)
    (h : Reads room (.rule .statement) s (.node n) s') :
    ∃ r, room = r + 10 ∧ Reads r (.rule .operand) s (.node n) s' ∧ Apart s'.current.kind := by
  cases h with
  | bindingStatement _ h => exact absurd hn h.not_blockLike_of_binding
  | returnStatement _ h =>
    cases h with
    | bareReturn | returnOf => cases hn
    | chainless hlevel => cases hlevel
    | rightChain hlevel => cases hlevel
  | expressionStatement _ _ h =>
    obtain ⟨r, rfl, hoperand, hjoins⟩ := Reads.operand_of_level (i := 9) hn (Nat.le_refl 9) h
    exact ⟨r, rfl, hoperand, apart_iff.mpr hjoins⟩
  | chainless hlevel => cases hlevel
  | rightChain hlevel => cases hlevel

theorem Reads.statement_of_operand (hn : n.isBlockLike = true)
    (h : Reads room (.rule .operand) s (.node n) s') (hapart : Apart s'.current.kind) :
    Reads (room + 10) (.rule .statement) s (.node n) s' := by
  obtain ⟨r, rule, rfl, hopened, hrule, -⟩ := h.enclosed hn
  have hfirst := mem_of_enclosed hopened hrule
  have hexpression := h.level_of_operand (i := 9) (endsOperand_of_blockLike hn)
    (prefixOp?_of_opened hopened) hapart (Nat.le_refl 9)
  refine .expressionStatement ?_ ?_ hexpression
  · rintro hk
    rw [hk] at hfirst
    exact absurd hfirst (by decide)
  · rintro hk
    rw [hk] at hfirst
    exact absurd hfirst (by decide)

end Levels

section Ends

variable {room : Nat} {task : Task} {s m s' : State} {y : Yield}

/-- The kinds of tokens that close what one token opens. -/
def closers : List Token.Kind := [.rightParen, .rightBracket, .rightBrace]

/-- The last token that is consumed from the one state to the other closes something. -/
def EndsClosed (s s' : State) : Prop := ∃ q, Moves s q ∧ q.current.kind ∈ closers ∧ s' = q.advance

theorem endsClosed_advance (h : Moves s m) (hk : m.current.kind ∈ closers) :
    EndsClosed s m.advance := ⟨m, h, hk, rfl⟩

theorem EndsClosed.of_moves (hm : Moves s m) (h : EndsClosed m s') : EndsClosed s s' := by
  obtain ⟨q, hq, hk, heq⟩ := h
  exact ⟨q, hm.trans hq, hk, heq⟩

/-- A list of items is one between tokens of a pair. -/
def Task.Paired : Task → Prop
  | .items closing _ _ _ => closing ∈ closers
  | _ => True

/-- What ends with a token of its own ends with one that closes something. -/
theorem Reads.endsClosed (h : Reads room task s y s') (hclosed : Closed task y)
    (htask : task.Paired) : EndsClosed s s' := by
  induction h with
  | compound hrule hn ih => exact ih (hclosed.of_operand hrule hn) trivial
  | unit _ hempty => exact endsClosed_advance (.advance (.refl _)) (by simp [hempty, closers])
  | grouped _ _ _ ih | tuple _ _ _ _ ih | array _ _ ih =>
    have hitems := ih ⟨_, _, rfl⟩ (by simp [Task.Paired, closers])
    exact hitems.of_moves (.advance (.refl _))
  | block _ hstatements hclose =>
    exact endsClosed_advance (.of_advance (.of_reads hstatements)) (by simp [hclose, closers])
  | ifThen _ hc _ _ _ he' _ _ iht =>
    exact (iht ⟨_, rfl, he', .inl rfl⟩ trivial).of_moves (.of_advance (.of_reads hc))
  | ifThenElse _ hc _ _ ht _ _ hrule _ he'' _ _ ihe =>
    have hmoves := (Moves.of_advance (.of_reads hc)).trans (.of_reads ht)
    have hbranch := ihe ⟨_, rfl, he'', .inl (branch?_enclosed hrule)⟩ trivial
    exact hbranch.of_moves (.advance hmoves)
  | itemsEnd hk => exact endsClosed_advance (.refl _) (hk ▸ htask)
  | item _ hn _ _ _ _ ih => exact (ih hclosed htask).of_moves (.advance (.of_reads hn))
  | lastItem _ hn _ _ hclose => exact endsClosed_advance (.of_reads hn) (hclose ▸ htask)
  -- Nothing else ends with a token of its own.
  | leaf hleaf => exact absurd hclosed (not_closed_of_operand hleaf.not_blockLike)
  | refused | invalidToken | missing | openBlock | noBlock | noBranch =>
    exact absurd hclosed (not_closed_of_error rfl)
  | badGroup _ _ hitems | badArray _ hitems =>
    exact absurd hclosed (not_closed_of_error hitems.isError_of_items)
  | badCondition _ _ he | badBlock _ _ _ _ _ he | badBranch _ _ _ _ _ _ _ _ _ he =>
    exact absurd hclosed (not_closed_of_error he)
  | badItem | openItems => exact absurd hclosed not_closed_of_items
  | chainless hlevel | rightChain hlevel =>
    exact absurd hclosed (not_closed_of_rule hlevel.not_enclosed)
  | chainEnd | chainLink | applicationsEnd | call | badCall | index | badIndex | openIndex
  | sequenceEnd | separator | terminated | trailing | recovered | unterminated | unseparated =>
    cases hclosed
  | _ => exact absurd hclosed (not_closed_of_rule ⟨rfl, nofun⟩)

end Ends

section Sole

open State (Listed)

variable {room : Nat} {s m s' t' : State} {y : Yield} {read all : List Node} {last : Option Node}
  {n : Node} {more : List Token}

/-- Between the states only semicolons are consumed. -/
inductive Separated : State → State → Prop where
  | refl (s : State) : Separated s s
  | semicolon {s s' : State} : s.current.kind = .semicolon → Separated s.advance s' → Separated s s'

theorem Separated.moves (h : Separated s s') : Moves s s' := by
  induction h with
  | refl s => exact .refl s
  | semicolon _ _ ih => exact .of_advance ih

theorem reads_semicolon_iff (hk : s.current.kind = .semicolon) :
    Reads room (.sequence .eof read) s y s' ↔ Reads room (.sequence .eof read) s.advance y s' := by
  constructor
  · intro h
    cases h with
    | separator _ _ hrest => exact hrest
    | sequenceEnd hend => simp [hk] at hend
    | terminated _ hother | trailing _ hother | recovered _ hother | unterminated _ hother
    | unseparated _ hother => exact absurd hk hother
  · exact .separator (by simp [hk]) hk

/-- Semicolons in front of a statement do not matter. -/
theorem Separated.reads_iff (h : Separated s m) (hs : s.Listed) :
    Reads room (.sequence .eof read) (s.extend more) y t' ↔
      Reads room (.sequence .eof read) (m.extend more) y t' := by
  induction h with
  | refl => exact Iff.rfl
  | semicolon hk _ ih =>
    rw [reads_semicolon_iff (State.kind_extend_eq hk (by decide)),
      ← State.extend_advance hs (by simp [hk])]
    exact ih hs.advance

/-- What was read before stays. -/
theorem Reads.prefix {closing : Token.Kind}
    (h : Reads room (.sequence closing read) s (.sequence all last) s') :
    ∃ rest, all = read ++ rest := by
  generalize htask : Task.sequence closing read = task at h
  generalize hy : Yield.sequence all last = y at h
  induction h generalizing read with
  | sequenceEnd | trailing =>
    cases htask
    cases hy
    exact ⟨[], (List.append_nil _).symm⟩
  | separator _ _ _ ih =>
    cases htask
    exact ih rfl hy
  | terminated _ _ _ _ _ _ ih | recovered _ _ _ _ _ _ _ _ ih | unterminated _ _ _ _ _ _ _ _ _ ih
  | unseparated _ _ _ _ _ _ _ _ _ ih =>
    cases htask
    obtain ⟨rest, rfl⟩ := ih rfl hy
    exact ⟨_, List.append_assoc ..⟩
  | _ => cases htask

/-- Where no statement is read any more, there are only semicolons. -/
theorem Reads.separated (h : Reads room (.sequence .eof read) s (.sequence read none) s') :
    Separated s s' := by
  generalize htask : Task.sequence .eof read = task at h
  generalize hy : Yield.sequence read none = y at h
  induction h with
  | sequenceEnd => exact .refl _
  | separator _ hk _ ih => exact .semicolon hk (ih htask hy)
  | terminated _ _ _ _ hrest | recovered _ _ _ _ _ _ hrest | unterminated _ _ _ _ _ _ _ hrest =>
    cases htask
    cases hy
    obtain ⟨rest, hall⟩ := hrest.prefix
    simp at hall
  | unseparated _ _ _ _ _ _ _ hrest =>
    cases htask
    cases hy
    obtain ⟨rest, hall⟩ := hrest.prefix
    simp at hall
  | trailing => cases hy
  | _ => cases htask

/-- The first statement that is read. -/
theorem Reads.first (h : Reads room (.sequence .eof read) s (.sequence all last) s')
    (hk : s.current.kind ≠ .eof) (hsemicolon : s.current.kind ≠ .semicolon) :
    ∃ n m, Reads room (.rule .statement) s (.node n) m ∧ Moves m s' ∧
      ∃ rest, all ++ last.toList = read ++ n :: rest := by
  cases h with
  | sequenceEnd hend => simp [hk] at hend
  | separator _ hother => exact absurd hother hsemicolon
  | trailing _ _ hitem => exact ⟨_, _, hitem, .moveOn _ (.refl _), [], rfl⟩
  | terminated _ _ hitem _ hrest =>
    obtain ⟨rest, rfl⟩ := hrest.prefix
    refine ⟨_, _, hitem, .of_moveOn (.of_advance (.of_reads hrest)), rest ++ last.toList, ?_⟩
    simp
  | recovered _ _ hitem _ _ _ hrest =>
    obtain ⟨rest, rfl⟩ := hrest.prefix
    refine ⟨_, _, hitem, .of_moveOn (.of_synchronize (.of_reads hrest)), rest ++ last.toList, ?_⟩
    simp
  | unterminated _ _ hitem _ _ _ _ hrest =>
    obtain ⟨rest, rfl⟩ := hrest.prefix
    refine ⟨_, _, hitem, .of_moveOn (.of_reads hrest), rest ++ last.toList, ?_⟩
    simp
  | @unseparated _ _ _ _ n m _ _ _ _ hitem _ _ _ _ hrest =>
    obtain ⟨rest, rfl⟩ := hrest.prefix
    refine ⟨n, m, hitem, .of_moveOn (.of_expected (.of_reads hrest)),
      ((moveOn s.consumed m).expected "`;`").1 :: (rest ++ last.toList), ?_⟩
    simp

/-- A list of one statement that is a block or a conditional. -/
theorem Reads.sole (h : Reads room (.sequence .eof read) s (.sequence all last) s')
    (hn : n.isBlockLike = true) (hsole : all ++ last.toList = read ++ [n]) :
    ∃ m m', Separated s m ∧ m.current.kind ≠ .eof ∧ m.current.kind ≠ .semicolon ∧
      Reads room (.rule .statement) m (.node n) m' ∧ Separated m' s' := by
  generalize htask : Task.sequence .eof read = task at h
  generalize hy : Yield.sequence all last = y at h
  have herror := isError_of_blockLike hn
  -- Behind the first statement there is none any more.
  have behind {item : Node} {q : State}
      (hrest : Reads room (.sequence .eof (read ++ [item])) q (.sequence all last) s') :
      item = n ∧ Separated q s' := by
    obtain ⟨rest, rfl⟩ := hrest.prefix
    simp only [List.append_assoc, List.append_cancel_left_eq, List.cons_append, List.nil_append,
      List.cons.injEq, List.append_eq_nil_iff] at hsole
    obtain ⟨rfl, rfl, hlast⟩ := hsole
    obtain rfl : last = none := by simpa using hlast
    rw [List.append_nil] at hrest
    exact ⟨rfl, hrest.separated⟩
  induction h with
  | sequenceEnd =>
    cases htask
    cases hy
    simp at hsole
  | separator _ hk _ ih =>
    cases htask
    cases hy
    obtain ⟨m, m', hm, hitem⟩ := ih rfl rfl behind
    exact ⟨m, m', .semicolon hk hm, hitem⟩
  | terminated hend hk hitem hsemicolon hrest =>
    cases htask
    cases hy
    obtain ⟨rfl, hs'⟩ := behind hrest
    rw [moveOn_of_not_error hitem herror] at hsemicolon hs'
    exact ⟨_, _, .refl _, by simpa using hend, hk, hitem, .semicolon hsemicolon hs'⟩
  | trailing hend hk hitem hsemicolon hclosing =>
    cases htask
    cases hy
    obtain rfl : _ = n := by simpa using hsole
    rw [moveOn_of_not_error hitem herror]
    exact ⟨_, _, .refl _, by simpa using hend, hk, hitem, .refl _⟩
  | recovered _ _ _ _ _ he hrest =>
    cases htask
    cases hy
    obtain ⟨rfl, -⟩ := behind hrest
    rw [herror] at he
    cases he
  | unterminated _ _ _ hsemicolon hclosing _ _ hrest =>
    cases htask
    cases hy
    obtain ⟨rfl, hs'⟩ := behind hrest
    cases hs' with
    | refl => exact absurd hrest.ends hclosing
    | semicolon hk => exact absurd hk hsemicolon
  | unseparated _ _ _ _ _ _ hblock hrest =>
    cases htask
    cases hy
    obtain ⟨rest, rfl⟩ := hrest.prefix
    simp at hsole
  | _ => cases htask

/-- A block or a conditional and what stands behind it. -/
theorem Reads.then (hn : n.isBlockLike = true) (hk : s.current.kind ≠ .eof)
    (hsemicolon : s.current.kind ≠ .semicolon) (hitem : Reads room (.rule .statement) s (.node n) m)
    (hbehind : m.current.kind ≠ .eof) (hrest : Reads room (.sequence .eof (read ++ [n])) m y t') :
    Reads room (.sequence .eof read) s y t' := by
  have hopen : [.eof, .eof].contains s.current.kind = false := by simp [hk]
  have herror := isError_of_blockLike hn
  have hmoved := moveOn_of_not_error hitem herror
  by_cases hsep : m.current.kind = .semicolon
  · refine .terminated hopen hsemicolon hitem (by rwa [hmoved]) ?_
    rw [hmoved]
    exact (reads_semicolon_iff hsep).mp hrest
  · refine .unterminated hopen hsemicolon hitem ?_ ?_ herror hn ?_
    · rwa [hmoved]
    · rwa [hmoved]
    · rwa [hmoved]

/-- A block or a conditional at the end stays the same statement in front of what is for none of
the levels of operators. -/
theorem Reads.extend_statement (hn : n.isBlockLike = true)
    (h : Reads room (.rule .statement) s (.node n) m) (hs : s.Listed)
    (hfaults : Faultless s m)
    (hnext : m.current.kind = .eof → Apart (next more) ∧ next more ≠ .kwElse) :
    Reads room (.rule .statement) (s.extend more) (.node n) (m.extend more) := by
  by_cases heof : m.current.kind = .eof
  · obtain ⟨hapart, helse⟩ := hnext heof
    obtain ⟨r, rfl, hoperand, -⟩ := h.operand_of_statement hn
    have hclosed : Closed (.rule .operand) (.node n) :=
      ⟨n, rfl, isError_of_blockLike hn, .inr ⟨rfl, hn⟩⟩
    refine (hoperand.extend hs hfaults rfl (.inr ⟨helse, hclosed⟩)).statement_of_operand hn ?_
    rwa [State.kind_extend heof]
  · exact h.extend_inside _ heof

end Sole

section Lists

open State (Listed)

variable {room : Nat} {s m m' s' t' w : State} {text : List Char} {S T : List Token}
  {all allT : List Node} {last lastT : Option Node} {n : Node} {rest : List Node}

/-- What all of a list's last tokens are, its very last one is. -/
theorem exists_getLast {P : Token → Prop} {ts : List Token} (h : ts <:+ S) (hne : ts ≠ [])
    (hall : ∀ t ∈ ts, P t) : ∃ t, S.getLast? = some t ∧ P t := by
  obtain ⟨front, rfl⟩ := h
  refine ⟨ts.getLast hne, ?_, hall _ (List.getLast_mem hne)⟩
  rw [List.getLast?_append, List.getLast?_eq_some_getLast hne, Option.some_or]

theorem Separated.pending (h : Separated s s') (hend : s'.current.kind = .eof) :
    ∀ t ∈ s.pending, t.kind = .semicolon := by
  induction h with
  | refl =>
    rw [State.pending, if_pos hend]
    exact List.forall_mem_nil _
  | @semicolon s s' hk _ ih =>
    have hpending : s.pending = s.current :: s.advance.pending :=
      takes_advance (ne_of_eq_of_ne hk (by decide))
    rw [hpending]
    exact List.forall_mem_cons.mpr ⟨hk, ih hend⟩

/-- A list of tokens whose last statement has a semicolon behind it ends with that. -/
theorem last_of_separated (hS : ∀ t ∈ S, t.kind ≠ .eof)
    (hm : Moves (.ofSupply (.tokens S) text) m) (h : Separated m s')
    (hend : s'.current.kind = .eof) (hk : m.current.kind = .semicolon) :
    ∃ t, S.getLast? = some t ∧ t.kind = .semicolon := by
  have hstart : (State.ofSupply (.tokens S) text).pending = S := by
    rw [pending_ofSupply, pending_tokens hS]
  refine exists_getLast (hstart ▸ pending_suffix hm) ?_ (h.pending hend)
  rw [State.pending, if_neg (by simp [hk])]
  exact List.cons_ne_nil _ _

/-- One whose last statement is a block or a conditional without a semicolon ends otherwise. -/
theorem last_of_closed (hS : ∀ t ∈ S, t.kind ≠ .eof)
    (hm : Moves (.ofSupply (.tokens S) text) m) (h : EndsClosed m s')
    (hend : s'.current.kind = .eof) : ∃ t, S.getLast? = some t ∧ t.kind ∈ closers := by
  obtain ⟨q, hq, hk, rfl⟩ := h
  have hstart : (State.ofSupply (.tokens S) text).pending = S := by
    rw [pending_ofSupply, pending_tokens hS]
  have hne : q.current.kind ≠ .eof := fun heof => by
    rw [heof] at hk
    exact absurd hk (by decide)
  have hpending : q.pending = q.current :: q.advance.pending := takes_advance hne
  have hlast : q.advance.pending = [] := by rw [State.pending, if_pos hend]
  rw [hlast] at hpending
  refine exists_getLast (hstart ▸ pending_suffix (hm.trans hq)) ?_ ?_
  · rw [hpending]
    exact List.cons_ne_nil _ _
  · rw [hpending]
    exact List.forall_mem_singleton.mpr hk

theorem closed_of_blockLike (hn : n.isBlockLike = true) : Closed (.rule .operand) (.node n) :=
  ⟨n, rfl, isError_of_blockLike hn, .inr ⟨rfl, hn⟩⟩

/-- A list of tokens that is one block or conditional: the statement lies between semicolons, and
where none stands behind it, it comes to the end. -/
theorem Reads.sole_listed (hS : ∀ t ∈ S, t.kind ≠ .eof) (hn : n.isBlockLike = true)
    (h : Reads room (.sequence .eof []) (.ofSupply (.tokens S) text) (.sequence all last) s')
    (hsole : all ++ last.toList = [n]) (hclean : s'.diagnostics = []) :
    ∃ m m', Separated (.ofSupply (.tokens S) text) m ∧ m.Listed ∧
      m.current.kind ∉ [.eof, .semicolon] ∧ Reads room (.rule .statement) m (.node n) m' ∧
      Faultless m m' ∧ Separated m' s' ∧
      (m'.current.kind = .eof ↔ ¬ ∃ t, S.getLast? = some t ∧ t.kind = .semicolon) := by
  obtain ⟨m, m', hm, hk, hsemicolon, hitem, hm'⟩ := h.sole hn hsole
  have hlisted := (State.listed_ofSupply hS).of_moves hm.moves
  have hfaults : Faultless m m' := (faultless_of_nil hclean).before hm'.moves
  refine ⟨m, m', hm, hlisted, by simp [hk, hsemicolon], hitem, hfaults, hm', ?_, ?_⟩
  · rintro heof ⟨t, hlast, hseparator⟩
    obtain ⟨r, -, hoperand, -⟩ := hitem.operand_of_statement hn
    obtain ⟨t', hlast', hcloser⟩ :=
      last_of_closed hS hm.moves (hoperand.endsClosed (closed_of_blockLike hn) trivial) heof
    obtain rfl : t = t' := Option.some.inj (hlast.symm.trans hlast')
    rw [hseparator] at hcloser
    exact absurd hcloser (by decide)
  · intro hlast
    cases hm' with
    | refl => exact h.ends
    | semicolon hk' hm' =>
      have hmoves := hm.moves.trans (.of_reads hitem)
      exact absurd (last_of_separated hS hmoves (.semicolon hk' hm') h.ends hk') hlast

/-- What may come first in a list of statements that is read without faults. -/
theorem next_of_reads (hT : ∀ t ∈ T, t.kind ≠ .eof) (hne : T ≠ [])
    (h : Reads room (.sequence .eof []) (.ofSupply (.tokens T) text) (.sequence allT lastT) t')
    (hclean : t'.diagnostics = []) : next T ∈ .semicolon :: starts := by
  obtain ⟨t, ts, rfl⟩ := List.exists_cons_of_ne_nil hne
  have hk : (State.ofSupply (.tokens (t :: ts)) text).current.kind = t.kind :=
    Supply.pull_tokens_kind t ts (.endOf text)
  by_cases hsemicolon : t.kind = .semicolon
  · exact List.mem_cons.mpr (.inl hsemicolon)
  · obtain ⟨n, m, hitem, hmoves, -⟩ := h.first (hk ▸ hT t (by simp)) (hk ▸ hsemicolon)
    have hstarts := hitem.mem_starts ((faultless_of_nil hclean).before hmoves)
    rw [hk] at hstarts
    exact List.mem_cons_of_mem _ hstarts

/-- The statement of the first list, and those of the second one. -/
theorem Reads.append_blockLike (hS : ∀ t ∈ S, t.kind ≠ .eof) (hT : ∀ t ∈ T, t.kind ≠ .eof)
    (hne : T ≠ []) (hn : n.isBlockLike = true)
    (h : Reads room (.sequence .eof []) (.ofSupply (.tokens S) text) (.sequence all last) s')
    (hsole : all ++ last.toList = [n]) (hclean : s'.diagnostics = [])
    (h' : Reads room (.sequence .eof []) (.ofSupply (.tokens T) text) (.sequence allT lastT) t')
    (hclean' : t'.diagnostics = [])
    (hnext : (∃ t, S.getLast? = some t ∧ t.kind = .semicolon) ∨ next T ∉ [.minus, .kwNot]) :
    ∃ w, w.diagnostics = [] ∧ Reads room (.sequence .eof [])
      (.ofSupply (.tokens (S ++ T)) text) (.sequence (n :: allT) lastT) w := by
  obtain ⟨m, m', hm, hlisted, hk, hitem, hfaults, hm', hends⟩ := h.sole_listed hS hn hsole hclean
  simp only [List.mem_cons, List.not_mem_nil, or_false, not_or] at hk
  have hkinds : ∀ k ∈ .semicolon :: starts,
      k ≠ .eof ∧ (k ∉ [.minus, .kwNot] → Apart k ∧ k ≠ .kwElse) := by decide
  obtain ⟨hneof, hapart⟩ := hkinds _ (next_of_reads hT hne h' hclean')
  have hstatement : Reads room (.rule .statement) (m.extend T) (.node n) (m'.extend T) :=
    hitem.extend_statement hn hlisted hfaults fun heof =>
      hapart (hnext.resolve_left (hends.mp heof))
  -- Behind the first list the second one is read as if it stood alone.
  have hbehind := (h'.embed (c := ⟨s'.consumed, s'.diagnostics, []⟩) (.inl rfl)).behind [n]
  rw [← State.extend_ends (.of_reads h) h.ends] at hbehind
  have hrest := (hm'.reads_iff (hlisted.of_reads hitem)).mpr hbehind
  have hcurrent : (m.extend T).current = m.current := State.extend_current _ hk.1
  have hbetween : (m'.extend T).current.kind ≠ .eof := by
    obtain ⟨-, hnext⟩ | ⟨hne, hsame⟩ := State.extend_cases T m'
    · rwa [hnext]
    · rwa [hsame]
  have hwhole : Reads room (.sequence .eof []) (m.extend T) (.sequence (n :: allT) lastT) _ :=
    Reads.then hn (hcurrent ▸ hk.1) (hcurrent ▸ hk.2) hstatement hbetween hrest
  refine ⟨t'.embed ⟨s'.consumed, s'.diagnostics, []⟩, ?_, ?_⟩
  · simp [State.embed, hclean, hclean']
  · rw [← State.extend_ofSupply hS]
    exact (hm.reads_iff (State.listed_ofSupply hS)).mpr hwhole

/-- In front of a sign that is also an operator, a block or a conditional without a semicolon is
not the first statement. -/
theorem Reads.not_append_blockLike (hS : ∀ t ∈ S, t.kind ≠ .eof) (hn : n.isBlockLike = true)
    (h : Reads room (.sequence .eof []) (.ofSupply (.tokens S) text) (.sequence all last) s')
    (hsole : all ++ last.toList = [n]) (hclean : s'.diagnostics = [])
    (hlast : ¬ ∃ t, S.getLast? = some t ∧ t.kind = .semicolon) (hnext : next T ∈ [.minus, .kwNot])
    (h' : Reads room (.sequence .eof []) (.ofSupply (.tokens (S ++ T)) text)
      (.sequence allT lastT) t') : allT ++ lastT.toList ≠ n :: rest := by
  intro hread
  obtain ⟨m, m', hm, hlisted, hk, hitem, hfaults, hm', hends⟩ := h.sole_listed hS hn hsole hclean
  simp only [List.mem_cons, List.not_mem_nil, or_false, not_or] at hk
  rw [← State.extend_ofSupply hS, hm.reads_iff (State.listed_ofSupply hS)] at h'
  have hcurrent : (m.extend T).current = m.current := State.extend_current _ hk.1
  obtain ⟨n', q, hitem', -, rest', hread'⟩ := h'.first (hcurrent ▸ hk.1) (hcurrent ▸ hk.2)
  obtain ⟨rfl, -⟩ : n' = n ∧ rest' = rest := by simpa using hread'.symm.trans hread
  obtain ⟨r, rfl, hoperand, -⟩ := hitem.operand_of_statement hn
  obtain ⟨r', hroom, hoperand', hapart⟩ := hitem'.operand_of_statement hn
  obtain rfl : r = r' := Nat.add_right_cancel hroom
  -- The operand is the same in both lists, and behind it stands the sign.
  have hkinds : ∀ k ∈ [.minus, .kwNot], k ≠ .kwElse ∧ ¬ Apart k := by decide
  obtain ⟨helse, hnot⟩ := hkinds _ hnext
  have hextended : Reads r (.rule .operand) (m.extend T) (.node n') (m'.extend T) :=
    hoperand.extend hlisted hfaults rfl (.inr ⟨helse, closed_of_blockLike hn⟩)
  obtain ⟨-, rfl⟩ := hoperand'.unique_node hextended
  rw [State.kind_extend (hends.mpr hlast)] at hapart
  exact hnot hapart

end Lists

end Grammar

namespace Reading

open Grammar

variable {tokens : List Token} {text : List Char}

theorem ok_ofTokens {read : List Node} {s : State}
    (h : (program nestingLimit).run (.ofSupply (.tokens tokens) text) = (read, s)) :
    (ofTokens tokens text).ok = true ↔ s.supply.diagnostics ++ s.diagnostics = [] := by
  have hdiagnostics : (ofTokens tokens text).diagnostics =
      Diagnostic.ordered (s.supply.diagnostics ++ s.diagnostics) := by
    rw [ofTokens, ofSupply, h]
  rw [ok, List.isEmpty_iff, hdiagnostics, Diagnostic.ordered, ← List.length_eq_zero_iff,
    List.length_mergeSort, List.length_eq_zero_iff]

/-- Within the limit a list of tokens is read without diagnostics where no fault is recorded. -/
theorem ok_ofTokens_iff {read : List Node} {last : Option Node} {s : State}
    (h : Reads 978 (.sequence .eof []) (.ofSupply (.tokens tokens) text) (.sequence read last) s) :
    (ofTokens tokens text).ok = true ↔ s.diagnostics = [] := by
  obtain ⟨rest, hrest, -⟩ := tokens_of_moves (.of_reads h) (supply_ofSupply tokens text)
  rw [ok_ofTokens (program_eq h), hrest]
  rfl

/-- What is read without diagnostics is read within the limit. -/
theorem reads_of_ok_ofTokens (h : (ofTokens tokens text).ok = true) :
    ∃ read last s, Reads 978 (.sequence .eof []) (.ofSupply (.tokens tokens) text)
        (.sequence read last) s ∧
      (ofTokens tokens text).statements = read ++ last.toList ∧ s.diagnostics = [] := by
  obtain ⟨read, last, s, hreads, -⟩ | ⟨m, hrun⟩ :=
    program_cases 978 (.ofSupply (.tokens tokens) text)
  · exact ⟨read, last, s, hreads, (ofTokens_eq hreads).1, (ok_ofTokens_iff hreads).mp h⟩
  · have hnone := (ok_ofTokens hrun).mp h
    obtain ⟨d, hd, -⟩ := (errors_of_giveUp m).2
    rw [hnone] at hd
    cases hd

/-- What is read without diagnostics is read in any text. -/
theorem ofTokens_any_text (h : (ofTokens tokens text).ok = true) (text' : List Char) :
    (ofTokens tokens text').ok = true ∧
      (ofTokens tokens text').statements = (ofTokens tokens text).statements := by
  obtain ⟨read, last, s, hreads, hstatements, hclean⟩ := reads_of_ok_ofTokens h
  have hreads' := hreads.endingAt (faultless_of_nil hclean) (.endOf text')
  rw [State.endingAt_ofSupply] at hreads'
  exact ⟨(ok_ofTokens_iff hreads').mpr hclean, (ofTokens_eq hreads').1.trans hstatements.symm⟩

end Reading

open Grammar

/-- A block or a conditional that is a list of tokens of its own is a statement in front of any
other one, without a semicolon between them, unless the next statement starts with `-` or `not`.
These are taken for operators, with the block as their left operand. -/
theorem block_like_statements_need_no_semicolon {S T : List Token} {textS textT : List Char}
    (text : List Char) (hS : ∀ t ∈ S, t.kind ≠ .eof) (hT : ∀ t ∈ T, t.kind ≠ .eof)
    (hokS : (Reading.ofTokens S textS).ok = true)
    (hsole : (Reading.ofTokens S textS).statements.map Node.isBlockLike = [true])
    (hokT : (Reading.ofTokens T textT).ok = true) :
    ((Reading.ofTokens (S ++ T) text).ok = true ∧
        (Reading.ofTokens (S ++ T) text).statements =
          (Reading.ofTokens S textS).statements ++ (Reading.ofTokens T textT).statements) ↔
      S.getLast?.map Token.kind = some .semicolon ∨
        T.head?.map Token.kind ∉ [some .minus, some .kwNot] := by
  obtain ⟨hokS, hsameS⟩ := Reading.ofTokens_any_text hokS text
  obtain ⟨hokT, hsameT⟩ := Reading.ofTokens_any_text hokT text
  rw [← hsameS] at hsole ⊢
  rw [← hsameT]
  obtain ⟨read, last, s, hreads, hstatements, hclean⟩ := Reading.reads_of_ok_ofTokens hokS
  obtain ⟨readT, lastT, t, hreadsT, hstatementsT, hcleanT⟩ := Reading.reads_of_ok_ofTokens hokT
  obtain ⟨n, hone, hn⟩ :
      ∃ n, (Reading.ofTokens S text).statements = [n] ∧ n.isBlockLike = true := by
    simpa [List.map_eq_cons_iff] using hsole
  rw [hone] at hstatements
  have hlast : S.getLast?.map Token.kind = some .semicolon ↔
      ∃ t, S.getLast? = some t ∧ t.kind = .semicolon := Option.map_eq_some_iff
  have hhead : T.head?.map Token.kind ∉ [some .minus, some .kwNot] ↔
      next T ∉ [.minus, .kwNot] := by
    cases T <;> simp [next]
  rw [hlast, hhead]
  constructor
  · rintro ⟨hok, hwhole⟩
    refine Decidable.byContradiction fun hboth => ?_
    obtain ⟨hnone, hsign⟩ := not_or.mp hboth
    obtain ⟨readW, lastW, w, hreadsW, hstatementsW, -⟩ := Reading.reads_of_ok_ofTokens hok
    rw [hone, hstatementsW] at hwhole
    exact hreads.not_append_blockLike hS hn hstatements.symm hclean hnone
      (Decidable.not_not.mp hsign) hreadsW hwhole
  · intro hnext
    by_cases hne : T = []
    · subst hne
      obtain ⟨rfl, rfl, -⟩ := hreadsT.nothing rfl
      rw [List.append_nil, hone, hstatementsT]
      exact ⟨hokS, rfl⟩
    · obtain ⟨w, hcleanW, hreadsW⟩ := hreads.append_blockLike hS hT hne hn hstatements.symm hclean
        hreadsT hcleanT hnext
      refine ⟨(Reading.ok_ofTokens_iff hreadsW).mpr hcleanW, ?_⟩
      rw [(Reading.ofTokens_eq hreadsW).1, hone, hstatementsT]
      rfl

/-- A block in parentheses and an array that is indexed behind it, which is neither a call nor an
index of the block. -/
theorem grouped_block_needs_no_semicolon :
    let text := "({ 1 }) [2][0] - 3".toList
    let S := (lex text).1.take 5
    let T := (lex text).1.drop 5
    (∀ t ∈ S, t.kind ≠ .eof) ∧ (∀ t ∈ T, t.kind ≠ .eof) ∧
      (Reading.ofTokens S text).statements.map Node.isBlockLike = [true] ∧
      (Reading.ofTokens (S ++ T) text).ok = true ∧
      (Reading.ofTokens (S ++ T) text).statements =
        (Reading.ofTokens S text).statements ++ (Reading.ofTokens T text).statements := by
  intro text S T
  have hS : ∀ t ∈ S, t.kind ≠ .eof := by decide +kernel
  have hT : ∀ t ∈ T, t.kind ≠ .eof := by decide +kernel
  have hsole : (Reading.ofTokens S text).statements.map Node.isBlockLike = [true] := by
    decide +kernel
  have hnext : T.head?.map Token.kind ∉ [some .minus, some .kwNot] := by decide +kernel
  exact ⟨hS, hT, hsole, (block_like_statements_need_no_semicolon text hS hT (by decide +kernel)
    hsole (by decide +kernel)).mpr (.inr hnext)⟩

/-- A block is not kept apart from a statement that starts with `not`: an operator of two words is
looked for behind it, and the second word is missed. -/
theorem block_goes_on_with_sign :
    ¬ ∀ (S T : List Token) (text : List Char),
      (∀ t ∈ S, t.kind ≠ .eof) → (∀ t ∈ T, t.kind ≠ .eof) →
      (Reading.ofTokens S text).ok = true →
      (Reading.ofTokens S text).statements.map Node.isBlockLike = [true] →
      (Reading.ofTokens T text).ok = true →
      (Reading.ofTokens (S ++ T) text).ok = true ∧
        (Reading.ofTokens (S ++ T) text).statements =
          (Reading.ofTokens S text).statements ++ (Reading.ofTokens T text).statements := by
  intro h
  let text := "{ 1 } not true".toList
  have hwhole := h ((lex text).1.take 3) ((lex text).1.drop 3) text (by decide +kernel)
    (by decide +kernel) (by decide +kernel) (by decide +kernel) (by decide +kernel)
  exact absurd hwhole.1 (by decide +kernel)

end Scriptlet
