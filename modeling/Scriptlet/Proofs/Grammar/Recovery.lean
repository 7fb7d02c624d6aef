import Scriptlet.Proofs.Grammar.Pending
import Scriptlet.Proofs.Tree.Errors

/-!
# Recovery from faults

Faults and consumed error tokens are the blemishes of a text. What is read holds an
error node exactly when a blemish was met on the way: a partial tree is dropped only
for an error node in its place, and tokens are skipped only behind one.
-/

namespace Scriptlet.Grammar

open Scriptlet.Parser

theorem consumed_advance {s : State} (h : s.current.kind ≠ .eof) :
    s.advance.consumed = s.consumed + 1 := by
  simp only [State.advance, if_neg h]

theorem consumed_le {s s' : State} (h : Moves s s') : s.consumed ≤ s'.consumed := by
  induction h with
  | refl => exact Nat.le_refl _
  | fault f p _ ih => exact ih
  | @advance m _ ih =>
    by_cases hk : m.current.kind = .eof
    · rwa [State.advance, if_pos hk]
    · rw [consumed_advance hk]
      exact Nat.le_succ_of_le ih

end Scriptlet.Grammar

namespace Scriptlet.Parser

open Grammar (consumed_le consumed_advance)

/-- Tokens are consumed on the way. -/
structure Later (s m : State) : Prop where
  moves : Moves s m
  consumed : s.consumed < m.consumed

namespace Later

variable {s m m' : State}

theorem trans (h : Later s m) (h' : Moves m m') : Later s m' :=
  ⟨h.moves.trans h', Nat.lt_of_lt_of_le h.consumed (consumed_le h')⟩

theorem of_moves (h : Moves s m) (h' : Later m m') : Later s m' :=
  ⟨h.trans h'.moves, Nat.lt_of_le_of_lt (consumed_le h) h'.consumed⟩

theorem advance (h : Moves s m) (hk : m.current.kind ≠ .eof) : Later s m.advance := by
  refine ⟨.advance h, ?_⟩
  rw [consumed_advance hk]
  exact Nat.lt_succ_of_le (consumed_le h)

/-- The first token is consumed. -/
theorem first (hk : s.current.kind ≠ .eof) (h : Moves s.advance m) : Later s m :=
  (advance (.refl s) hk).trans h

theorem marker {kind : Token.Kind} (hk : s.current.kind ≠ .eof) (hm : s.advance.skip kind = m) :
    Later s m := hm ▸ first hk (.skip kind (.refl s.advance))

end Later

end Scriptlet.Parser

namespace Scriptlet.Grammar

open Scriptlet.Parser

/-- Are the tokens that the task looks for, between operands and behind items, tokens of
the language? -/
def Task.Regular : Task → Prop
  | .chain joint _ _ _ => joint ≠ .eof ∧ joint ≠ .error
  | .items closing _ _ _ => closing ≠ .error
  | _ => True

/-- What a task may yield that consumes nothing: a rule only an error, at a token that no operand
starts with, and the rest of a chain only what was read before. -/
def Idle (s : State) : Task → Yield → Prop
  | .rule _, y => ∃ n, y = .node n ∧ n.isError = true ∧ s.current.kind ∉ operandKinds
  | .chain _ _ _ left, y => y = .node left
  | .applications n, y => y = .node n
  | _, _ => True

theorem Leaf.kind_ne {t : Token} {n : Node} (h : Leaf t n) :
    t.kind ≠ .eof ∧ t.kind ≠ .error := by
  cases h <;> simp [*]

theorem Refused.kind_ne {t : Token} {f : SyntaxFault} (h : Refused t f) :
    t.kind ≠ .eof ∧ t.kind ≠ .error := by
  cases h <;> simp [*]

theorem RightLevel.kind_ne {rule tighter : Rule} {op? : Token.Kind → Option BinaryOp}
    {k : Token.Kind} {op : BinaryOp} (h : RightLevel rule op? tighter) (hop : op? k = some op) :
    k ≠ .eof ∧ k ≠ .error := by
  constructor <;> rintro rfl <;> cases h <;> cases hop

theorem assignOp?_kind_ne {k : Token.Kind} {op : AssignOp} (h : assignOp? k = some op) :
    k ≠ .eof ∧ k ≠ .error := by
  constructor <;> rintro rfl <;> cases h

theorem prefixOp?_kind_ne {k : Token.Kind} {op : UnaryOp} (h : prefixOp? k = some op) :
    k ≠ .eof ∧ k ≠ .error := by
  constructor <;> rintro rfl <;> cases h

variable {room : Nat} {task : Task} {s m s' : State} {y : Yield}

theorem Reads.isError_of_items {closing : Token.Kind} {glyph : String} {read : List Node}
    {comma : Bool} {e : Node} (h : Reads room (.items closing glyph read comma) s (.node e) s') :
    e.isError = true := by
  generalize htask : Task.items closing glyph read comma = task at h
  generalize hy : Yield.node e = y at h
  induction h generalizing read comma with
  | badItem _ _ he =>
    cases hy
    exact he
  | openItems =>
    cases hy
    rfl
  | item _ _ _ _ _ _ ih =>
    cases htask
    exact ih rfl hy
  | itemsEnd | lastItem => cases hy
  | _ => cases htask

/-- What is read behind the first token is read later. -/
theorem Reads.later (h : Reads room task s.advance y s') (hk : s.current.kind ≠ .eof) :
    Later s s' := .first hk (.of_reads h)

theorem Reads.idle_or_later (h : Reads room task s y s') (hregular : task.Regular) :
    Idle s task y ∨ Later s s' := by
  induction h with
  | bindingStatement _ _ ih | returnStatement _ _ ih | expressionStatement _ _ _ ih
  | expression _ ih | unassigning _ _ ih | chainless _ _ _ _ ih | unprefixed _ _ ih
  | unapplied _ _ ih | compound _ _ ih => exact ih trivial
  | missing hk => exact .inl ⟨_, rfl, rfl, hk⟩
  | chainEnd | applicationsEnd => exact .inl rfl
  | itemsEnd | badItem | item | lastItem | openItems | sequenceEnd | separator | terminated
  | trailing | recovered | unterminated | unseparated => exact .inl trivial
  -- A first token is consumed.
  | unnamed hk hm => exact .inr ((Later.marker (by simp [hk]) hm).trans (.expected _ (.refl _)))
  | unassigned hk hm =>
    exact .inr ((Later.marker (by simp [hk]) hm).trans (.expected _ (.advance (.refl _))))
  | binding hk hm _ _ hv =>
    have hvalue := Moves.of_advance (.of_advance (.of_reads hv))
    exact .inr ((Later.marker (by simp [hk]) hm).trans hvalue)
  | bareReturn hk | invalidToken hk => exact .inr (.first (by simp [hk]) (.refl _))
  | prefixed hop hn => exact .inr (hn.later (prefixOp?_kind_ne hop).1)
  | leaf hleaf => exact .inr (.first hleaf.kind_ne.1 (.refl _))
  | refused hrefused => exact .inr (.first hrefused.kind_ne.1 (.fault _ _ (.refl _)))
  | unit hk => exact .inr (.first (by simp [hk]) (.advance (.refl _)))
  | returnOf hk _ h | grouped hk _ h | tuple hk _ h | badGroup hk _ h | array hk h
  | badArray hk h | badCall hk h | badIndex hk h | badCondition hk h =>
    exact .inr (h.later (by simp [hk]))
  | openIndex hk h | openBlock hk h | noBlock hk h =>
    exact .inr ((h.later (by simp [hk])).trans (.expected _ (.refl _)))
  | block hk h => exact .inr ((h.later (by simp [hk])).trans (.advance (.refl _)))
  | badBlock hk hc _ _ ht | ifThen hk hc _ _ ht =>
    exact .inr ((hc.later (by simp [hk])).trans (.of_reads ht))
  | noBranch hk hc _ _ ht =>
    exact .inr ((hc.later (by simp [hk])).trans (.expected _ (.advance (.of_reads ht))))
  | badBranch hk hc _ _ ht _ _ _ he | ifThenElse hk hc _ _ ht _ _ _ he =>
    have hbranch := (Moves.of_reads ht).trans (.of_advance (.of_reads he))
    exact .inr ((hc.later (by simp [hk])).trans hbranch)
  | chainLink hk h hrest =>
    exact .inr ((h.later (hk ▸ hregular.1)).trans (.of_reads hrest))
  | call hk h hrest => exact .inr ((h.later (by simp [hk])).trans (.of_reads hrest))
  | index hk h _ _ hrest =>
    exact .inr ((h.later (by simp [hk])).trans (.of_advance (.of_reads hrest)))
  -- An operator is consumed.
  | assignment hl hop hr | assignmentToError hl hop hr =>
    exact .inr (.of_moves (.of_reads hl) (hr.later (assignOp?_kind_ne hop).1))
  | invalidTarget hl hop hr =>
    have hright := hr.later (assignOp?_kind_ne hop).1
    exact .inr (.of_moves (.of_reads hl) (hright.trans (.fault _ _ (.refl _))))
  | rightChain hlevel hl hop hr =>
    exact .inr (.of_moves (.of_reads hl) (hr.later (hlevel.kind_ne hop).1))
  | notMember hl hk _ hr =>
    have hright := Moves.of_advance (.of_reads hr)
    exact .inr (.of_moves (.of_reads hl) (.first (by simp [hk]) hright))
  | notAlone hl hk =>
    exact .inr (.of_moves (.of_reads hl) (.first (by simp [hk]) (.expected _ (.refl _))))
  -- What is read first consumes a token, or it is an error and all that there is.
  | disjunction hl hrest ihl ih | conjunction hl hrest ihl ih =>
    rcases ihl trivial with hidle | hlater
    · rcases ih ⟨by decide, by decide⟩ with rfl | hlater
      · exact .inl hidle
      · exact .inr (.of_moves (.of_reads hl) hlater)
    · exact .inr (hlater.trans (.of_reads hrest))
  | applied hn hends hrest ihn ih =>
    rcases ihn trivial with ⟨e, heq, herror, -⟩ | hlater
    · cases heq
      simp [endsOperand, herror] at hends
    · exact .inr (hlater.trans (.of_reads hrest))

theorem Reads.idle (h : Reads room task s y s') (hregular : task.Regular)
    (hs : s'.consumed = s.consumed) : Idle s task y := by
  apply (h.idle_or_later hregular).resolve_right
  rintro ⟨-, hless⟩
  omega

/-- A token is skipped only for the error that it caused. -/
theorem moveOn_of_reads {room : Nat} {r : Rule} {s m : State} {n : Node}
    (h : Reads room (.rule r) s (.node n) m) :
    moveOn s.consumed m = m ∨ (n.isError = true ∧ moveOn s.consumed m = m.advance) := by
  by_cases hs : m.consumed = s.consumed
  · obtain ⟨e, he, herror, -⟩ := h.idle trivial hs
    cases he
    exact .inr ⟨herror, if_pos hs⟩
  · exact .inl (if_neg hs)

/-- A statement that is no error consumes a token. -/
theorem moveOn_of_not_error {room : Nat} {r : Rule} {s m : State} {n : Node}
    (h : Reads room (.rule r) s (.node n) m) (hn : n.isError = false) :
    moveOn s.consumed m = m := by
  rcases moveOn_of_reads h with heq | ⟨herror, -⟩
  · exact heq
  · rw [hn] at herror
    cases herror

/-- The faults recorded so far, less the error tokens still to come: recording a fault
and consuming an error token each add one, and nothing else changes it. -/
def blemishes (s : State) : Int :=
  s.diagnostics.length - s.pending.countP (·.kind = .error)

theorem blemishes_advance (s : State) :
    blemishes s.advance = blemishes s + if s.current.kind = .error then 1 else 0 := by
  rw [blemishes, blemishes, diagnostics_advance, pending_advance]
  by_cases heof : s.current.kind = .eof
  · simp [State.pending, heof]
  · by_cases herror : s.current.kind = .error
    · simp [State.pending, herror]
      omega
    · simp [State.pending, heof, herror]

theorem blemishes_fault (s : State) (f : SyntaxFault) (p : Position) :
    blemishes (s.fault f p).2 = blemishes s + 1 := by
  have hpending : (s.fault f p).2.pending = s.pending := rfl
  have hlength : (s.fault f p).2.diagnostics.length = s.diagnostics.length + 1 :=
    List.length_append
  simp only [blemishes, hpending, hlength]
  omega

theorem blemishes_skip {kind : Token.Kind} (hk : kind ≠ .error) (s : State) :
    blemishes (s.skip kind) = blemishes s := by
  rw [State.skip]
  split
  · next h =>
    have hne : s.current.kind ≠ .error := h ▸ hk
    rw [blemishes_advance, if_neg hne, Int.add_zero]
  · rfl

theorem blemishes_le (h : Moves s s') : blemishes s ≤ blemishes s' := by
  induction h with
  | refl => exact Int.le_refl _
  | @advance m _ ih =>
    rw [blemishes_advance]
    split <;> omega
  | fault f p _ ih =>
    rw [blemishes_fault]
    omega

/-- The trees that a task starts from. -/
def Task.nodes : Task → List Node
  | .rule _ => []
  | .chain _ _ _ left => [left]
  | .applications n => [n]
  | .items _ _ read _ => read
  | .sequence _ read => read

/-- The trees that are given. -/
def Yield.nodes : Yield → List Node
  | .node n => [n]
  | .items read _ => read
  | .sequence read last => read ++ last.toList

section Nodes

variable {room : Nat} {r : Rule} {joint : Token.Kind} {op : BinaryOp} {glyph : String}
  {n : Node} {read : List Node} {comma : Bool} {last : Option Node}

@[simp] theorem Task.nodes_rule : (Task.rule r).nodes = [] := rfl

@[simp] theorem Task.nodes_chain : (Task.chain joint op r n).nodes = [n] := rfl

@[simp] theorem Task.nodes_applications : (Task.applications n).nodes = [n] := rfl

@[simp] theorem Task.nodes_items : (Task.items joint glyph read comma).nodes = read := rfl

@[simp] theorem Task.nodes_sequence : (Task.sequence joint read).nodes = read := rfl

@[simp] theorem Yield.nodes_node : (Yield.node n).nodes = [n] := rfl

@[simp] theorem Yield.nodes_items : (Yield.items read comma).nodes = read := rfl

@[simp] theorem Yield.nodes_sequence :
    (Yield.sequence read last).nodes = read ++ last.toList := rfl

end Nodes

open Node (containsErrors)

theorem containsErrors_binaryNode (op : BinaryOp) (l r : Node) :
    containsErrors [binaryNode op l r] = (containsErrors [l] || containsErrors [r]) := by
  rw [binaryNode, Node.containsErrors_make (by decide), Node.containsErrors_cons]
  rfl

theorem containsErrors_fault (s : State) (f : SyntaxFault) (p : Position) :
    containsErrors [(s.fault f p).1] = true := Node.containsErrors_ofError ..

theorem containsErrors_expected (s : State) (what : String) :
    containsErrors [(s.expected what).1] = true := Node.containsErrors_ofError ..

theorem containsErrors_elseBranch (p : Position) (cs es : List Node) :
    containsErrors [{ Node.make .conditional p .absent cs with elseBranch := es }] =
      (containsErrors cs || containsErrors es) := by
  rw [Node.containsErrors_singleton]
  simp [Node.isError, Node.make, Node.parts, Node.ofValue]

theorem containsErrors_isMutable (p : Position) (v : Datum Node) (cs : List Node) (b : Bool) :
    containsErrors [{ Node.make .binding p v cs with isMutable := b }] =
      (containsErrors (Node.ofValue v) || containsErrors cs) := by
  rw [Node.containsErrors_singleton]
  simp [Node.isError, Node.make, Node.parts]

theorem containsErrors_leaf {t : Token} {n : Node} (h : Leaf t n) :
    containsErrors [n] = false := by
  cases h <;> exact Node.containsErrors_make (by decide) ..

/-- There is a blemish on the way. -/
def Blemished (s s' : State) : Prop := blemishes s < blemishes s'

theorem not_blemished_refl (s : State) : ¬ Blemished s s := Int.lt_irrefl _

theorem blemished_trans (h : Moves s m) (h' : Moves m s') :
    Blemished s s' ↔ Blemished s m ∨ Blemished m s' := by
  have hle := blemishes_le h
  have hle' := blemishes_le h'
  unfold Blemished
  omega

theorem blemished_advance (hk : s.current.kind ≠ .error) :
    Blemished s.advance s' ↔ Blemished s s' := by
  rw [Blemished, blemishes_advance, if_neg hk, Int.add_zero, Blemished]

theorem blemished_of_error (hk : s.current.kind = .error) : Blemished s s.advance := by
  rw [Blemished, blemishes_advance, if_pos hk]
  omega

theorem blemished_fault {f : SyntaxFault} {p : Position} (h : Moves s m) :
    Blemished s (m.fault f p).2 := by
  have hle := blemishes_le h
  rw [Blemished, blemishes_fault]
  omega

theorem blemished_skip {kind : Token.Kind} (hk : kind ≠ .error) :
    Blemished (s.skip kind) s' ↔ Blemished s s' := by
  rw [Blemished, blemishes_skip hk, Blemished]

/-- A token that is no error token is consumed first. -/
theorem blemished_behind (hk : s.current.kind ≠ .error) (h : Moves s.advance m)
    (h' : Moves m s') : Blemished s s' ↔ Blemished s.advance m ∨ Blemished m s' := by
  rw [← blemished_advance hk, blemished_trans h h']

/-- A token that is no error token is consumed on the way. -/
theorem blemished_over (h : Moves s m) (hk : m.current.kind ≠ .error) (h' : Moves m.advance s') :
    Blemished s s' ↔ Blemished s m ∨ Blemished m.advance s' := by
  rw [blemished_trans h (.of_advance h'), blemished_advance hk]

theorem not_blemished_advance (hk : s.current.kind ≠ .error) : ¬ Blemished s s.advance := by
  rw [← blemished_advance hk]
  exact not_blemished_refl s.advance

theorem Blemished.within {m' : State} (h : Moves s m) (hb : Blemished m m') (h' : Moves m' s') :
    Blemished s s' :=
  Int.lt_of_le_of_lt (blemishes_le h) (Int.lt_of_lt_of_le hb (blemishes_le h'))

/-- An error token is skipped behind a statement only where the statement is an error. -/
theorem blemished_statement {r : Rule} {n : Node} (h : Reads room (.rule r) s (.node n) m)
    (hn : containsErrors [n] = true ↔ Blemished s m) (h' : Moves (moveOn s.consumed m) s') :
    Blemished s s' ↔ containsErrors [n] = true ∨ Blemished (moveOn s.consumed m) s' := by
  rcases moveOn_of_reads h with heq | ⟨herror, -⟩
  · rw [heq] at h' ⊢
    rw [hn, blemished_trans (.of_reads h) h']
  · have herrors := Node.containsErrors_of_isError herror
    exact iff_of_true (.within (.refl s) (hn.mp herrors) h'.of_moveOn) (.inl herrors)

/-- A rule starts from no tree. -/
theorem errors_iff_of_rule {r : Rule} {n : Node} {blemished : Prop}
    (h : (Task.rule r).Regular → (containsErrors (Yield.node n).nodes = true ↔
      containsErrors (Task.rule r).nodes = true ∨ blemished)) :
    containsErrors [n] = true ↔ blemished := by
  simpa using h trivial

/-- What is read holds an error node that was not there before exactly when there was a
blemish on the way. -/
theorem Reads.errors_iff (h : Reads room task s y s') (hregular : task.Regular) :
    containsErrors y.nodes = true ↔ containsErrors task.nodes = true ∨ Blemished s s' := by
  induction h with
  | bindingStatement _ _ ih | returnStatement _ _ ih | expressionStatement _ _ _ ih
  | expression _ ih | unassigning _ _ ih | chainless _ _ _ _ ih | unprefixed _ _ ih
  | unapplied _ _ ih | compound _ _ ih => exact ih trivial
  -- A fault is recorded and is all that there is.
  | unnamed _ hm =>
    exact iff_of_true (containsErrors_expected ..) (.inr (blemished_fault (.marker hm)))
  | unassigned _ hm =>
    exact iff_of_true (containsErrors_expected ..) (.inr (blemished_fault (.advance (.marker hm))))
  | invalidTarget hl _ hr =>
    have hmoves := (Moves.of_reads hl).trans (.of_advance (.of_reads hr))
    exact iff_of_true (containsErrors_fault ..) (.inr (blemished_fault hmoves))
  | notAlone hl =>
    have hmoves := Moves.advance (.of_reads hl)
    exact iff_of_true (containsErrors_expected ..) (.inr (blemished_fault hmoves))
  | openIndex _ hr | openBlock _ hr | noBlock _ hr =>
    have hmoves := Moves.of_advance (.of_reads hr)
    exact iff_of_true (containsErrors_expected ..) (.inr (blemished_fault hmoves))
  | noBranch _ hc _ _ ht =>
    have hmoves := (Moves.of_advance (.of_reads hc)).trans (.of_reads ht)
    exact iff_of_true (containsErrors_expected ..) (.inr (blemished_fault (.advance hmoves)))
  | openItems _ hn =>
    exact iff_of_true (containsErrors_expected ..) (.inr (blemished_fault (.of_reads hn)))
  | refused =>
    exact iff_of_true (containsErrors_fault ..) (.inr (blemished_fault (.advance (.refl _))))
  | missing => exact iff_of_true (containsErrors_expected ..) (.inr (blemished_fault (.refl _)))
  | invalidToken hk =>
    exact iff_of_true (Node.containsErrors_ofError ..) (.inr (blemished_of_error hk))
  -- An error that was read is all that there is.
  | assignmentToError _ _ hr he ih =>
    have herrors := Node.containsErrors_of_isError he
    have hblemished := ((ih trivial).mp herrors).resolve_left nofun
    exact iff_of_true herrors (.inr (hblemished.within (.refl _) (.of_advance (.of_reads hr))))
  | badIndex _ _ he ih | badCondition _ _ he ih =>
    have herrors := Node.containsErrors_of_isError he
    have hblemished := ((ih trivial).mp herrors).resolve_left nofun
    exact iff_of_true herrors (.inr (hblemished.within (.advance (.refl _)) (.refl _)))
  | badCall _ hitems ih | badGroup _ _ hitems ih | badArray _ hitems ih =>
    have herrors := Node.containsErrors_of_isError hitems.isError_of_items
    have hblemished := ((ih nofun).mp herrors).resolve_left nofun
    exact iff_of_true herrors (.inr (hblemished.within (.advance (.refl _)) (.refl _)))
  | badBlock _ hc _ _ _ ht _ iht =>
    have herrors := Node.containsErrors_of_isError ht
    have hblemished := ((iht trivial).mp herrors).resolve_left nofun
    exact iff_of_true herrors (.inr (hblemished.within (.of_advance (.of_reads hc)) (.refl _)))
  | badBranch _ hc _ _ ht _ _ _ _ he _ _ ihe =>
    have herrors := Node.containsErrors_of_isError he
    have hblemished := ((ihe trivial).mp herrors).resolve_left nofun
    have hmoves := (Moves.of_advance (.of_reads hc)).trans (.of_reads ht)
    exact iff_of_true herrors (.inr (hblemished.within (.advance hmoves) (.refl _)))
  | badItem _ _ he ih =>
    have herrors := Node.containsErrors_of_isError he
    exact iff_of_true herrors (.inr (((ih trivial).mp herrors).resolve_left nofun))
  -- A tree is put together from single tokens.
  | @bareReturn _ s hk =>
    have hclean : ¬ Blemished s s.advance := not_blemished_advance (by simp [hk])
    simp [Node.containsErrors_make, Node.ofValue, hclean]
  | leaf hleaf =>
    have hclean := not_blemished_advance hleaf.kind_ne.2
    simp [containsErrors_leaf hleaf, hclean]
  | @unit _ s hopen hclose =>
    have hclean : ¬ Blemished s s.advance.advance := by
      rw [← blemished_advance (by simp [hopen])]
      exact not_blemished_advance (by simp [hclose])
    simp [Node.containsErrors_make, Node.ofValue, hclean]
  | chainEnd | applicationsEnd | sequenceEnd => simp [not_blemished_refl]
  | itemsEnd hk =>
    have hclean := not_blemished_advance (hk ▸ hregular)
    simp [hclean]
  -- A tree is put together from what is read behind a first token.
  | @binding _ s m v s' hk hm hname hassign _ ih =>
    have hstart : Blemished m.advance.advance s' ↔ Blemished s s' := by
      rw [blemished_advance (by simp [hassign]), blemished_advance (by simp [hname]), ← hm,
        blemished_skip (by decide), blemished_advance (by simp [hk])]
    simpa [containsErrors_isMutable, Node.ofValue, hstart] using ih trivial
  | returnOf hk _ _ ih =>
    rw [← blemished_advance (by simp [hk])]
    simpa [Node.containsErrors_make, Node.ofValue] using ih trivial
  | prefixed hop _ ih =>
    rw [← blemished_advance (prefixOp?_kind_ne hop).2]
    simpa [Node.containsErrors_make, Node.ofValue] using ih trivial
  | grouped hk _ _ ih =>
    rw [← blemished_advance (by simp [hk])]
    exact ih nofun
  | tuple hk _ _ _ ih | array hk _ ih =>
    rw [← blemished_advance (by simp [hk])]
    simpa [Node.containsErrors_make, Node.ofValue] using ih nofun
  | @block _ s read last m hopen hstatements hclose ih =>
    have hclean : ¬ Blemished m m.advance := not_blemished_advance (by simp [hclose])
    rw [blemished_behind (by simp [hopen]) (.of_reads hstatements) (.advance (.refl _))]
    simpa [Node.containsErrors_make, Node.ofValue_last, hclean, or_comm] using ih trivial
  | ifThen hk hc _ _ ht _ _ ihc iht =>
    rw [blemished_behind (by simp [hk]) (.of_reads hc) (.of_reads ht)]
    simpa [Node.containsErrors_make, Node.ofValue, Node.containsErrors_cons _ [_]]
      using or_congr (ihc trivial) (iht trivial)
  | ifThenElse hk hc _ _ ht _ helse _ he _ ihc iht ihe =>
    have hbranch := (Moves.of_reads ht).trans (.of_advance (.of_reads he))
    rw [blemished_behind (by simp [hk]) (.of_reads hc) hbranch,
      blemished_over (.of_reads ht) (by simp [helse]) (.of_reads he)]
    simpa [containsErrors_elseBranch, Node.containsErrors_cons _ [_], or_assoc]
      using or_congr (ihc trivial) (or_congr (iht trivial) (ihe trivial))
  -- A tree is put together from two operands.
  | assignment hl hop hr _ _ ihl ihr =>
    rw [blemished_over (.of_reads hl) (assignOp?_kind_ne hop).2 (.of_reads hr)]
    simpa [Node.containsErrors_make, Node.ofValue, Node.containsErrors_cons _ [_]]
      using or_congr (ihl trivial) (ihr trivial)
  | rightChain hlevel hl hop hr ihl ihr =>
    rw [blemished_over (.of_reads hl) (hlevel.kind_ne hop).2 (.of_reads hr)]
    simpa [containsErrors_binaryNode] using or_congr (ihl trivial) (ihr trivial)
  | @notMember _ s l m r s' hl hnot hin hr ihl ihr =>
    have hright : Blemished m.advance.advance s' ↔ Blemished m.advance s' :=
      blemished_advance (by simp [hin])
    rw [blemished_over (.of_reads hl) (by simp [hnot]) (.of_advance (.of_reads hr)), ← hright]
    simpa [containsErrors_binaryNode] using or_congr (ihl trivial) (ihr trivial)
  -- What is read next starts from what was read first.
  | disjunction hl hrest ihl ih | conjunction hl hrest ihl ih =>
    rw [blemished_trans (.of_reads hl) (.of_reads hrest)]
    simpa [errors_iff_of_rule ihl, or_assoc] using ih ⟨by decide, by decide⟩
  | applied hl _ hrest ihl ih =>
    rw [blemished_trans (.of_reads hl) (.of_reads hrest)]
    simpa [errors_iff_of_rule ihl, or_assoc] using ih trivial
  | chainLink hk hr hrest ihr ih =>
    rw [blemished_behind (hk ▸ hregular.2) (.of_reads hr) (.of_reads hrest)]
    simpa [containsErrors_binaryNode, errors_iff_of_rule ihr, or_assoc] using ih hregular
  | @call _ n s read _ m _ _ hk hitems hrest ihitems ih =>
    rw [blemished_behind (by simp [hk]) (.of_reads hitems) (.of_reads hrest)]
    have hread : containsErrors read = true ↔ Blemished s.advance m := by
      simpa using ihitems nofun
    simpa [Node.containsErrors_make, Node.ofValue, hread, or_assoc] using ih trivial
  | index hk hi _ hclose hrest ihi ih =>
    rw [← blemished_advance (by simp [hk]),
      blemished_over (.of_reads hi) (by simp [hclose]) (.of_reads hrest)]
    simpa [Node.containsErrors_make, Node.ofValue, Node.containsErrors_cons _ [_],
      errors_iff_of_rule ihi, or_assoc] using ih trivial
  | item _ hn _ hcomma hrest ihn ih =>
    rw [blemished_over (.of_reads hn) (by simp [hcomma]) (.of_reads hrest)]
    simpa [errors_iff_of_rule ihn, or_assoc] using ih hregular
  | @lastItem _ _ _ _ _ s n m _ hn _ _ hclose ihn =>
    have hclean : ¬ Blemished m m.advance := not_blemished_advance (hclose ▸ hregular)
    rw [blemished_trans (.of_reads hn) (.advance (.refl _))]
    simp [errors_iff_of_rule ihn, hclean]
  -- Statements, each behind what was read before
  | separator _ hk _ ih =>
    rw [← blemished_advance (by simp [hk])]
    exact ih trivial
  | terminated _ _ hn hsemicolon hrest ihn ih =>
    rw [blemished_statement hn (errors_iff_of_rule ihn) (.of_advance (.of_reads hrest)),
      ← blemished_advance (by simp [hsemicolon])]
    simpa [or_assoc] using ih trivial
  | trailing _ _ hn _ _ ihn =>
    rw [blemished_statement hn (errors_iff_of_rule ihn) (.refl _)]
    simp [not_blemished_refl]
  | recovered _ _ hn _ _ he hrest ihn ih =>
    have herrors := Node.containsErrors_of_isError he
    have hmoves := Moves.of_synchronize (.of_reads hrest)
    have hblemished := (blemished_statement hn (errors_iff_of_rule ihn) hmoves).mpr (.inl herrors)
    simpa [herrors, hblemished] using ih trivial
  | unterminated _ _ hn _ _ _ _ hrest ihn ih =>
    rw [blemished_statement hn (errors_iff_of_rule ihn) (.of_reads hrest)]
    simpa [or_assoc] using ih trivial
  | @unseparated _ _ _ s n m _ s' _ _ hn _ _ _ _ hrest ihn ih =>
    have hfault : Blemished s ((moveOn s.consumed m).expected "`;`").2 :=
      blemished_fault (.moveOn _ (.of_reads hn))
    have hblemished := hfault.within (.refl _) (.of_reads hrest)
    simpa [hblemished, containsErrors_expected, Node.containsErrors_cons _ [_]] using ih trivial

/-- An error is read only where there is a blemish. -/
theorem Reads.blemished {r : Rule} {n : Node} (h : Reads room (.rule r) s (.node n) s')
    (he : n.isError = true) : Blemished s s' :=
  ((h.errors_iff trivial).mp (Node.containsErrors_of_isError he)).resolve_left nofun

/-- A list of items is broken off only where there is a blemish. -/
theorem Reads.blemished_of_items {closing : Token.Kind} {glyph : String} {e : Node}
    (h : Reads room (.items closing glyph [] false) s (.node e) s') (hclosing : closing ≠ .error) :
    Blemished s s' :=
  ((h.errors_iff hclosing).mp (Node.containsErrors_of_isError h.isError_of_items)).resolve_left
    nofun

end Scriptlet.Grammar
