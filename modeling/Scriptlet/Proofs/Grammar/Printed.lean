import Scriptlet.Proofs.Grammar.Consumed

/-!
# Printed programs are read again

In front of the words of a term, a parser with enough room reads the tree of the term, up
to positions. The proof follows the terms; whatever is a part of an expression stands in
parentheses, which make it an operand. Where the text of a program fits into the room that
there is, its reading is the one that is found here.
-/

namespace Scriptlet

open Scriptlet.Parser

/-- The level that an operator belongs to. -/
def BinaryOp.level : BinaryOp → Nat
  | .arithmetic .mul | .arithmetic .div => 3
  | .arithmetic .add | .arithmetic .sub => 4
  | .equal | .notEqual | .member | .notMember => 5
  | .and => 6
  | .or => 7

theorem BinaryOp.level_range (op : BinaryOp) : 3 ≤ op.level ∧ op.level ≤ 7 := by
  rcases op with op | _
  · cases op <;> decide
  all_goals decide

namespace Term

open Grammar

/-- What may stand behind a term. -/
def Place.ends : Place → List Token.Kind
  | .statement => [.semicolon, .rightBrace]
  | .operand => [.semicolon, .rightBrace, .rightParen]

/-- The rule for terms of the same form. -/
def form : Term → Rule
  | integer .. | float .. | string .. | bool .. | unit _ | identifier .. => .operand
  | tuple .. | array .. => .operand
  | call .. | index .. => .applied
  | unary .. => .prefixed
  | binary _ op _ _ => level op.level
  | assign .. => .assignment
  | block .. => .block
  | conditional .. => .conditional
  | binding .. => .binding
  | giveBack .. => .giveBack

/-- The kind of the first word. -/
def first : Term → Token.Kind
  | integer .. => .integer
  | float .. => .float
  | string .. => .string
  | bool _ b => if b then .kwTrue else .kwFalse
  | identifier .. | assign .. => .identifier
  | unit _ | tuple .. | call .. | index .. | binary .. => .leftParen
  | array .. => .leftBracket
  | unary _ op _ => op.sign
  | block .. => .leftBrace
  | conditional .. => .kwIf
  | binding .. => .kwLet
  | giveBack .. => .kwReturn

end Term

namespace Grammar

variable {s m s' : State} {t : Term} {n : Node}

theorem first_of_consumes (h : Consumes s t.words s') : s.current.kind = t.first := by
  cases t
  case giveBack p a =>
    cases a <;> exact congrArg Word.kind h.1
  all_goals exact congrArg Word.kind h.1

/-- No term starts like the end of another one. -/
theorem not_mem_first (t : Term) : t.first ∉ [.eof, .semicolon, .rightBrace, .rightParen] := by
  cases t with
  | bool p b => cases b <;> simp [Term.first]
  | unary p op a => cases op <;> simp [Term.first, UnaryOp.sign]
  | _ => simp [Term.first]

/-- A term gives something back, or is a binding, or else it starts like no statement, and
is opened as an operand by its first token or read at a level of expressions. -/
theorem form_cases (t : Term) :
    (t.form = .giveBack ∧ t.first = .kwReturn) ∨ (t.form = .binding ∧ t.first = .kwLet) ∨
      (t.first ≠ .kwLet ∧ t.first ≠ .kwReturn ∧ (opened? t.first = some t.form ∨
        ∃ i ≤ 8, t.form = level i ∧ (i ≤ 1 → prefixOp? t.first = none))) := by
  cases t with
  | giveBack => exact .inl ⟨rfl, rfl⟩
  | binding => exact .inr (.inl ⟨rfl, rfl⟩)
  | block => exact .inr (.inr ⟨nofun, nofun, .inl rfl⟩)
  | conditional => exact .inr (.inr ⟨nofun, nofun, .inl rfl⟩)
  | call => exact .inr (.inr ⟨nofun, nofun, .inr ⟨1, by decide, rfl, fun _ => rfl⟩⟩)
  | index => exact .inr (.inr ⟨nofun, nofun, .inr ⟨1, by decide, rfl, fun _ => rfl⟩⟩)
  | unary p op a =>
    cases op <;> exact .inr (.inr ⟨nofun, nofun, .inr ⟨2, by decide, rfl, by omega⟩⟩)
  | binary p op a b =>
    have hrange := op.level_range
    exact .inr (.inr ⟨nofun, nofun, .inr ⟨op.level, by omega, rfl, by omega⟩⟩)
  | assign => exact .inr (.inr ⟨nofun, nofun, .inr ⟨8, by decide, rfl, by omega⟩⟩)
  | bool p b =>
    cases b <;> exact .inr (.inr ⟨nofun, nofun, .inr ⟨0, by decide, rfl, fun _ => rfl⟩⟩)
  | _ => exact .inr (.inr ⟨nofun, nofun, .inr ⟨0, by decide, rfl, fun _ => rfl⟩⟩)

theorem eq_giveBack_of_form (h : t.form = .giveBack) : ∃ p value, t = .giveBack p value := by
  have hlevel (i : Nat) : level i ≠ .giveBack := by
    unfold level
    split <;> nofun
  cases t with
  | giveBack p value => exact ⟨p, value, rfl⟩
  | binary p op a b => exact absurd h (hlevel op.level)
  | _ => cases h

/-- A term is an expression where no operator goes on with it. -/
theorem Gets.expression (h : Gets t.form s n s') (hfirst : s.current.kind = t.first)
    (hform : t.form ≠ .giveBack) (hjoin : joinLevel s'.current.kind = 10) :
    Gets .expression s n s' := by
  rcases form_cases t with ⟨hgive, -⟩ | ⟨hbinding, hlet⟩ | ⟨-, -, hopened | ⟨i, hi, hlevel, hsign⟩⟩
  · exact absurd hgive hform
  · rw [hbinding] at h
    exact h.opened_expression (hfirst.trans hlet) rfl hjoin
  · exact h.opened_expression hfirst hopened hjoin
  · rw [hlevel] at h
    exact h.climb (Nat.le_succ_of_le hi) (Nat.le_refl 9) (fun hle => hfirst ▸ hsign hle)
      (by omega)

theorem Gets.statement (h : Gets t.form s n s') (hfirst : s.current.kind = t.first)
    (hjoin : joinLevel s'.current.kind = 10) : Gets .statement s n s' := by
  rcases form_cases t with ⟨hform, hk⟩ | ⟨hform, hk⟩ | ⟨hlet, hreturn, -⟩
  · rw [hform] at h
    obtain ⟨room, h⟩ := h
    exact ⟨room + 1, .returnStatement (hfirst.trans hk) h⟩
  · rw [hform] at h
    obtain ⟨room, h⟩ := h
    exact ⟨room + 1, .bindingStatement (hfirst.trans hk) h⟩
  · have hform : t.form ≠ .giveBack := by
      intro hgive
      obtain ⟨p, value, rfl⟩ := eq_giveBack_of_form hgive
      exact hreturn rfl
    obtain ⟨room, h⟩ := h.expression hfirst hform hjoin
    exact ⟨room + 1, .expressionStatement (hfirst ▸ hlet) (hfirst ▸ hreturn) h⟩

/-- The tree of the term is read in front of its words. A block ends with its brace,
whatever stands behind it. -/
def Readable (t : Term) : Prop :=
  ∀ place s s', t.printable place = true → Consumes s t.words s' →
    (t.isBlock = true ∨ s'.current.kind ∈ place.ends) → ∃ n, Gets t.form s n s' ∧ n.IsTreeOf t

theorem joinLevel_of_ends {place : Term.Place} {k : Token.Kind} (h : k ∈ place.ends) :
    joinLevel k = 10 := by
  cases place <;> simp only [Term.Place.ends, List.mem_cons, List.not_mem_nil, or_false] at h
  · rcases h with rfl | rfl <;> rfl
  · rcases h with rfl | rfl | rfl <;> rfl

theorem form_of_operand (h : t.printable .operand = true) : t.form ≠ .giveBack := by
  intro hform
  obtain ⟨p, value, rfl⟩ := eq_giveBack_of_form hform
  simp [Term.printable] at h

/-- In parentheses a term is an operand. -/
theorem Readable.grouped (h : Readable t) (hprint : t.printable .operand = true)
    (hwords : Consumes s (Word.grouped t.words) s') :
    ∃ n, Gets .operand s n s' ∧ n.IsTreeOf t ∧ s.current.kind = .leftParen := by
  obtain ⟨hopen, m, hinner, hclose, rfl⟩ := consumes_enclosed.mp hwords
  have hk : m.current.kind = .rightParen := kind_of_word hclose
  have hfirst := first_of_consumes hinner
  obtain ⟨n, hn, htree⟩ := h .operand _ m hprint hinner (.inr (by rw [hk]; decide))
  obtain ⟨room, hn⟩ := hn.expression hfirst (form_of_operand hprint) (by rw [hk]; rfl)
  have hne : s.advance.current.kind ≠ .rightParen :=
    fun heq => not_mem_first t (by rw [← hfirst, heq]; decide)
  have hitems : Reads room (.items .rightParen "`)`" [] false) s.advance (.items [n] false)
      m.advance :=
    .lastItem hne hn htree.isError (by simp [hk]) hk
  have hgroup : Gets .group s n m.advance :=
    ⟨room + 1 + 1, .grouped (kind_of_word hopen) hne hitems⟩
  exact ⟨n, hgroup.opened (kind_of_word hopen) rfl, htree, kind_of_word hopen⟩

/-- In parentheses it is read at each level that the token behind it does not go on with. -/
theorem Readable.grouped_at {j : Nat} (h : Readable t) (hprint : t.printable .operand = true)
    (hwords : Consumes s (Word.grouped t.words) s') (hj : j ≤ 9)
    (hjoin : j < joinLevel s'.current.kind) :
    ∃ n, Gets (level j) s n s' ∧ n.IsTreeOf t := by
  obtain ⟨n, hn, htree, hopen⟩ := h.grouped hprint hwords
  have hoperand : Gets (level 0) s n s' := hn
  exact ⟨n, hoperand.climb (Nat.zero_le j) hj (fun _ => by rw [hopen]; rfl) hjoin, htree⟩

section Leaves

variable {p : Position}

theorem readable_integer (k : { k : Int // Value.inRange k = true }) :
    Readable (.integer p k) := by
  intro place s s' hprint ⟨hword, hs'⟩ _
  subst hs'
  have hvalue : ((k.1.toNat : Nat) : Int) = k.1 := Int.toNat_of_nonneg (of_decide_eq_true hprint)
  have hle : k.1 ≤ Value.greatestInteger := by
    have hrange := k.2
    simp only [Value.inRange, Bool.and_eq_true, decide_eq_true_eq] at hrange
    exact hrange.2
  have hleaf := leaf_integer hword (by omega)
  rw [hvalue] at hleaf
  exact ⟨_, .leaf hleaf, rfl⟩

theorem readable_string (text : String) : Readable (.string p text) := by
  intro place s s' _ ⟨hword, hs'⟩ _
  subst hs'
  exact ⟨_, .leaf (leaf_string hword), rfl⟩

theorem readable_bool (b : Bool) : Readable (.bool p b) := by
  intro place s s' _ ⟨hword, hs'⟩ _
  subst hs'
  exact ⟨_, .leaf (leaf_bool hword), rfl⟩

theorem readable_identifier (name : String) : Readable (.identifier p name) := by
  intro place s s' _ ⟨hword, hs'⟩ _
  subst hs'
  exact ⟨_, .leaf (leaf_name hword), rfl⟩

theorem readable_unit : Readable (.unit p) := by
  intro place s s' _ hwords _
  obtain ⟨hgroup, hopen⟩ := gets_unit hwords
  exact ⟨_, hgroup.opened hopen rfl, rfl⟩

end Leaves

section Operators

variable {p : Position} {a b : Term}

theorem readable_unary (op : UnaryOp) (ha : Readable a) : Readable (.unary p op a) := by
  intro place s s' hprint ⟨hword, hwords⟩ hends
  have hjoin := joinLevel_of_ends (hends.resolve_left nofun)
  have hop : prefixOp? s.current.kind = some op := by
    rw [kind_of_word hword]
    cases op <;> rfl
  obtain ⟨n, ⟨room, hn⟩, htree⟩ := ha.grouped_at (j := 2) hprint hwords (by decide) (by omega)
  refine ⟨_, ⟨room + 1, .prefixed hop hn⟩, ?_⟩
  simp [Node.IsTreeOf, Term.toNode, Node.unplacedValue, htree.eq]

theorem joinLevel_joint (op : BinaryOp) :
    ∃ k rest, op.joint = k :: rest ∧ joinLevel k = op.level := by
  rcases op with op | _
  · cases op <;> exact ⟨_, _, rfl, rfl⟩
  all_goals exact ⟨_, _, rfl, rfl⟩

/-- An operator of one word whose chains associate to the right. -/
theorem Gets.rightLink {rule tighter : Rule} {op? : Token.Kind → Option BinaryOp}
    {op : BinaryOp} {k : Token.Kind} {l r : Node} {q : State}
    (hlevel : RightLevel rule op? tighter) (hop : op? k = some op)
    (hjoint : Consumes m [.fixed k] q) (hl : Gets tighter s l m) (hr : Gets rule q r s') :
    Gets rule s (binaryNode op l r) s' := by
  obtain ⟨hword, rfl⟩ := hjoint
  obtain ⟨room, hl, hr⟩ := hl.both hr
  exact ⟨room + 1, .rightChain hlevel hl (by rwa [kind_of_word hword]) hr⟩

/-- Two operands with the joint of the operator between them. -/
theorem Gets.binary {op : BinaryOp} {l r : Node} {q : State}
    (hl : Gets (level (op.level - 1)) s l m) (hjoint : Consumes m (op.joint.map .fixed) q)
    (hr : ∀ j ≤ op.level, Gets (level j) q r s') (hjoin : joinLevel s'.current.kind = 10) :
    Gets (level op.level) s (binaryNode op l r) s' := by
  -- Chains to the right go on at the level of the operator, chains to the left below it.
  have hsame := hr op.level (Nat.le_refl _)
  have htighter := hr (op.level - 1) (Nat.sub_le ..)
  obtain ⟨-, -, -, -, hand, hor, -⟩ := joinLevel_facts s'.current.kind
  cases op with
  | arithmetic op =>
    cases op with
    | add => exact .rightLink .sum rfl hjoint hl hsame
    | sub => exact .rightLink .sum rfl hjoint hl hsame
    | mul => exact .rightLink .product rfl hjoint hl hsame
    | div => exact .rightLink .product rfl hjoint hl hsame
  | equal => exact .rightLink .equality rfl hjoint hl hsame
  | notEqual => exact .rightLink .equality rfl hjoint hl hsame
  | member => exact .rightLink .equality rfl hjoint hl hsame
  | notMember =>
    obtain ⟨hnot, hin, rfl⟩ := hjoint
    obtain ⟨room, hl, hr⟩ := hl.both hsame
    exact ⟨room + 1, .notMember hl (kind_of_word hnot) (kind_of_word hin) hr⟩
  | and =>
    obtain ⟨hword, rfl⟩ := hjoint
    obtain ⟨room, hl, hr⟩ := hl.both htighter
    exact ⟨room + 1, .conjunction hl
      (.chainLink (kind_of_word hword) hr (.chainEnd (hand (by omega))))⟩
  | or =>
    obtain ⟨hword, rfl⟩ := hjoint
    obtain ⟨room, hl, hr⟩ := hl.both htighter
    exact ⟨room + 1, .disjunction hl
      (.chainLink (kind_of_word hword) hr (.chainEnd (hor (by omega))))⟩

theorem readable_binary (op : BinaryOp) (ha : Readable a) (hb : Readable b) :
    Readable (.binary p op a b) := by
  intro place s s' hprint hwords hends
  have hjoin := joinLevel_of_ends (hends.resolve_left nofun)
  simp only [Term.printable, Bool.and_eq_true] at hprint
  obtain ⟨q, hfront, hright⟩ := consumes_append.mp hwords
  obtain ⟨m, hleft, hjoint⟩ := consumes_append.mp hfront
  obtain ⟨k, rest, hk, hlevel⟩ := joinLevel_joint op
  have hrange := op.level_range
  have hm : m.current.kind = k := by
    rw [hk] at hjoint
    exact kind_of_word hjoint.1
  -- The joint stops the left operand right below its own level.
  obtain ⟨l, hl, hltree⟩ := ha.grouped_at (j := op.level - 1) hprint.1 hleft (by omega)
    (by rw [hm]; omega)
  obtain ⟨r, hr, hrtree, hopen⟩ := hb.grouped hprint.2 hright
  have hoperand : Gets (level 0) q r s' := hr
  refine ⟨binaryNode op l r, hl.binary hjoint (fun j hj => ?_) hjoin, ?_⟩
  · exact hoperand.climb (Nat.zero_le j) (by omega) (fun _ => by rw [hopen]; rfl) (by omega)
  · simp [Node.IsTreeOf, Term.toNode, binaryNode, Node.unplacedValue, hltree.eq, hrtree.eq]

theorem readable_assign (op : AssignOp) (name : String) (ha : Readable a) :
    Readable (.assign p op name a) := by
  intro place s s' hprint ⟨hname, hsign, hwords⟩ hends
  have hjoin := joinLevel_of_ends (hends.resolve_left nofun)
  simp only [Term.printable, Bool.and_eq_true] at hprint
  have hop : assignOp? s.advance.current.kind = some op ∧
      joinLevel s.advance.current.kind = 8 := by
    rw [kind_of_word hsign]
    rcases op with _ | op
    · exact ⟨rfl, rfl⟩
    · cases op <;> exact ⟨rfl, rfl⟩
  have hleaf : Gets (level 0) s (.make .identifier s.current.position (.text name) []) s.advance :=
    .leaf (leaf_name hname)
  have hidentifier : s.current.kind = .identifier := kind_of_word hname
  have hl := hleaf.climb (j := 7) (by decide) (by decide) (fun _ => by rw [hidentifier]; rfl)
    (by omega)
  obtain ⟨n, hn, htree⟩ := ha.grouped_at (j := 8) hprint.2 hwords (by decide) (by omega)
  obtain ⟨room, hl, hn⟩ := hl.both hn
  refine ⟨_, ⟨room + 1, .assignment hl hop.1 hn rfl rfl⟩, ?_⟩
  simp [Node.IsTreeOf, Term.toNode, Node.unplacedValue, Term.nameNode, htree.eq]

end Operators

section Statements

variable {p : Position} {a : Term}

theorem readable_binding (isMutable : Bool) (name : String) (ha : Readable a) :
    Readable (.binding p isMutable name a) := by
  intro place s s' hprint hwords hends
  have hjoin := joinLevel_of_ends (hends.resolve_left nofun)
  simp only [Term.printable, Bool.and_eq_true] at hprint
  obtain ⟨m, ⟨hlet, hmarker⟩, hname, hassign, hvalue⟩ := consumes_append.mp hwords
  obtain ⟨n, ⟨room, hn⟩, htree⟩ := ha.grouped_at (j := 9) hprint.2 hvalue (by decide) (by omega)
  have hlexeme : m.current.lexeme = name := String.toList_inj.mp (congrArg Word.lexeme hname)
  -- Whether there is a marker, the name is the token behind it.
  have hskip : s.advance.skip .kwMut = m ∧
      decide (s.advance.current.kind = .kwMut) = isMutable := by
    rw [State.skip]
    cases isMutable with
    | false =>
      have hm : m = s.advance := hmarker
      have hk : m.current.kind = .identifier := kind_of_word hname
      rw [← hm, hk]
      exact ⟨rfl, rfl⟩
    | true =>
      have hk : s.advance.current.kind = .kwMut := kind_of_word hmarker.1
      rw [if_pos hk, hk]
      exact ⟨hmarker.2.symm, rfl⟩
  refine ⟨_, ⟨room + 1, .binding (kind_of_word hlet) hskip.1 (kind_of_word hname)
    (kind_of_word hassign) hn⟩, ?_⟩
  rw [hskip.2, hlexeme]
  simp [Node.IsTreeOf, Term.toNode, Node.make, Node.unplaced, Node.unplacedAll,
    Node.unplacedValue, htree.eq]

theorem readable_giveBack {value : Option Term} (hvalue : ∀ a ∈ value, Readable a) :
    Readable (.giveBack p value) := by
  intro place s s' hprint ⟨hword, hwords⟩ hends
  replace hends := hends.resolve_left nofun
  have hjoin := joinLevel_of_ends hends
  simp only [Term.printable, Bool.and_eq_true, decide_eq_true_eq] at hprint
  obtain ⟨rfl, hprint⟩ := hprint
  cases value with
  | none =>
    have hs' : s' = s.advance := hwords
    subst hs'
    have hbare : [.semicolon, .rightBrace, .eof].contains s.advance.current.kind = true := by
      simp only [Term.Place.ends, List.mem_cons, List.not_mem_nil, or_false] at hends
      rcases hends with hk | hk <;> rw [hk] <;> rfl
    exact ⟨_, ⟨1, .bareReturn (kind_of_word hword) hbare⟩, rfl⟩
  | some a =>
    have ha := hvalue a rfl
    have hopen : s.advance.current.kind = .leftParen := kind_of_word hwords.1
    obtain ⟨n, ⟨room, hn⟩, htree⟩ := ha.grouped_at (j := 9) hprint hwords (by decide) (by omega)
    refine ⟨_, ⟨room + 1, .returnOf (kind_of_word hword) (by rw [hopen]; rfl) hn⟩, ?_⟩
    simp [Node.IsTreeOf, Term.toNode, Term.toNode?, Node.unplacedValue, htree.eq]

end Statements

section Items

variable {p : Position} {a i : Term} {as : List Term}

theorem endsOperand_of_isCallable (h : n.IsTreeOf t) (hcallable : t.isCallable = true) :
    endsOperand n = false := by
  rw [endsOperand, h.isError, Node.isBlockLike, h.kind]
  cases t <;> first | rfl | cases hcallable

/-- In parentheses it is an item of a list. -/
theorem Readable.express (h : Readable a) (hprint : a.printable .operand = true) :
    Express (Word.grouped a.words) (·.IsTreeOf a) := by
  refine ⟨fun s s' hwords => ?_, fun s s' hwords hjoin => ?_⟩
  · rw [kind_of_word (w := .fixed .leftParen) hwords.1]
    decide
  · obtain ⟨n, hn, htree⟩ := h.grouped_at (j := 9) hprint hwords (by decide) (by omega)
    exact ⟨n, hn, htree.isError, htree⟩

theorem words_of_items (as : List Term) :
    Word.items (Term.allWords as) = Word.listed (as.map fun a => Word.grouped a.words) := by
  rw [Term.allWords_eq_map, Word.items_eq_listed, List.map_map]
  rfl

theorem unplaced_of_trees {ns : List Node} (h : List.Forall₂ (fun a n => n.IsTreeOf a) as ns) :
    ns.map Node.unplaced = (Term.toNodes as).map Node.unplaced := by
  induction h with
  | nil => rfl
  | cons htree _ ih => rw [Term.toNodes, List.map_cons, List.map_cons, htree.eq, ih]

theorem readable_call {f : Term} (hf : Readable f) (has : ∀ a ∈ as, Readable a) :
    Readable (.call p f as) := by
  intro place s s' hprint hwords hends
  have hjoin := joinLevel_of_ends (hends.resolve_left nofun)
  simp only [Term.printable, Bool.and_eq_true, Term.allPrintable_iff] at hprint
  obtain ⟨m, hsubject, hlist⟩ := consumes_append.mp hwords
  obtain ⟨hopen, q, hitems, hclose, rfl⟩ := consumes_enclosed.mp hlist
  obtain ⟨n, ⟨room, hn⟩, htree, -⟩ := hf.grouped hprint.1.2 hsubject
  rw [words_of_items, ← List.append_nil (Word.listed _)] at hitems
  obtain ⟨room', ns, more, hns, htrees, -⟩ :=
    reads_listed "`)`" (fun a ha => (has a ha).express (hprint.2 a ha)) (by decide) (.inl rfl)
      hitems (kind_of_word hclose) [] false
  obtain ⟨happly, -⟩ := joinLevel_facts q.advance.current.kind
  obtain ⟨larger, hn, hns⟩ := common_room hn hns
  refine ⟨_, ⟨larger + 1 + 1, .applied hn.succ (endsOperand_of_isCallable htree hprint.1.1)
    (.call (kind_of_word hopen) hns (.applicationsEnd (happly (by omega)).1 (happly (by omega)).2))⟩,
    ?_⟩
  simp [Node.IsTreeOf, Term.toNode, Node.unplacedValue, htree.eq, unplaced_of_trees htrees]

theorem readable_index (ha : Readable a) (hi : Readable i) : Readable (.index p a i) := by
  intro place s s' hprint hwords hends
  have hjoin := joinLevel_of_ends (hends.resolve_left nofun)
  simp only [Term.printable, Bool.and_eq_true] at hprint
  obtain ⟨m, hsubject, hlist⟩ := consumes_append.mp hwords
  obtain ⟨hopen, q, hplace, hclose, rfl⟩ := consumes_enclosed.mp hlist
  have hk : q.current.kind = .rightBracket := kind_of_word hclose
  obtain ⟨n, hn, htree, -⟩ := ha.grouped hprint.1.2 hsubject
  obtain ⟨r, hr, hrtree⟩ :=
    hi.grouped_at (j := 9) hprint.2 hplace (by decide) (by rw [hk]; decide)
  obtain ⟨happly, -⟩ := joinLevel_facts q.advance.current.kind
  obtain ⟨room, hn, hr⟩ := Gets.both hn hr
  refine ⟨_, ⟨room + 1, .applied hn (endsOperand_of_isCallable htree hprint.1.1)
    (.index (kind_of_word hopen) hr hrtree.isError hk
      (.applicationsEnd (happly (by omega)).1 (happly (by omega)).2))⟩, ?_⟩
  simp [Node.IsTreeOf, Term.toNode, Node.unplacedValue, htree.eq, hrtree.eq]

theorem readable_tuple (has : ∀ a ∈ as, Readable a) : Readable (.tuple p as) := by
  intro place s s' hprint hwords _
  simp only [Term.printable, Bool.and_eq_true, Term.allPrintable_iff, Bool.not_eq_true',
    List.isEmpty_eq_false_iff] at hprint
  rw [Term.words, words_of_items] at hwords
  obtain ⟨ns, htuple, hopen, htrees⟩ := gets_tuple
    (fun a ha => (has a ha).express (hprint.2 a ha)) hprint.1 (.inr rfl)
    (fun _ => List.cons_ne_nil _ _) hwords
  refine ⟨_, htuple.opened hopen rfl, ?_⟩
  simp [Node.IsTreeOf, Term.toNode, Node.unplacedValue, unplaced_of_trees htrees]

theorem readable_array (has : ∀ a ∈ as, Readable a) : Readable (.array p as) := by
  intro place s s' hprint hwords _
  have hall := Term.allPrintable_iff.mp hprint
  rw [Term.words, words_of_items] at hwords
  obtain ⟨ns, harray, hopen, htrees⟩ := gets_array
    (fun a ha => (has a ha).express (hall a ha)) hwords
  refine ⟨_, harray.opened hopen rfl, ?_⟩
  simp [Node.IsTreeOf, Term.toNode, Node.unplacedValue, unplaced_of_trees htrees]

end Items

section Bodies

variable {p : Position} {ts : List Term} {last : Option Term}

/-- A statement is read whole in front of what ends it. -/
theorem Readable.statement (h : Readable t) (hprint : t.printable .statement = true)
    (hwords : Consumes s t.words s') (hends : s'.current.kind ∈ Term.Place.ends .statement) :
    ∃ n room, Reads room (.rule .statement) s (.node n) s' ∧ n.IsTreeOf t ∧
      moveOn s.consumed s' = s' := by
  obtain ⟨n, hn, htree⟩ := h .statement s s' hprint hwords (.inr hends)
  obtain ⟨room, hn⟩ := hn.statement (first_of_consumes hwords) (joinLevel_of_ends hends)
  exact ⟨n, room, hn, htree, moveOn_of_not_error hn htree.isError⟩

/-- A statement starts neither with a semicolon nor with the end of a body. -/
theorem starts_of_consumes {closing : Token.Kind} (h : Consumes s t.words s')
    (hclosing : closing ∈ [.eof, .rightBrace]) :
    [closing, .eof].contains s.current.kind = false ∧ s.current.kind ≠ .semicolon := by
  have hfirst := not_mem_first t
  simp only [← first_of_consumes h, List.mem_cons, List.not_mem_nil, or_false, not_or] at hfirst
  simp only [List.mem_cons, List.not_mem_nil, or_false] at hclosing
  rcases hclosing with rfl | rfl <;> simp [hfirst]

/-- The statements of a body are read up to its end. Only a block has a last one without a
semicolon. -/
theorem reads_printed_body {closing : Token.Kind}
    (hts : ∀ t ∈ ts, Readable t ∧ t.printable .statement = true)
    (hlast : ∀ t ∈ last, Readable t ∧ t.printable .statement = true)
    (hclosing : closing = .rightBrace ∨ (closing = .eof ∧ last = none))
    (hwords : Consumes s (Word.terminated (ts.map Term.words) ++ (Term.words? last).getD []) m)
    (hm : m.current.kind = closing) (read : List Node) :
    ∃ room ns l, Reads room (.sequence closing read) s (.sequence (read ++ ns) l) m ∧
      ns.map Node.unplaced = (Term.toNodes ts).map Node.unplaced ∧
      l.map Node.unplaced = (Term.toNode? last).map Node.unplaced := by
  have hmem : closing ∈ [.eof, .rightBrace] := by
    rcases hclosing with rfl | ⟨rfl, -⟩ <;> decide
  induction ts generalizing s read with
  | nil =>
    cases last with
    | none =>
      obtain rfl : m = s := hwords
      refine ⟨0, [], none, ?_, rfl, rfl⟩
      rw [List.append_nil]
      exact .sequenceEnd (by simp [hm])
    | some t =>
      obtain ⟨ht, hprint⟩ := hlast t rfl
      obtain rfl := hclosing.resolve_right fun h => nomatch h.2
      obtain ⟨hopen, hseparator⟩ := starts_of_consumes hwords hmem
      obtain ⟨n, room, hn, htree, hmoved⟩ := ht.statement hprint hwords (by rw [hm]; decide)
      have htrailing : Reads room (.sequence .rightBrace read) s
          (.sequence read (some n)) (moveOn s.consumed m) :=
        .trailing hopen hseparator hn (by simp [hmoved, hm]) (by rw [hmoved, hm])
      rw [hmoved] at htrailing
      refine ⟨room, [], some n, ?_, rfl, congrArg some htree⟩
      rwa [List.append_nil]
  | cons t ts ih =>
    obtain ⟨⟨ht, hprint⟩, hts⟩ := List.forall_mem_cons.mp hts
    rw [List.map_cons, Word.terminated, List.flatMap_cons, List.append_assoc,
      List.append_assoc] at hwords
    obtain ⟨q, hstatement, hsemicolon, hrest⟩ := consumes_append.mp hwords
    have hk : q.current.kind = .semicolon := kind_of_word hsemicolon
    obtain ⟨hopen, hseparator⟩ := starts_of_consumes hstatement hmem
    obtain ⟨n, room, hn, htree, hmoved⟩ := ht.statement hprint hstatement (by rw [hk]; decide)
    obtain ⟨room', ns, l, hns, htrees, hl⟩ := ih hts hrest (read ++ [n])
    obtain ⟨larger, hn, hns⟩ := common_room hn hns
    rw [List.append_assoc] at hns
    refine ⟨larger, n :: ns, l, .terminated hopen hseparator hn ?_ ?_, ?_, hl⟩
    · rw [hmoved, hk]
    · rw [hmoved]
      exact hns
    · simp [Term.toNodes, htree.eq, htrees]

theorem readable_block (hts : ∀ t ∈ ts, Readable t) (hlast : ∀ t ∈ last, Readable t) :
    Readable (.block p ts last) := by
  intro place s s' hprint hwords _
  simp only [Term.printable, Bool.and_eq_true, Term.allPrintable_iff, Term.printable?_iff] at hprint
  obtain ⟨hopen, q, hbody, hclose, rfl⟩ := consumes_enclosed.mp hwords
  rw [Term.allWords_eq_map] at hbody
  obtain ⟨room, ns, l, hns, htrees, hl⟩ :=
    reads_printed_body (fun t ht => ⟨hts t ht, hprint.1 t ht⟩)
      (fun t ht => ⟨hlast t ht, hprint.2 t ht⟩) (.inl rfl) hbody (kind_of_word hclose) []
  have hblock : Reads (room + 1 + 1) (.rule .block) s
      (.node (.make .block s.current.position (l.elim .absent .node) ns)) q.advance :=
    .block (kind_of_word hopen) hns (kind_of_word hclose)
  refine ⟨_, ⟨_, hblock⟩, ?_⟩
  have hvalue : Node.unplacedValue (l.elim .absent .node) =
      Node.unplacedValue ((Term.toNode? last).elim .absent .node) := by
    cases l with
    | none =>
      cases last with
      | none => rfl
      | some t => cases hl
    | some n =>
      cases last with
      | none => cases hl
      | some t => exact congrArg Datum.node (Option.some.inj hl)
  simp [Node.IsTreeOf, Term.toNode, htrees, hvalue]

theorem readable_conditional {c u : Term} {e : Option Term} (hc : Readable c) (hu : Readable u)
    (he : ∀ t ∈ e, Readable t) : Readable (.conditional p c u e) := by
  intro place s s' hprint hwords hends
  replace hends := hends.resolve_left nofun
  simp only [Term.printable, Bool.and_eq_true, Term.printable?_iff] at hprint
  obtain ⟨⟨⟨⟨hcondition, hblock⟩, hbody⟩, hbranch⟩, helse⟩ := hprint
  obtain ⟨m', ⟨hword, hfront⟩, hrest⟩ := consumes_append.mp hwords
  obtain ⟨m, hcwords, huwords⟩ := consumes_append.mp hfront
  have hbrace : m.current.kind = .leftBrace := by
    rw [first_of_consumes huwords]
    cases u <;> first | rfl | cases hblock
  have hform : u.form = .block := by cases u <;> first | rfl | cases hblock
  obtain ⟨c', hc', hctree⟩ := hc.grouped_at (j := 9) hcondition hcwords (by decide)
    (by rw [hbrace]; decide)
  -- The block may have `else` behind it, which ends no other term.
  obtain ⟨u', hu', hutree⟩ := hu .operand m m' hbody huwords (.inl hblock)
  rw [hform] at hu'
  obtain ⟨room, hc', hu'⟩ := Gets.both hc' hu'
  cases e with
  | none =>
    obtain rfl : s' = m' := hrest
    have hne : s'.current.kind ≠ .kwElse := fun heq => by
      rw [heq] at hends
      cases place <;> simp [Term.Place.ends] at hends
    refine ⟨_, ⟨room + 1, .ifThen (kind_of_word hword) hc' hctree.isError hbrace hu'
      hutree.isError hne⟩, ?_⟩
    simp [Node.IsTreeOf, Term.toNode, Term.toNode?, Node.make, Node.unplaced, Node.unplacedAll,
      Node.unplacedValue, hctree.eq, hutree.eq]
  | some t =>
    obtain ⟨hotherwise, hewords⟩ := hrest
    have hends' : s'.current.kind ∈ Term.Place.ends .operand := by
      cases place with
      | statement => exact List.mem_append_left [.rightParen] hends
      | operand => exact hends
    have hbranch' : branch? m'.advance.current.kind = some t.form := by
      rw [first_of_consumes hewords]
      have hbranch : t.isBranch = true := by simpa using hbranch
      cases t <;> first | rfl | cases hbranch
    obtain ⟨n, ⟨room', hn⟩, hntree⟩ :=
      he t rfl .operand _ s' (helse t rfl) hewords (.inr hends')
    have hconditional := Reads.ifThenElse (kind_of_word hword)
      (hc'.mono (Nat.le_max_left room room')) hctree.isError hbrace
      (hu'.mono (Nat.le_max_left room room')) hutree.isError (kind_of_word hotherwise) hbranch'
      (hn.mono (Nat.le_max_right room room')) hntree.isError
    refine ⟨_, ⟨_, hconditional⟩, ?_⟩
    simp [Node.IsTreeOf, Term.toNode, Term.toNode?, Node.make, Node.unplaced, Node.unplacedAll,
      Node.unplacedValue, hctree.eq, hutree.eq, hntree.eq]

end Bodies

/-- Every term that can be printed is read in front of its words. -/
theorem readable (t : Term) : Readable t := by
  induction t using Term.induction with
  | _ t ih =>
  cases t with
  | integer p n => exact readable_integer n
  | float => exact fun _ _ _ hprint => nomatch hprint
  | string p text => exact readable_string text
  | bool p b => exact readable_bool b
  | unit p => exact readable_unit
  | identifier p name => exact readable_identifier name
  | unary p op a => exact readable_unary op (ih a (by simp [Term.parts]))
  | binary p op a b =>
    exact readable_binary op (ih a (by simp [Term.parts])) (ih b (by simp [Term.parts]))
  | call p f as =>
    exact readable_call (ih f (by simp [Term.parts])) fun a ha => ih a (by simp [Term.parts, ha])
  | index p a i =>
    exact readable_index (ih a (by simp [Term.parts])) (ih i (by simp [Term.parts]))
  | tuple p as => exact readable_tuple ih
  | array p as => exact readable_array ih
  | block p ts last =>
    exact readable_block (fun t ht => ih t (by simp [Term.parts, ht]))
      fun t ht => ih t (by simp [Term.parts, Option.mem_def.mp ht])
  | conditional p c u e =>
    exact readable_conditional (ih c (by simp [Term.parts])) (ih u (by simp [Term.parts]))
      fun t ht => ih t (by simp [Term.parts, Option.mem_def.mp ht])
  | binding p isMutable name a => exact readable_binding isMutable name (ih a (by simp [Term.parts]))
  | assign p op name a => exact readable_assign op name (ih a (by simp [Term.parts]))
  | giveBack p value =>
    exact readable_giveBack fun a ha => ih a (by simp [Term.parts, Option.mem_def.mp ha])

/-- A printed program has a derivation, which meets no fault. -/
theorem reads_printed {ts : List Term} (hprint : ∀ t ∈ ts, t.printable .statement = true) :
    ∃ room ns s', Reads room (.sequence .eof [])
        (.ofSupply (.lexer (Lexer.ofText (Term.print ts))) (Term.print ts)) (.sequence ns none) s' ∧
      ns.map Node.unplaced = (Term.toNodes ts).map Node.unplaced ∧ s'.diagnostics = [] := by
  generalize hstart : State.ofSupply (.lexer (Lexer.ofText (Term.print ts))) (Term.print ts) = s
  have hpending : s.pending.map Token.word = Word.terminated (ts.map Term.words) := by
    rw [← hstart, pending_ofSupply]
    exact (Term.lex_print hprint).1
  obtain ⟨s', hwords, heof⟩ := consumes_pending hpending
  have hall : Consumes s (Word.terminated (ts.map Term.words) ++ (Term.words? none).getD []) s' := by
    rwa [Term.words?, Option.getD_none, List.append_nil]
  obtain ⟨room, ns, l, hns, htrees, hl⟩ :=
    reads_printed_body (fun t ht => ⟨readable t, hprint t ht⟩) (by simp) (.inr ⟨rfl, rfl⟩)
      hall heof []
  obtain rfl : l = none := Option.map_eq_none_iff.mp hl
  refine ⟨room, ns, s', hns, htrees, ?_⟩
  rw [diagnostics_of_consumes hwords, ← hstart]
  rfl

end Grammar

open Grammar

/-- Reading undoes printing: the text of a program that can be printed is read without
diagnostics, and as that program up to positions, where the rules have the room for it. -/
theorem printed_program_is_read {ts : List Term}
    (hprint : ∀ t ∈ ts, t.printable .statement = true)
    (hfits : Reading.fits (.lexer (Lexer.ofText (Term.print ts))) (Term.print ts) = true) :
    (Reading.ofText (Term.print ts)).ok = true ∧
      (Reading.ofText (Term.print ts)).statements.map Node.unplaced =
        (Term.toNodes ts).map Node.unplaced := by
  obtain ⟨room, ns, s', hprinted, htrees, hdiagnostics⟩ := reads_printed hprint
  obtain ⟨hok, hstatements, -⟩ :=
    Reading.ofText_reads hfits hprinted (Term.lex_print hprint).2 hdiagnostics
  rw [hstatements, Option.toList_none, List.append_nil]
  exact ⟨hok, htrees⟩

/-- A binding with an operator of two words, a string with escapes and a tuple of one item,
and a return of a block that ends in a conditional with a branch for each outcome. -/
theorem printed_statements_are_read :
    let ts : List Term := [
      .binding {} true "x" (.binary {} .notMember (.integer {} ⟨0, rfl⟩)
        (.array {} [.string {} "a\"\n", .tuple {} [.unary {} .negate (.unit {})]])),
      .giveBack {} (some (.block {} [.call {} (.identifier {} "f") [.bool {} true]]
        (some (.conditional {} (.identifier {} "x")
          (.block {} [.assign {} (.combine .add) "x" (.index {} (.identifier {} "x") (.unit {}))] none)
          (some (.conditional {} (.unit {}) (.block {} [] none) none))))))]
    (∀ t ∈ ts, t.printable .statement = true) ∧
      (Reading.ofText (Term.print ts)).ok = true ∧
      (Reading.ofText (Term.print ts)).statements.map Node.unplaced =
        (Term.toNodes ts).map Node.unplaced :=
  ⟨by decide +kernel, printed_program_is_read (by decide +kernel) (by decide +kernel)⟩

end Scriptlet
