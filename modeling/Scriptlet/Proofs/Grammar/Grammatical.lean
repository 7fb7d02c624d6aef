import Scriptlet.Proofs.Grammar.Faithful
import Scriptlet.Proofs.Grammar.Language

/-!
# What is read without faults is of the grammar

Between two states of a run without faults lie the tokens that were consumed, and these
derive what was read. Each way through the rules extends the derivations of its parts by
the tokens that it consumes itself; the ways that give an error are not taken.
-/

namespace Scriptlet

open Scriptlet.Parser
open Node (containsErrors)

namespace Grammar

open Scriptlet.Language

variable {s m s' : State}

/-- The tokens that are consumed from the one state to the other. -/
def Takes (s : State) (ts : List Token) (s' : State) : Prop := s.pending = ts ++ s'.pending

theorem Takes.refl (s : State) : Takes s [] s := rfl

theorem Takes.trans {ts rest : List Token} (h : Takes s ts m) (h' : Takes m rest s') :
    Takes s (ts ++ rest) s' := by
  rw [Takes, h, h', List.append_assoc]

theorem takes_advance (hk : s.current.kind ≠ .eof) : Takes s [s.current] s.advance := by
  rw [Takes, pending_advance, State.pending, if_neg hk]
  rfl

/-- The current token and what is consumed behind it. -/
theorem Takes.cons {ts : List Token} (hk : s.current.kind ≠ .eof) (h : Takes s.advance ts s') :
    Takes s (s.current :: ts) s' := (takes_advance hk).trans h

/-- What is consumed and the current token behind it. -/
theorem Takes.concat {ts : List Token} (h : Takes s ts m) (hk : m.current.kind ≠ .eof) :
    Takes s (ts ++ [m.current]) m.advance := h.trans (takes_advance hk)

/-- The first token that is consumed is the current one. -/
theorem current_of_takes {t : Token} {ts : List Token} (h : Takes s (t :: ts) s') :
    t = s.current := by
  rw [Takes, State.pending] at h
  split at h
  · cases h
  · exact (List.cons.inj h).1.symm

theorem pending_suffix (h : Moves s s') : s'.pending <:+ s.pending := by
  induction h with
  | refl => exact List.suffix_refl _
  | fault f p _ ih => exact ih
  | advance _ ih =>
    rw [pending_advance]
    exact (List.tail_suffix _).trans ih

/-- Where nothing is consumed, the same kind of token is the current one. -/
theorem kind_of_takes_nil (h : Takes s [] s') : s'.current.kind = s.current.kind := by
  rw [Takes, List.nil_append, State.pending, State.pending] at h
  split at h
  · next hk =>
    split at h
    · next hk' => rw [hk, hk']
    · cases h
  · split at h
    · cases h
    · rw [(List.cons.inj h).1]

/-- No fault is met between the states, and the numbers to come are those of a text. -/
structure Clean (s s' : State) : Prop where
  faultless : ¬ Blemished s s'
  numeric : ∀ t ∈ s.pending, Numeric t.kind t.lexeme.toList

theorem Clean.before (h : Clean s s') (hrest : Moves m s') : Clean s m :=
  ⟨fun hb => h.faultless (hb.within (.refl s) hrest), h.numeric⟩

theorem Clean.behind (h : Clean s s') (hfirst : Moves s m) : Clean m s' :=
  ⟨fun hb => h.faultless (hb.within hfirst (.refl s')),
    fun t ht => h.numeric t ((pending_suffix hfirst).subset ht)⟩

theorem Clean.advance (h : Clean s s') : Clean s.advance s' := h.behind (.advance (.refl s))

/-- No blemish lies anywhere on the way. -/
theorem Clean.not_within {m' : State} (h : Clean s s') (hfirst : Moves s m) (hrest : Moves m' s') :
    ¬ Blemished m m' :=
  fun hb => h.faultless (hb.within hfirst hrest)

/-- What is read without faults is no error. -/
theorem Clean.not_error {room : Nat} {rule : Rule} {n : Node} (hclean : Clean s s')
    (h : Reads room (.rule rule) s (.node n) s') : n.isError = false :=
  eq_false_of_ne_true fun herror => hclean.faultless (h.blemished herror)

end Grammar

/-- What the rule reads. -/
def Rule.phrase : Rule → Node → Language.Phrase
  | .statement | .giveBack => .statement
  | .binding => .binding
  | .expression | .assignment => .expression
  | .disjunction => .disjunction
  | .conjunction => .conjunction
  | .equality => .equality
  | .sum => .sum
  | .product => .product
  | .prefixed => .prefixed
  | .applied => .applied
  | .operand | .group | .array => .operand
  | .block => .block
  | .conditional => .conditional

namespace Grammar

open Scriptlet.Language

variable {s m s' : State}

/-- The levels of operators that associate to the left, with the next level. -/
inductive LeftLevel : Rule → Token.Kind → BinaryOp → Rule → Prop where
  | disjunction : LeftLevel .disjunction .kwOr .or .conjunction
  | conjunction : LeftLevel .conjunction .kwAnd .and .equality

theorem LeftLevel.link {rule tighter : Rule} {joint : Token} {kind : Token.Kind} {op : BinaryOp}
    {l r : Node} {ts rest : List Token} (h : LeftLevel rule kind op tighter)
    (hjoint : joint.kind = kind) (hl : Derives (rule.phrase l) ts)
    (hr : Derives (tighter.phrase r) rest) :
    Derives (rule.phrase (binaryNode op l r)) (ts ++ joint :: rest) := by
  cases h with
  | disjunction => exact .or hl hjoint hr
  | conjunction => exact .and hl hjoint hr

theorem LeftLevel.kind_ne_eof {rule tighter : Rule} {kind : Token.Kind} {op : BinaryOp}
    (h : LeftLevel rule kind op tighter) : kind ≠ .eof := by
  cases h <;> decide

theorem RightLevel.alone {rule tighter : Rule} {op? : Token.Kind → Option BinaryOp} {n : Node}
    {ts : List Token} (h : RightLevel rule op? tighter) (hn : Derives (tighter.phrase n) ts) :
    Derives (rule.phrase n) ts := by
  cases h with
  | equality => exact .equality hn
  | sum => exact .sum hn
  | product => exact .product hn

theorem RightLevel.link {rule tighter : Rule} {op? : Token.Kind → Option BinaryOp}
    {joint : Token} {op : BinaryOp} {l r : Node} {ts rest : List Token}
    (h : RightLevel rule op? tighter) (hop : op? joint.kind = some op)
    (hl : Derives (tighter.phrase l) ts) (hr : Derives (rule.phrase r) rest) :
    Derives (rule.phrase (binaryNode op l r)) (ts ++ joint :: rest) := by
  cases h with
  | equality =>
    have hmem : ([joint].map Token.kind, op) ∈ equalities := by
      rw [List.map_singleton]
      dsimp only at hop
      split at hop <;> cases hop
      all_goals
        next hk =>
        rw [hk]
        decide
    have hcompare := Derives.compare hl hmem hr
    rwa [List.append_assoc] at hcompare
  | sum =>
    refine .add hl ?_ hr
    unfold sumOp? at hop
    split at hop <;> cases hop
    all_goals
      next hk =>
      rw [hk]
      decide
  | product =>
    refine .multiply hl ?_ hr
    unfold productOp? at hop
    split at hop <;> cases hop
    all_goals
      next hk =>
      rw [hk]
      decide

theorem notMember_joint {t t' : Token} (h : t.kind = .kwNot) (h' : t'.kind = .kwIn) :
    ([t, t'].map Token.kind, BinaryOp.notMember) ∈ equalities := by
  rw [List.map_cons, List.map_singleton, h, h']
  decide

theorem mem_assignments {k : Token.Kind} {op : AssignOp} (h : assignOp? k = some op) :
    (k, op) ∈ assignments := by
  unfold assignOp? at h
  split at h <;> cases h <;> decide

theorem mem_prefixes {k : Token.Kind} {op : UnaryOp} (h : prefixOp? k = some op) :
    (k, op) ∈ prefixes := by
  unfold prefixOp? at h
  split at h <;> cases h <;> decide

theorem Leaf.atom {t : Token} {n : Node} (h : Leaf t n)
    (hnumeric : Numeric t.kind t.lexeme.toList) : Atom t n := by
  cases h with
  | integer hk hn =>
    have hdigits := hnumeric.1 hk
    obtain ⟨rfl, hrange⟩ := (integerLiteral_iff hdigits).mp hn
    exact .integer hk hdigits hrange
  | float hk hx =>
    obtain ⟨whole, fraction, hlexeme, hwhole, hfraction⟩ := hnumeric.2 hk
    obtain ⟨rfl, hfinite⟩ := (floatLiteral_iff hlexeme hwhole hfraction).mp hx
    exact .float hk hlexeme hwhole hfraction hfinite
  | string hk => exact .string hk
  | true hk => exact .true hk
  | false hk => exact .false hk
  | identifier hk => exact .identifier hk

theorem derives_opened {k : Token.Kind} {rule : Rule} {n : Node} {ts : List Token}
    (h : opened? k = some rule) (hn : Derives (rule.phrase n) ts) : Derives (.operand n) ts := by
  unfold opened? at h
  split at h
  · cases h
    exact hn
  · cases h
    exact hn
  · cases h
    exact .blockOperand hn
  · cases h
    exact .conditionalOperand hn
  · cases h
    exact .bindingOperand hn
  · cases h

theorem derives_branch {k : Token.Kind} {rule : Rule} {n : Node} {ts : List Token}
    (h : branch? k = some rule) (hn : Derives (rule.phrase n) ts) : Derives (.branch n) ts := by
  unfold branch? at h
  split at h
  · cases h
    exact .elseIf hn
  · cases h
    exact .elseBlock hn
  · cases h

/-- A single item without a comma is an expression. -/
theorem derives_sole {n : Node} {ts : List Token} (h : Derives (.items [n] false) ts) :
    Derives (.expression n) ts := by
  cases h with
  | lastItem hn => exact hn

theorem derives_comma {read : List Node} {comma : Bool} {ts : List Token}
    (h : Derives (.items read comma) ts) (hts : ts ≠ []) (hone : read.length = 1 → comma = true) :
    comma = true := by
  cases h with
  | noItems => exact absurd rfl hts
  | lastItem => exact hone rfl
  | item => rfl

/-- The tokens that the task consumes derive what it yields, together with what was read
before where it goes on with that. -/
def Grammatical : Task → State → Yield → State → Prop
  | .rule rule, s, .node n, s' => ∃ ts, Takes s ts s' ∧ Derives (rule.phrase n) ts
  | .chain joint op tighter l, s, .node n, s' =>
    ∀ rule, LeftLevel rule joint op tighter → ∀ front, Derives (rule.phrase l) front →
      ∃ ts, Takes s ts s' ∧ Derives (rule.phrase n) (front ++ ts)
  | .applications l, s, .node n, s' =>
    ∀ front, Derives (.callee l) front → ∃ ts, Takes s ts s' ∧ Derives (.callee n) (front ++ ts)
  | .items closing _ read comma, s, .items all commas, s' => closing ≠ .eof →
    ∃ ts last rest more, Takes s (ts ++ [last]) s' ∧ last.kind = closing ∧ all = read ++ rest ∧
      commas = (comma || more) ∧ Derives (.items rest more) ts
  | .sequence closing read, s, .sequence all last, s' => s'.current.kind = closing →
    ∃ ts rest, Takes s ts s' ∧ all = read ++ rest ∧ Derives (.body rest last) ts
  | _, _, _, _ => False

/-- A rule that only goes on to another one. -/
theorem Grammatical.rule {rule rule' : Rule} {y : Yield}
    (h : Grammatical (.rule rule) s y s')
    (himp : ∀ n ts, Derives (rule.phrase n) ts → Derives (rule'.phrase n) ts) :
    Grammatical (.rule rule') s y s' := by
  cases y with
  | node n =>
    obtain ⟨ts, htakes, hn⟩ := h
    exact ⟨ts, htakes, himp n ts hn⟩
  | items => exact h
  | sequence => exact h

section Loops

variable {y : Yield} {l : Node} {ts front : List Token} {closing : Token.Kind} {read : List Node}

theorem Grammatical.chain {rule tighter : Rule} {joint : Token.Kind} {op : BinaryOp}
    (hlevel : LeftLevel rule joint op tighter) (htakes : Takes s front m)
    (hl : Derives (rule.phrase l) front) (h : Grammatical (.chain joint op tighter l) m y s') :
    Grammatical (.rule rule) s y s' := by
  cases y with
  | node n =>
    obtain ⟨ts, htakes', hn⟩ := h rule hlevel front hl
    exact ⟨_, htakes.trans htakes', hn⟩
  | items => exact h
  | sequence => exact h

theorem Grammatical.link {tighter : Rule} {joint : Token.Kind} {op : BinaryOp} {r : Node}
    (hk : s.current.kind = joint) (htakes : Takes s.advance ts m)
    (hr : Derives (tighter.phrase r) ts)
    (h : Grammatical (.chain joint op tighter (binaryNode op l r)) m y s') :
    Grammatical (.chain joint op tighter l) s y s' := by
  cases y with
  | node n =>
    intro rule hlevel front hl
    obtain ⟨rest, htakes', hn⟩ := h rule hlevel _ (hlevel.link hk hl hr)
    refine ⟨_, (htakes.cons (hk ▸ hlevel.kind_ne_eof)).trans htakes', ?_⟩
    rwa [← List.append_assoc]
  | items => exact h
  | sequence => exact h

theorem Grammatical.applied (htakes : Takes s front m) (hl : Derives (.callee l) front)
    (h : Grammatical (.applications l) m y s') : Grammatical (.rule .applied) s y s' := by
  cases y with
  | node n =>
    obtain ⟨ts, htakes', hn⟩ := h front hl
    exact ⟨_, htakes.trans htakes', .applied hn⟩
  | items => exact h
  | sequence => exact h

theorem Grammatical.application {l' : Node} (htakes : Takes s ts m)
    (hcallee : ∀ front, Derives (.callee l) front → Derives (.callee l') (front ++ ts))
    (h : Grammatical (.applications l') m y s') : Grammatical (.applications l) s y s' := by
  cases y with
  | node n =>
    intro front hl
    obtain ⟨rest, htakes', hn⟩ := h _ (hcallee front hl)
    refine ⟨_, htakes.trans htakes', ?_⟩
    rwa [← List.append_assoc]
  | items => exact h
  | sequence => exact h

theorem Grammatical.item {glyph : String} {comma : Bool} {n : Node} (htakes : Takes s ts m)
    (hn : Derives (.expression n) ts) (hcomma : m.current.kind = .comma)
    (h : Grammatical (.items closing glyph (read ++ [n]) true) m.advance y s') :
    Grammatical (.items closing glyph read comma) s y s' := by
  cases y with
  | items all commas =>
    intro hclosing
    obtain ⟨tail, last, rest, more, htakes', hlast, hall, hcommas, hrest⟩ := h hclosing
    refine ⟨ts ++ m.current :: tail, last, n :: rest, true, ?_, hlast, ?_, ?_,
      .item hn hcomma hrest⟩
    · have hwhole := htakes.trans (htakes'.cons (by simp [hcomma]))
      rwa [← List.cons_append, ← List.append_assoc] at hwhole
    · rwa [List.append_assoc] at hall
    · rwa [Bool.or_true]
  | node => exact h
  | sequence => exact h

/-- The items of a list, all of them. -/
theorem Grammatical.listed {glyph : String} {comma : Bool} (hclosing : closing ≠ .eof)
    (h : Grammatical (.items closing glyph [] false) s (.items read comma) s') :
    ∃ ts last, Takes s (ts ++ [last]) s' ∧ last.kind = closing ∧ Derives (.items read comma) ts := by
  obtain ⟨ts, last, rest, more, htakes, hlast, rfl, rfl, hrest⟩ := h hclosing
  exact ⟨ts, last, htakes, hlast, hrest⟩

/-- The first tokens of a list of statements, with the statements that are complete there. -/
theorem Grammatical.statements {new : List Node} (htakes : Takes s ts m)
    (hbody : ∀ rest last tail, Takes m tail s' → s'.current.kind = closing →
      Derives (.body rest last) tail → Derives (.body (new ++ rest) last) (ts ++ tail))
    (h : Grammatical (.sequence closing (read ++ new)) m y s') :
    Grammatical (.sequence closing read) s y s' := by
  cases y with
  | sequence all last =>
    intro hend
    obtain ⟨tail, rest, htakes', hall, hrest⟩ := h hend
    refine ⟨_, new ++ rest, htakes.trans htakes', ?_, hbody _ _ _ htakes' hend hrest⟩
    rwa [← List.append_assoc]
  | node => exact h
  | items => exact h

end Loops

theorem Reads.grammatical {room : Nat} {task : Task} {y : Yield} (h : Reads room task s y s')
    (hclean : Clean s s') : Grammatical task s y s' := by
  induction h
  -- Statements
  case bindingStatement ih => exact (ih hclean).rule fun _ _ => .bindingStatement
  case returnStatement ih => exact (ih hclean).rule fun _ _ => id
  case expressionStatement ih => exact (ih hclean).rule fun _ _ => .expressionStatement
  case binding hk hm hname hassign hv ih =>
    have hvalue := Moves.of_reads hv
    subst hm
    obtain ⟨ts, htakes, hn⟩ :=
      ih (hclean.behind (.advance (.advance (.skip _ (.advance (.refl _))))))
    have hrest := (htakes.cons (by simp [hassign])).cons (by simp [hname])
    rw [State.skip] at hname hassign hrest ⊢
    split at hrest
    · next hmut =>
      rw [if_pos hmut] at hname hassign
      rw [decide_eq_true hmut, if_pos hmut]
      exact ⟨_, (hrest.cons (by simp [hmut])).cons (by simp [hk]),
        .mutable hk hmut hname hassign hn⟩
    · next hmut =>
      rw [if_neg hmut] at hname hassign
      rw [decide_eq_false hmut, if_neg hmut]
      exact ⟨_, hrest.cons (by simp [hk]), .immutable hk hname hassign hn⟩
  case bareReturn hk _ => exact ⟨_, takes_advance (by simp [hk]), .bareReturn hk⟩
  case returnOf hk _ hv ih =>
    obtain ⟨ts, htakes, hn⟩ := ih hclean.advance
    exact ⟨_, htakes.cons (by simp [hk]), .returnOf hk hn⟩
  case expression ih => exact (ih hclean).rule fun _ _ => id
  -- Operators
  case unassigning ih =>
    obtain ⟨ts, htakes, hn⟩ := ih hclean
    exact ⟨ts, htakes, .expression hn⟩
  case assignment hl hop hr he hkind ihl ihr =>
    have hmoves := Moves.of_reads hr
    obtain ⟨ts, htakes, hl'⟩ := ihl (hclean.before hmoves.of_advance)
    obtain ⟨rest, htakes', hr'⟩ := ihr (hclean.behind (.advance (.of_reads hl)))
    exact ⟨_, htakes.trans (htakes'.cons (assignOp?_kind_ne hop).1),
      .assignment hl' hkind (mem_assignments hop) hr'⟩
  case disjunction hl hrest ihl ih =>
    obtain ⟨ts, htakes, hl'⟩ := ihl (hclean.before (.of_reads hrest))
    exact (ih (hclean.behind (.of_reads hl))).chain .disjunction htakes
      (.disjunction hl')
  case conjunction hl hrest ihl ih =>
    obtain ⟨ts, htakes, hl'⟩ := ihl (hclean.before (.of_reads hrest))
    exact (ih (hclean.behind (.of_reads hl))).chain .conjunction htakes
      (.conjunction hl')
  case chainEnd =>
    intro rule hlevel front hl
    exact ⟨[], .refl _, by rwa [List.append_nil]⟩
  case chainLink hk hr hrest ihr ih =>
    have hmoves := Moves.of_reads hrest
    have hinner := hclean.advance
    obtain ⟨ts, htakes, hr'⟩ := ihr (hinner.before hmoves)
    exact (ih (hclean.behind (.of_advance (.of_reads hr)))).link hk htakes hr'
  case chainless hlevel _ _ _ ih =>
    obtain ⟨ts, htakes, hl⟩ := ih hclean
    exact ⟨ts, htakes, hlevel.alone hl⟩
  case rightChain hlevel hl hop hr ihl ihr =>
    have hmoves := Moves.of_reads hr
    obtain ⟨ts, htakes, hl'⟩ := ihl (hclean.before hmoves.of_advance)
    obtain ⟨rest, htakes', hr'⟩ := ihr (hclean.behind (.advance (.of_reads hl)))
    exact ⟨_, htakes.trans (htakes'.cons (hlevel.kind_ne hop).1), hlevel.link hop hl' hr'⟩
  case notMember hl hk hin hr ihl ihr =>
    have hmoves := Moves.of_reads hr
    obtain ⟨ts, htakes, hl'⟩ := ihl (hclean.before hmoves.of_advance.of_advance)
    obtain ⟨rest, htakes', hr'⟩ := ihr (hclean.behind (.advance (.advance (.of_reads hl))))
    have hcompare := Derives.compare hl' (notMember_joint hk hin) hr'
    rw [List.append_assoc] at hcompare
    exact ⟨_, htakes.trans ((htakes'.cons (by simp [hin])).cons (by simp [hk])), hcompare⟩
  case unprefixed ih => exact (ih hclean).rule fun _ _ => .prefixed
  case prefixed hop h ih =>
    obtain ⟨ts, htakes, hn⟩ := ih hclean.advance
    exact ⟨_, htakes.cons (prefixOp?_kind_ne hop).1, .unary (mem_prefixes hop) hn⟩
  -- Calls and indexes
  case unapplied hn hend ih =>
    obtain ⟨ts, htakes, hn'⟩ := ih hclean
    have herror := hclean.not_error hn
    refine ⟨ts, htakes, .unapplied hn' ?_⟩
    simpa [endsOperand, herror] using hend
  case applied hn hend hrest ihn ih =>
    obtain ⟨ts, htakes, hn'⟩ := ihn (hclean.before (.of_reads hrest))
    simp only [endsOperand, Bool.or_eq_false_iff, decide_eq_false_iff_not] at hend
    exact (ih (hclean.behind (.of_reads hn))).applied htakes
      (.callee hn' hend.1.1 hend.1.2)
  case applicationsEnd =>
    intro front hl
    exact ⟨[], .refl _, by rwa [List.append_nil]⟩
  case call hk hitems hrest ihitems ih =>
    have hmoves := Moves.of_reads hrest
    have hinner := hclean.before hmoves
    obtain ⟨inner, last, htakes, hlast, hread⟩ := (ihitems hinner.advance).listed (by decide)
    refine .application (htakes.cons (by simp [hk])) (fun front hl => ?_)
      (ih (hclean.behind (.of_advance (.of_reads hitems))))
    have hcall := Derives.call hl hk hread hlast
    rwa [List.append_assoc] at hcall
  case index hk hi he hclosed hrest ihi ih =>
    have hmoves := Moves.of_reads hrest
    have hinner := hclean.before hmoves.of_advance
    obtain ⟨inner, htakes, hi'⟩ := ihi hinner.advance
    refine .application ((htakes.concat (by simp [hclosed])).cons (by simp [hk]))
      (fun front hl => ?_) (ih (hclean.behind (.advance (.of_advance (.of_reads hi)))))
    have hindex := Derives.index hl hk hi' hclosed
    rwa [List.append_assoc] at hindex
  -- Operands
  case leaf m n hleaf =>
    have hk := hleaf.kind_ne.1
    have hcurrent : m.current ∈ m.pending := by
      rw [State.pending, if_neg hk]
      exact List.mem_cons_self
    exact ⟨_, takes_advance hk, .atom (hleaf.atom (hclean.numeric _ hcurrent))⟩
  case compound hrule _ ih => exact (ih hclean).rule fun _ _ => derives_opened hrule
  case unit hk hempty =>
    exact ⟨_, (takes_advance (by simp [hempty])).cons (by simp [hk]), .unit hk hempty⟩
  case grouped hk _ hitems ih =>
    obtain ⟨ts, last, htakes, hlast, hread⟩ := (ih hclean.advance).listed (by decide)
    exact ⟨_, htakes.cons (by simp [hk]), .grouped hk (derives_sole hread) hlast⟩
  case tuple hk hempty hitems hone ih =>
    obtain ⟨ts, last, htakes, hlast, hread⟩ := (ih hclean.advance).listed (by decide)
    have hts : ts ≠ [] := by
      rintro rfl
      rw [List.nil_append] at htakes
      exact hempty ((current_of_takes htakes) ▸ hlast)
    have hcomma := derives_comma hread hts hone
    rw [hcomma] at hread
    exact ⟨_, htakes.cons (by simp [hk]), .tuple hk hread hlast⟩
  case array hk hitems ih =>
    obtain ⟨ts, last, htakes, hlast, hread⟩ := (ih hclean.advance).listed (by decide)
    exact ⟨_, htakes.cons (by simp [hk]), .array hk hread hlast⟩
  case block hk hstatements hclosed ih =>
    have hmoves := Moves.of_reads hstatements
    have hinner := hclean.advance
    obtain ⟨ts, rest, htakes, rfl, hbody⟩ :=
      ih (hinner.before (.advance (.refl _))) hclosed
    exact ⟨_, (htakes.concat (by simp [hclosed])).cons (by simp [hk]), .block hk hbody hclosed⟩
  case ifThen hk hc hce hbrace ht hte helse ihc iht =>
    have hmoves := Moves.of_reads ht
    have hinner := hclean.advance
    obtain ⟨ts, htakes, hc'⟩ := ihc (hinner.before hmoves)
    obtain ⟨inner, htakes', ht'⟩ := iht (hinner.behind (.of_reads hc))
    exact ⟨_, (htakes.trans htakes').cons (by simp [hk]), .ifThen hk hc' ht'⟩
  case ifThenElse hk hc hce hbrace ht hte helse hrule he hee ihc iht ihe =>
    have hmoves := Moves.of_reads he
    have hinner := hclean.advance
    have hfront := hinner.before hmoves.of_advance
    obtain ⟨ts, htakes, hc'⟩ := ihc (hfront.before (.of_reads ht))
    obtain ⟨inner, htakes', ht'⟩ := iht (hfront.behind (.of_reads hc))
    obtain ⟨rest, htakes'', he'⟩ :=
      ihe (hinner.behind (.advance ((Moves.of_reads hc).trans (.of_reads ht))))
    exact ⟨_, ((htakes.trans htakes').trans (htakes''.cons (by simp [helse]))).cons (by simp [hk]),
      .ifThenElse hk hc' ht' helse (derives_branch hrule he')⟩
  -- Items
  case itemsEnd hk =>
    intro hclosing
    exact ⟨[], _, [], false, takes_advance (hk ▸ hclosing), hk, by simp, by simp, .noItems⟩
  case item hk hn he hcomma hrest ihn ih =>
    have hmoves := Moves.of_reads hrest
    obtain ⟨ts, htakes, hn'⟩ := ihn (hclean.before hmoves.of_advance)
    exact .item htakes hn' hcomma (ih (hclean.behind (.advance (.of_reads hn))))
  case lastItem hk hn he hcomma hclosing ih =>
    intro hne
    obtain ⟨ts, htakes, hn'⟩ := ih (hclean.before (.advance (.refl _)))
    exact ⟨ts, _, [_], false, htakes.concat (hclosing ▸ hne), hclosing, rfl, by simp,
      .lastItem hn'⟩
  -- Sequences of statements
  case sequenceEnd =>
    intro _
    exact ⟨[], [], .refl _, by simp, .empty⟩
  case separator closing read m y s' hend hk hrest ih =>
    have hrest' : Grammatical (.sequence closing (read ++ [])) m.advance y s' := by
      rw [List.append_nil]
      exact ih hclean.advance
    exact .statements (takes_advance (by simp [hk])) (fun _ _ _ _ _ => .separator hk) hrest'
  case terminated hend hk hitem hsemicolon hrest ihitem ih =>
    have hmoves := Moves.of_reads hrest
    have hitem' := hclean.before hmoves.of_advance.of_moveOn
    rw [moveOn_of_not_error hitem (hitem'.not_error hitem)] at hsemicolon hmoves ih
    obtain ⟨ts, htakes, hn⟩ := ihitem hitem'
    refine .statements (htakes.concat (by simp [hsemicolon])) (fun _ _ _ _ _ hrest' => ?_)
      (ih (hclean.behind (.advance (.of_reads hitem))))
    rw [List.append_assoc]
    exact .terminated hn hsemicolon hrest'
  case trailing hend hk hitem hsemicolon hclosing ih =>
    intro _
    have hitem' := hclean.before (.moveOn _ (.refl _))
    rw [moveOn_of_not_error hitem (hitem'.not_error hitem)]
    obtain ⟨ts, htakes, hn⟩ := ih hitem'
    exact ⟨ts, [], htakes, by simp, .last hn⟩
  case unterminated hend hk hitem hsemicolon hclosing he hblock hrest ihitem ih =>
    have hmoves := Moves.of_reads hrest
    have hitem' := hclean.before hmoves.of_moveOn
    rw [moveOn_of_not_error hitem (hitem'.not_error hitem)] at hclosing hmoves ih
    obtain ⟨ts, htakes, hn⟩ := ihitem hitem'
    refine .statements htakes (fun _ _ tail htail hend' hrest' => ?_)
      (ih (hclean.behind (.of_reads hitem)))
    refine .unterminated hn hblock hrest' ?_
    rintro rfl
    exact hclosing ((kind_of_takes_nil htail).symm.trans hend')
  -- The other ways record a fault
  case unnamed hm _ => exact absurd (blemished_fault (.marker hm)) hclean.faultless
  case unassigned hm _ _ => exact absurd (blemished_fault (.advance (.marker hm))) hclean.faultless
  case invalidTarget hl _ hr _ _ _ _ =>
    have hmoves := (Moves.of_reads hl).trans (.of_advance (.of_reads hr))
    exact absurd (blemished_fault hmoves) hclean.faultless
  case notAlone hl _ _ _ =>
    exact absurd (blemished_fault (.advance (.of_reads hl))) hclean.faultless
  case openIndex hi _ _ _ | openBlock hi _ _ | noBlock hi _ _ _ =>
    exact absurd (blemished_fault (.of_advance (.of_reads hi))) hclean.faultless
  case refused => exact absurd (blemished_fault (.advance (.refl _))) hclean.faultless
  case invalidToken hk => exact absurd (blemished_of_error hk) hclean.faultless
  case missing => exact absurd (blemished_fault (.refl _)) hclean.faultless
  case noBranch hc _ _ ht _ _ _ _ _ =>
    have hmoves := (Moves.of_advance (.of_reads hc)).trans (.of_reads ht)
    exact absurd (blemished_fault (.advance hmoves)) hclean.faultless
  case openItems hn _ _ _ _ => exact absurd (blemished_fault (.of_reads hn)) hclean.faultless
  case unseparated hitem _ _ _ _ hrest _ _ =>
    exact absurd (blemished_fault (.moveOn _ (.of_reads hitem)))
      (hclean.not_within (.refl _) (.of_reads hrest))
  -- or go on behind an error
  case assignmentToError hl _ hr he _ _ =>
    exact absurd (hl.blemished he) (hclean.not_within (.refl _) (.of_advance (.of_reads hr)))
  case badCall hitems _ | badGroup hitems _ | badArray hitems _ =>
    have hwithin := hclean.not_within (.advance (.refl _)) (.refl _)
    exact absurd (hitems.blemished_of_items (by decide)) hwithin
  case badIndex hi he _ | badCondition hi he _ =>
    exact absurd (hi.blemished he) (hclean.not_within (.advance (.refl _)) (.refl _))
  case badBlock hc _ _ ht he _ _ =>
    exact absurd (ht.blemished he) (hclean.not_within (.of_advance (.of_reads hc)) (.refl _))
  case badBranch hc _ _ ht _ _ _ he hee _ _ _ =>
    have hmoves := (Moves.of_advance (.of_reads hc)).trans (.of_reads ht)
    exact absurd (he.blemished hee) (hclean.not_within (.advance hmoves) (.refl _))
  case badItem hn he _ => exact absurd (hn.blemished he) hclean.faultless
  case recovered hitem _ _ he hrest _ _ =>
    have hmoves := Moves.of_moveOn (.of_synchronize (.of_reads hrest))
    exact absurd (hitem.blemished he) (hclean.not_within (.refl _) hmoves)

/-- The statements of a text without faults, and the tokens that are consumed for them. -/
theorem Reads.program {room : Nat} {lx : Lexer} {text : List Char} {read : List Node}
    {last : Option Node}
    (h : Reads room (.sequence .eof []) (.ofSupply (.lexer lx) text) (.sequence read last) s')
    (hclean : Clean (.ofSupply (.lexer lx) text) s') :
    Program lx.tokens.1 (read ++ last.toList) := by
  obtain ⟨ts, rest, htakes, hread, hbody⟩ := h.grammatical hclean h.ends
  have hpending : s'.pending = [] := if_pos h.ends
  have htokens : lx.tokens.1 = ts := by
    rw [Takes, pending_ofSupply, hpending, List.append_nil] at htakes
    exact htakes
  rw [htokens]
  exact ⟨read, last, rfl, hread ▸ hbody⟩

end Grammar

open Grammar

/-- A text without diagnostics is read by a run without faults. -/
theorem Reading.reads_of_ok {text : List Char} (h : (ofText text).ok = true) :
    ∃ read last s',
      Reads 978 (.sequence .eof []) (.ofSupply (.lexer (Lexer.ofText text)) text)
          (.sequence read last) s' ∧
        (ofText text).statements = read ++ last.toList ∧
        Clean (.ofSupply (.lexer (Lexer.ofText text)) text) s' := by
  have hcontains := containsErrors_of_ok h
  obtain ⟨read, last, s', hreads, hrun⟩ | ⟨m, hrun⟩ :=
    program_cases 978 (.ofSupply (.lexer (Lexer.ofText text)) text)
  · rw [ofText_eq hrun] at hcontains ⊢
    refine ⟨read, last, s', hreads, rfl, ?_, ?_⟩
    · have hbefore := hreads.errors_iff trivial
      simpa only [Yield.nodes, Task.nodes, Node.containsErrors_nil, hcontains, Bool.false_eq_true,
        false_or, false_iff] using hbefore
    · rw [pending_ofSupply]
      exact Lexer.tokens_numeric _
  · rw [ofText_eq hrun] at hcontains
    exact absurd ((errors_of_giveUp m).1.symm.trans hcontains) (by decide)

/-- The tokens of a text without diagnostics derive the statements that it is read as. -/
theorem read_text_is_grammatical {text : List Char} (h : (Reading.ofText text).ok = true) :
    Language.Program (lex text).1 (Reading.ofText text).statements := by
  obtain ⟨read, last, s', hreads, hstatements, hclean⟩ := Reading.reads_of_ok h
  rw [hstatements]
  exact hreads.program hclean

/-- Both sorts of chains, a block and a conditional that need no semicolon, and a binding
for an operand. -/
theorem read_mixed_text_is_grammatical :
    let text := "let mut x = 1 + 2 + 3; if a or b or c { f(x,)[0] } { ; } (1 * let y = 2, not z)".toList
    (Reading.ofText text).ok = true ∧
      Language.Program (lex text).1 (Reading.ofText text).statements :=
  ⟨by decide +kernel, read_text_is_grammatical (by decide +kernel)⟩

end Scriptlet
