import Mathlib.Data.List.Forall2
import Scriptlet.Proofs.Grammar.Room
import Scriptlet.Proofs.Tree.Printing

/-!
# Reading words

What a parser with enough room reads in front of given words: the operand that one word
stands for, and the items, the tuple or the array that are made of words which are
expressions themselves. An operand climbs through the levels of operators up to the one that
the next token is for, or to the top where that token is for none.

Nothing is said about how much room that takes.
-/

namespace Scriptlet

open Scriptlet.Parser

namespace Grammar

variable {s m s' : State}

/-- The words are consumed one by one. -/
def Consumes : State → List Word → State → Prop
  | s, [], s' => s' = s
  | s, w :: ws, s' => s.current.word = w ∧ Consumes s.advance ws s'

theorem consumes_append {ws vs : List Word} :
    Consumes s (ws ++ vs) s' ↔ ∃ m, Consumes s ws m ∧ Consumes m vs s' := by
  induction ws generalizing s with
  | nil => simp [Consumes]
  | cons w ws ih => simp [Consumes, ih, and_assoc]

theorem consumes_enclosed {opening closing : Token.Kind} {ws : List Word} :
    Consumes s (Word.enclosed opening closing ws) s' ↔
      s.current.word = .fixed opening ∧
        ∃ m, Consumes s.advance ws m ∧ m.current.word = .fixed closing ∧ s' = m.advance := by
  simp [Word.enclosed, Consumes, consumes_append]

theorem kind_of_word {t : Token} {w : Word} (h : t.word = w) : t.kind = w.kind :=
  congrArg Word.kind h

/-- The words of the tokens that are to come can be consumed. -/
theorem consumes_pending {ws : List Word} (h : s.pending.map Token.word = ws) :
    ∃ s', Consumes s ws s' ∧ s'.current.kind = .eof := by
  induction ws generalizing s with
  | nil =>
    refine ⟨s, rfl, by_contra fun hk => ?_⟩
    rw [State.pending, if_neg hk] at h
    cases h
  | cons w ws ih =>
    by_cases hk : s.current.kind = .eof
    · rw [State.pending, if_pos hk] at h
      cases h
    · have hpending : s.pending = s.current :: s.supply.pending := if_neg hk
      have hadvance : s.advance.pending = s.supply.pending := by
        rw [pending_advance, hpending, List.tail_cons]
      rw [hpending] at h
      obtain ⟨hw, hws⟩ := List.cons.inj h
      obtain ⟨s', hs', heof⟩ := ih (hadvance ▸ hws)
      exact ⟨s', ⟨hw, hs'⟩, heof⟩

theorem diagnostics_of_consumes {ws : List Word} (h : Consumes s ws s') :
    s'.diagnostics = s.diagnostics := by
  induction ws generalizing s with
  | nil => exact congrArg State.diagnostics h
  | cons w ws ih => exact (ih h.2).trans (diagnostics_advance s)

/-- With enough room the rule reads the node. -/
def Gets (rule : Rule) (s : State) (n : Node) (s' : State) : Prop :=
  ∃ room, Reads room (.rule rule) s (.node n) s'

/-- What is read with enough room each is read with the same room. -/
theorem common_room {room room' : Nat} {task task' : Task} {y y' : Yield} {q q' : State}
    (h : Reads room task s y s') (h' : Reads room' task' q y' q') :
    ∃ larger, Reads larger task s y s' ∧ Reads larger task' q y' q' :=
  ⟨max room room', h.mono (Nat.le_max_left ..), h'.mono (Nat.le_max_right ..)⟩

theorem Gets.both {rule rule' : Rule} {n n' : Node} {q q' : State} (h : Gets rule s n s')
    (h' : Gets rule' q n' q') :
    ∃ room, Reads room (.rule rule) s (.node n) s' ∧ Reads room (.rule rule') q (.node n') q' := by
  obtain ⟨room, h⟩ := h
  obtain ⟨room', h'⟩ := h'
  exact common_room h h'

/-- The levels of expressions, from operands outwards. -/
def level : Nat → Rule
  | 0 => .operand
  | 1 => .applied
  | 2 => .prefixed
  | 3 => .product
  | 4 => .sum
  | 5 => .equality
  | 6 => .conjunction
  | 7 => .disjunction
  | 8 => .assignment
  | _ => .expression

/-- The level at which a token goes on with what was read before it, 10 if there is none. -/
def joinLevel : Token.Kind → Nat
  | .leftParen | .leftBracket => 1
  | .times | .divide => 3
  | .plus | .minus => 4
  | .equal | .notEqual | .kwIn | .kwNot => 5
  | .kwAnd => 6
  | .kwOr => 7
  | .assign | .plusAssign | .minusAssign | .timesAssign | .divideAssign => 8
  | _ => 10

/-- A token that joins further out does not go on with any level up to there. -/
theorem joinLevel_facts (k : Token.Kind) :
    (1 < joinLevel k → k ≠ .leftParen ∧ k ≠ .leftBracket) ∧
      (3 < joinLevel k → productOp? k = none) ∧ (4 < joinLevel k → sumOp? k = none) ∧
      (5 < joinLevel k → k ∉ [.equal, .notEqual, .kwIn, .kwNot]) ∧
      (6 < joinLevel k → k ≠ .kwAnd) ∧ (7 < joinLevel k → k ≠ .kwOr) ∧
      (8 < joinLevel k → assignOp? k = none) := by
  cases k <;> simp [joinLevel, productOp?, sumOp?, assignOp?]

section Climb

variable {n : Node} {i j : Nat}

theorem Gets.climb_one (h : Gets (level i) s n s') (hi : i < 9)
    (hstart : i ≤ 1 → prefixOp? s.current.kind = none)
    (hjoin : i + 1 < joinLevel s'.current.kind) : Gets (level (i + 1)) s n s' := by
  obtain ⟨room, h⟩ := h
  obtain ⟨happly, hproduct, hsum, hequality, hand, hor, hassign⟩ :=
    joinLevel_facts s'.current.kind
  refine ⟨room + 1, ?_⟩
  match i, hi with
  | 0, _ =>
    cases hend : endsOperand n with
    | true => exact .unapplied h hend
    | false => exact .applied h hend (.applicationsEnd (happly hjoin).1 (happly hjoin).2)
  | 1, _ => exact .unprefixed (hstart (Nat.le_refl 1)) h
  | 2, _ => exact .chainless .product h (hproduct hjoin) nofun
  | 3, _ => exact .chainless .sum h (hsum hjoin) nofun
  | 4, _ =>
    have hk := hequality hjoin
    simp only [List.mem_cons, List.not_mem_nil, or_false, not_or] at hk
    refine .chainless .equality h ?_ fun _ => hk.2.2.2
    split <;> simp_all
  | 5, _ => exact .conjunction h (.chainEnd (hand hjoin))
  | 6, _ => exact .disjunction h (.chainEnd (hor hjoin))
  | 7, _ => exact .unassigning h (hassign hjoin)
  | 8, _ => exact .expression h

/-- What is read at one level is read at any level further out, as long as the token behind
it goes on with none of them. -/
theorem Gets.climb (h : Gets (level i) s n s') (hij : i ≤ j) (hj : j ≤ 9)
    (hstart : i ≤ 1 → prefixOp? s.current.kind = none)
    (hjoin : j < joinLevel s'.current.kind) : Gets (level j) s n s' := by
  induction j, hij using Nat.le_induction with
  | base => exact h
  | succ j hij ih =>
    have hbelow := ih (Nat.le_of_succ_le hj) (Nat.lt_of_succ_lt hjoin)
    exact hbelow.climb_one hj (fun hle => hstart (Nat.le_trans hij hle)) hjoin

end Climb

section Operands

variable {n : Node}

theorem prefixOp?_of_opened {k : Token.Kind} {rule : Rule} (h : opened? k = some rule) :
    prefixOp? k = none := by
  unfold opened? at h
  split at h <;> first | rfl | cases h

/-- What its first token opens is an operand. -/
theorem Gets.opened {rule : Rule} {k : Token.Kind} (h : Gets rule s n s')
    (hk : s.current.kind = k) (hopened : opened? k = some rule) : Gets .operand s n s' := by
  obtain ⟨room, h⟩ := h
  exact ⟨room + 1, .compound (hk ▸ hopened) h⟩

/-- Where no operator goes on with it, it is an expression. -/
theorem Gets.opened_expression {rule : Rule} {k : Token.Kind} (h : Gets rule s n s')
    (hk : s.current.kind = k) (hopened : opened? k = some rule)
    (hjoin : joinLevel s'.current.kind = 10) : Gets .expression s n s' := by
  have hoperand : Gets (level 0) s n s' := h.opened hk hopened
  exact hoperand.climb (Nat.zero_le 9) (Nat.le_refl 9)
    (fun _ => hk ▸ prefixOp?_of_opened hopened) (by omega)

theorem Gets.leaf (h : Leaf s.current n) : Gets .operand s n s.advance := ⟨1, .leaf h⟩

theorem leaf_integer {k : Nat} (h : s.current.word = .integer k)
    (hk : k ≤ Value.greatestInteger) :
    Leaf s.current (.make .integer s.current.position (.int k) []) := by
  have hlexeme : s.current.lexeme.toList = Nat.toDigits 10 k := congrArg Word.lexeme h
  have hdigits : Decimal.Digits s.current.lexeme.toList := hlexeme ▸ Decimal.digits_toDigits k
  have hvalue : Decimal.natOfDigits s.current.lexeme.toList = k := by
    rw [hlexeme, Decimal.natOfDigits_toDigits]
  refine .integer (kind_of_word h) ((integerLiteral_iff hdigits).mpr ?_)
  rw [hvalue]
  exact ⟨rfl, Int.ofNat_le.mpr hk⟩

theorem leaf_string {text : String}
    (h : s.current.word = ⟨.string, Text.literal text.toList⟩) :
    Leaf s.current (.make .string s.current.position (.text text) []) := by
  have hlexeme : s.current.lexeme.toList = Text.literal text.toList := congrArg Word.lexeme h
  have hleaf := Leaf.string (kind_of_word h)
  rwa [hlexeme, Text.unescape_literal, String.ofList_toList] at hleaf

theorem leaf_bool {b : Bool} (h : s.current.word = .fixed (if b then .kwTrue else .kwFalse)) :
    Leaf s.current (.make .bool s.current.position (.bool b) []) := by
  cases b with
  | false => exact .false (kind_of_word h)
  | true => exact .true (kind_of_word h)

theorem leaf_name {name : String} (h : s.current.word = .name name) :
    Leaf s.current (.make .identifier s.current.position (.text name) []) := by
  have hlexeme : s.current.lexeme = name := String.toList_inj.mp (congrArg Word.lexeme h)
  exact hlexeme ▸ .identifier (kind_of_word h)

theorem gets_unit (h : Consumes s (Word.enclosed .leftParen .rightParen []) s') :
    Gets .group s (.make .unit s.current.position .absent []) s' ∧
      s.current.kind = .leftParen := by
  obtain ⟨hopen, m, rfl, hclose, rfl⟩ := consumes_enclosed.mp h
  exact ⟨⟨1, .unit (kind_of_word hopen) (kind_of_word hclose)⟩, kind_of_word hopen⟩

end Operands

/-- The tokens that end a list of items, and those that make a statement other than an
expression, or none. -/
def otherStarts : List Token.Kind := [
  .rightParen, .rightBracket, .kwLet, .kwReturn, .semicolon, .eof]

/-- The words are an expression with the property, wherever no operator goes on with them. -/
structure Express (ws : List Word) (P : Node → Prop) : Prop where
  starts : ∀ s s', Consumes s ws s' → s.current.kind ∉ otherStarts
  reads : ∀ s s', Consumes s ws s' → joinLevel s'.current.kind = 10 →
    ∃ n, Gets .expression s n s' ∧ n.isError = false ∧ P n

section Items

variable {α : Type} {words : α → List Word} {P : α → Node → Prop} {as : List α}
  {ending : List Word}

theorem starts_listed (has : ∀ a ∈ as, Express (words a) (P a)) (hne : as ≠ [])
    (h : Consumes s (Word.listed (as.map words) ++ ending) m) :
    s.current.kind ∉ otherStarts := by
  obtain ⟨a, as, rfl⟩ := List.exists_cons_of_ne_nil hne
  have ha := has a List.mem_cons_self
  cases as with
  | nil =>
    rw [List.map_singleton, Word.listed_singleton] at h
    obtain ⟨q, hfirst, -⟩ := consumes_append.mp h
    exact ha.starts s q hfirst
  | cons b as =>
    rw [List.map_cons, List.map_cons, Word.listed_cons_cons, List.append_assoc] at h
    obtain ⟨q, hfirst, -⟩ := consumes_append.mp h
    exact ha.starts s q hfirst

/-- Items are read up to the closing token, whether or not a comma stands behind the last
one. -/
theorem reads_listed {closing : Token.Kind} (glyph : String)
    (has : ∀ a ∈ as, Express (words a) (P a)) (hclosing : closing ∈ [.rightParen, .rightBracket])
    (hending : ending = [] ∨ (ending = [.fixed .comma] ∧ as ≠ []))
    (hwords : Consumes s (Word.listed (as.map words) ++ ending) m)
    (hm : m.current.kind = closing) (read : List Node) (comma : Bool) :
    ∃ room ns more, Reads room (.items closing glyph read comma) s (.items (read ++ ns) more)
        m.advance ∧
      List.Forall₂ P as ns ∧ (ending ≠ [] → more = true) := by
  have hjoin : closing ≠ .comma ∧ joinLevel closing = 10 ∧ closing ∈ otherStarts := by
    simp only [List.mem_cons, List.not_mem_nil, or_false] at hclosing
    rcases hclosing with rfl | rfl <;> decide
  induction as generalizing s read comma with
  | nil =>
    obtain rfl := hending.resolve_right fun h => h.2 rfl
    obtain rfl : m = s := hwords
    exact ⟨0, [], comma, by rw [List.append_nil]; exact .itemsEnd hm, .nil, fun h => absurd rfl h⟩
  | cons a as ih =>
    obtain ⟨ha, has⟩ := List.forall_mem_cons.mp has
    have hopen {q : State} (hfirst : Consumes s (words a) q) : s.current.kind ≠ closing :=
      fun heq => ha.starts s q hfirst (heq ▸ hjoin.2.2)
    cases as with
    | nil =>
      rw [List.map_singleton, Word.listed_singleton] at hwords
      obtain ⟨q, hfirst, hrest⟩ := consumes_append.mp hwords
      rcases hending with rfl | ⟨rfl, -⟩
      · obtain rfl : m = q := hrest
        obtain ⟨n, ⟨room, hn⟩, he, hP⟩ := ha.reads s m hfirst (hm ▸ hjoin.2.1)
        exact ⟨room, [n], comma, .lastItem (hopen hfirst) hn he (hm ▸ hjoin.1) hm,
          .cons hP .nil, fun h => absurd rfl h⟩
      · obtain ⟨hcomma, rfl⟩ := hrest
        have hk := kind_of_word hcomma
        obtain ⟨n, ⟨room, hn⟩, he, hP⟩ := ha.reads s q hfirst (by rw [hk]; rfl)
        exact ⟨room, [n], true, .item (hopen hfirst) hn he hk (.itemsEnd hm),
          .cons hP .nil, fun _ => rfl⟩
    | cons b as =>
      rw [List.map_cons, List.map_cons, Word.listed_cons_cons, List.append_assoc,
        List.cons_append] at hwords
      obtain ⟨q, hfirst, hcomma, hrest⟩ := consumes_append.mp hwords
      have hk := kind_of_word hcomma
      obtain ⟨n, ⟨room, hn⟩, he, hP⟩ := ha.reads s q hfirst (by rw [hk]; rfl)
      obtain ⟨room', ns, more, hns, hPs, hmore⟩ :=
        ih has (hending.imp_right fun h => ⟨h.1, List.cons_ne_nil _ _⟩) hrest (read ++ [n]) true
      obtain ⟨larger, hn, hns⟩ := common_room hn hns
      rw [List.append_assoc] at hns
      exact ⟨larger, n :: ns, more, .item (hopen hfirst) hn he hk hns, .cons hP hPs, hmore⟩

/-- Items in parentheses are a tuple, unless there is one only and no comma. -/
theorem gets_tuple (has : ∀ a ∈ as, Express (words a) (P a)) (hne : as ≠ [])
    (hending : ending = [] ∨ ending = [.fixed .comma]) (hone : as.length = 1 → ending ≠ [])
    (h : Consumes s
      (Word.enclosed .leftParen .rightParen (Word.listed (as.map words) ++ ending)) s') :
    ∃ ns, Gets .group s (.make .tuple s.current.position .absent ns) s' ∧
      s.current.kind = .leftParen ∧ List.Forall₂ P as ns := by
  obtain ⟨hopen, m, hitems, hclose, rfl⟩ := consumes_enclosed.mp h
  -- With no item these would be the words of the unit.
  have hfirst : s.advance.current.kind ≠ .rightParen :=
    fun heq => starts_listed has hne hitems (by rw [heq]; decide)
  obtain ⟨room, ns, more, hns, hPs, hmore⟩ := reads_listed "`)`" has (by decide)
    (hending.imp_right fun h => ⟨h, hne⟩) hitems (kind_of_word hclose) [] false
  refine ⟨ns, ⟨room + 1 + 1, .tuple (kind_of_word hopen) hfirst hns fun hlength => ?_⟩,
    kind_of_word hopen, hPs⟩
  exact hmore (hone (hPs.length_eq.trans hlength))

theorem gets_array (has : ∀ a ∈ as, Express (words a) (P a))
    (h : Consumes s (Word.enclosed .leftBracket .rightBracket (Word.listed (as.map words))) s') :
    ∃ ns, Gets .array s (.make .array s.current.position .absent ns) s' ∧
      s.current.kind = .leftBracket ∧ List.Forall₂ P as ns := by
  obtain ⟨hopen, m, hitems, hclose, rfl⟩ := consumes_enclosed.mp h
  rw [← List.append_nil (Word.listed _)] at hitems
  obtain ⟨room, ns, more, hns, hPs, -⟩ := reads_listed "`]`" has (by decide) (.inl rfl) hitems
    (kind_of_word hclose) [] false
  exact ⟨ns, ⟨room + 1 + 1, .array (kind_of_word hopen) hns⟩, kind_of_word hopen, hPs⟩

end Items

/-- One expression is a program. -/
theorem Express.program {ws : List Word} {P : Node → Prop} (h : Express ws P)
    (hwords : Consumes s ws s') (heof : s'.current.kind = .eof) :
    ∃ room n, Reads room (.sequence .eof []) s (.sequence [] (some n)) s' ∧ P n := by
  have hstarts := h.starts s s' hwords
  simp only [otherStarts, List.mem_cons, List.not_mem_nil, or_false, not_or] at hstarts
  obtain ⟨-, -, hlet, hreturn, hsemicolon, hend⟩ := hstarts
  obtain ⟨n, ⟨room, hn⟩, he, hP⟩ := h.reads s s' hwords (by rw [heof]; rfl)
  have hstatement := Reads.expressionStatement hlet hreturn hn
  have hmoved : moveOn s.consumed s' = s' := moveOn_of_not_error hstatement he
  have hprogram : Reads (room + 1) (.sequence .eof []) s (.sequence [] (some n))
      (moveOn s.consumed s') :=
    .trailing (by simp [hend]) hsemicolon hstatement (by simp [hmoved, heof])
      (by rw [hmoved, heof])
  rw [hmoved] at hprogram
  exact ⟨room + 1, n, hprogram, hP⟩

end Grammar

open Grammar

/-- Where a text fits, any derivation that is found for it is how it is read. -/
theorem Reading.ofText_reads {text : List Char} {room : Nat} {ns : List Node}
    {last : Option Node} {s : State} (hfits : fits (.lexer (Lexer.ofText text)) text = true)
    (h : Reads room (.sequence .eof []) (.ofSupply (.lexer (Lexer.ofText text)) text)
      (.sequence ns last) s)
    (hlexical : (lex text).2.diagnostics = []) (hfaults : s.diagnostics = []) :
    (ofText text).ok = true ∧ (ofText text).statements = ns ++ last.toList ∧
      Reads 978 (.sequence .eof []) (.ofSupply (.lexer (Lexer.ofText text)) text)
        (.sequence ns last) s := by
  obtain ⟨read, last', s', hreads⟩ := fits_iff.mp hfits
  obtain ⟨larger, hreads', hfound⟩ := common_room hreads h
  obtain ⟨rfl, rfl, rfl⟩ := hreads'.unique hfound
  have hsupply := hreads.supply_diagnostics.trans hlexical
  have hrun := ofText_eq (program_eq hreads)
  rw [hsupply, hfaults, List.append_nil] at hrun
  rw [hrun]
  exact ⟨by simp [ok, Diagnostic.ordered], rfl, hreads⟩

end Scriptlet
