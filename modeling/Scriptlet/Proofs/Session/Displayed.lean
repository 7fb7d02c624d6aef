import Scriptlet.Proofs.Grammar.Consumed
import Scriptlet.Proofs.Grammar.Grammatical
import Scriptlet.Proofs.Grammar.Nesting
import Scriptlet.Proofs.Session.Outcome
import Scriptlet.Proofs.Value.Fit
import Scriptlet.Proofs.Value.Written

/-!
# What is displayed can be read again

The text of a value is an expression that is evaluated to the same value, whatever is bound
in the session, with two exceptions. The least integer has no literal, since its number
without the sign is out of range. An empty tuple looks like the unit and is read as that.

The proof follows the values: the words of each are an expression whose tree denotes the
value. How much room there is for the evaluation is known from the reading.
-/

namespace Scriptlet

open Scriptlet.Parser Scriptlet.Grammar

namespace Eval

open ExceptT (outcome_bind)

variable {α β : Type} {x : Eval α} {P : α → Prop} {Q : β → Prop}

/-- From every session the evaluation comes to something with the property, and leaves the
session as it was, but for the marks in use. -/
def Quiet (x : Eval α) (P : α → Prop) : Prop :=
  ∀ s, ∃ a m, x.outcome s = (.ok a, { s with nextMark := m }) ∧ P a

theorem quiet_pure {a : α} (h : P a) : Quiet (pure a) P := fun s => ⟨a, s.nextMark, rfl, h⟩

theorem Quiet.bind {f : α → Eval β} (h : Quiet x P) (hf : ∀ a, P a → Quiet (f a) Q) :
    Quiet (x >>= f) Q := by
  intro s
  obtain ⟨a, m, hx, ha⟩ := h s
  obtain ⟨b, m', hb, hQ⟩ := hf a ha { s with nextMark := m }
  refine ⟨b, m', ?_, hQ⟩
  rw [outcome_bind, hx]
  exact hb

theorem Quiet.imp {R : α → Prop} (h : Quiet x P) (hPR : ∀ a, P a → R a) : Quiet x R := by
  intro s
  obtain ⟨a, m, hx, ha⟩ := h s
  exact ⟨a, m, hx, hPR a ha⟩

theorem quiet_made {v : Value} {P : Value → Prop} (h : ∀ m, P (v.withMark m)) :
    Quiet (made v) P := fun s => ⟨v.withMark s.nextMark, s.nextMark + 1, rfl, h _⟩

/-- If each node comes to what is right for its counterpart, so does the list of them. -/
theorem quiet_mapM {γ : Type} {P : γ → Value → Prop} {f : Node → Eval Value} {cs : List γ}
    {ns : List Node} (h : List.Forall₂ (fun c n => Quiet (f n) (P c)) cs ns) :
    Quiet (ns.mapM f) (List.Forall₂ P cs) := by
  induction h with
  | nil => exact quiet_pure .nil
  | cons hn _ ih =>
    rw [mapM_cons]
    exact hn.bind fun v hv => ih.bind fun vs hvs => quiet_pure (.cons hv hvs)

end Eval

open Eval (Quiet quiet_pure quiet_made quiet_mapM)

namespace Value

/-- Is `w` what comes back for `v`? It is the same, unless there is an empty tuple in `v`. -/
structure Returns (v w : Value) : Prop where
  same : w.same v = !v.holds isEmptyTuple
  regular : isOneOdd w v = false

theorem returns_all {vs ws : List Value} (h : List.Forall₂ Returns vs ws) :
    sameAll ws vs = !vs.any (holds isEmptyTuple) := by
  induction h with
  | nil => rfl
  | cons hvw _ ih =>
    rw [sameAll, ih, hvw.same, hvw.regular, Bool.or_false, List.any_cons, Bool.not_or]

end Value

namespace Node

open Value (Returns)

/-- In enough room for its rows, the node is evaluated to what comes back for the value. -/
def Denotes (n : Node) (v : Value) : Prop :=
  ∀ room, 3 * n.rows + 4 ≤ room → Quiet (eval room n) (Returns v)

section Leaves

variable {p q : Position} {P : Value → Prop}

/-- A rule that evaluates no other node needs no room but its own. -/
theorem quiet_leaf {n : Node} {x : Eval Value} (hx : Quiet x P)
    (hrule : ∀ room call within, Eval.rule room call within n = x) (room : Nat) :
    Quiet (eval (room + 2) n) P := by
  have heval : eval (room + 2) n = x := by
    cases room <;> exact hrule ..
  rwa [heval]

theorem quiet_integer {n : Int} (hn : Value.inRange n = true) (room : Nat) :
    Quiet (eval (room + 2) (.make .integer p (.int n) [])) (· = .integer n) := by
  have hliteral : Value.ofNumber (.whole n) = .ok (.integer n) := if_pos hn
  refine quiet_leaf (x := Eval.made (.integer n)) (quiet_made fun _ => rfl) (fun _ _ _ => ?_) room
  change Eval.integerLiteral.inRange (.whole n) = _
  rw [Eval.integerLiteral.inRange, hliteral]

theorem Denotes.of_leaf {n : Node} {v : Value} (h : ∀ room, Quiet (eval (room + 2) n) (· = v))
    (hsame : v.same v = true) (hregular : Value.isOneOdd v v = false)
    (hempty : v.holds Value.isEmptyTuple = false) : n.Denotes v := by
  intro room hroom
  obtain ⟨room, rfl⟩ : ∃ r, room = r + 2 := ⟨room - 2, by omega⟩
  refine (h room).imp ?_
  rintro w rfl
  exact ⟨by rw [hsame, hempty]; rfl, hregular⟩

theorem denotes_integer {n : Int} (hn : Value.inRange n = true) :
    (make .integer p (.int n) []).Denotes (.integer n) :=
  .of_leaf (quiet_integer hn) (decide_eq_true rfl) rfl rfl

/-- The sign of a negative integer is an operator on the number. -/
theorem denotes_negative {n : Int} (hn : Value.inRange n = true)
    (hneg : Value.inRange (-n) = true) :
    (make .unary p (.text UnaryOp.negate.name) [make .integer q (.int n) []]).Denotes
      (.integer (-n)) := by
  intro room hroom
  obtain ⟨room, rfl⟩ : ∃ r, room = r + 1 + 3 := ⟨room - 4, by omega⟩
  have hvalue : Value.unary UnaryOp.negate.name (.integer n) = .ok (.integer (-n)) := by
    have hfit : (Value.integer n).Fit := trivial
    rw [Value.unary_eq .negate hfit, Value.applyUnary, Value.checked, if_pos hneg]
    rfl
  change Quiet (Eval.unary (eval (room + 2)) _) _
  refine (quiet_integer hn room).bind ?_
  rintro w rfl
  change Quiet (Eval.ofAny _ (Value.unary UnaryOp.negate.name (.integer n)) >>= Eval.made) _
  rw [hvalue]
  refine quiet_made fun _ => ⟨?_, rfl⟩
  simp [Value.withMark, Value.same, Value.holds, Value.isEmptyTuple]

theorem denotes_bool (b : Bool) : (make .bool p (.bool b) []).Denotes (.bool b) :=
  .of_leaf (quiet_leaf (x := pure (.bool b)) (quiet_pure rfl) fun _ _ _ => rfl)
    (decide_eq_true rfl) rfl rfl

theorem denotes_string (text : String) : (make .string p (.text text) []).Denotes (.string text) :=
  .of_leaf (quiet_leaf (quiet_made fun _ => rfl) fun _ _ _ => rfl) (decide_eq_true rfl) rfl rfl

theorem denotes_unit : (make .unit p .absent []).Denotes .unit :=
  .of_leaf (quiet_leaf (quiet_pure rfl) fun _ _ _ => rfl) rfl rfl rfl

/-- The unit comes back for an empty tuple, and differs from it. -/
theorem denotes_emptyTuple (m : Nat) : (make .unit p .absent []).Denotes (.tuple [] m) := by
  intro room hroom
  obtain ⟨room, rfl⟩ : ∃ r, room = r + 2 := ⟨room - 2, by omega⟩
  refine quiet_leaf (quiet_pure ?_) (fun _ _ _ => rfl) room
  exact ⟨rfl, rfl⟩

end Leaves

section Rows

variable {p : Position} {vs : List Value} {ns : List Node} {m : Nat}

/-- The items of a row are evaluated with three levels less than the row. -/
theorem quiet_items (h : List.Forall₂ (fun v n => n.Denotes v) vs ns) {room : Nat}
    (hroom : 3 * rowsOfAll ns + 4 ≤ room) :
    Quiet (ns.mapM (eval room)) (List.Forall₂ Returns vs) := by
  refine quiet_mapM ?_
  induction h with
  | nil => exact .nil
  | cons hn _ ih =>
    rw [rowsOfAll_cons] at hroom
    exact .cons (hn room (by omega)) (ih (by omega))

/-- A row is made of what comes back for its items. -/
theorem denotes_row {k : Kind} {v : Value} (row : List Value → Value) (hk : isRow k = true)
    (hrule : ∀ room call within, Eval.rule room call within (make k p .absent ns) =
      do Eval.made (row (← ns.mapM within)))
    (hreturns : ∀ ws m, List.Forall₂ Returns vs ws → Returns v ((row ws).withMark m))
    (h : List.Forall₂ (fun v n => n.Denotes v) vs ns) : (make k p .absent ns).Denotes v := by
  intro room hroom
  have hrows : (make k p .absent ns).rows = rowsOfAll ns + 1 := by simp [rows_make, ofValue, hk]
  obtain ⟨room, rfl⟩ : ∃ r, room = r + 3 := ⟨room - 3, by omega⟩
  rw [eval, hrule]
  exact (quiet_items h (by omega)).bind fun ws hws => quiet_made fun m => hreturns ws m hws

theorem denotes_tuple (hne : vs ≠ []) (h : List.Forall₂ (fun v n => n.Denotes v) vs ns) :
    (make .tuple p .absent ns).Denotes (.tuple vs m) := by
  refine denotes_row (.tuple · 0) rfl (fun _ _ _ => rfl) (fun ws _ hws => ⟨?_, rfl⟩) h
  obtain ⟨v, vs, rfl⟩ := List.exists_cons_of_ne_nil hne
  rw [Value.withMark, Value.same, Value.returns_all hws, Value.holds_eq]
  rfl

theorem denotes_array (h : List.Forall₂ (fun v n => n.Denotes v) vs ns) :
    (make .array p .absent ns).Denotes (.array vs m) := by
  refine denotes_row (.array · 0) rfl (fun _ _ _ => rfl) (fun ws _ hws => ⟨?_, rfl⟩) h
  rw [Value.withMark, Value.same, Value.returns_all hws, Value.holds_eq]
  rfl

end Rows

end Node

namespace Value

/-- A word that is an operand by itself. -/
theorem express_leaf {k : Token.Kind} {lexeme : List Char} {P : Node → Prop}
    (hk : k ∉ otherStarts) (hunsigned : prefixOp? k = none)
    (h : ∀ s : State, s.current.word = ⟨k, lexeme⟩ →
      ∃ n, Leaf s.current n ∧ n.isError = false ∧ P n) :
    Express [⟨k, lexeme⟩] P := by
  refine ⟨fun s s' ⟨hword, _⟩ => kind_of_word hword ▸ hk, fun s s' ⟨hword, hs'⟩ hjoin => ?_⟩
  obtain ⟨n, hleaf, he, hP⟩ := h s hword
  obtain rfl : s' = s.advance := hs'
  have hoperand : Gets (level 0) s n s.advance := .leaf hleaf
  have hn := hoperand.climb (j := 9) (by decide) (by decide)
    (fun _ => by rw [kind_of_word hword, hunsigned]) (by omega)
  exact ⟨n, hn, he, hP⟩

/-- Words in brackets that are what the first of them opens. -/
theorem express_opened {opening closing : Token.Kind} {rule : Rule} {ws : List Word}
    {P : Node → Prop} (hopening : opening ∉ otherStarts) (hopened : opened? opening = some rule)
    (h : ∀ s s', Consumes s (Word.enclosed opening closing ws) s' →
      ∃ n, Gets rule s n s' ∧ n.isError = false ∧ P n) :
    Express (Word.enclosed opening closing ws) P := by
  have hkind {s s' : State} (hwords : Consumes s (Word.enclosed opening closing ws) s') :
      s.current.kind = opening := kind_of_word (consumes_enclosed.mp hwords).1
  refine ⟨fun s s' hwords => hkind hwords ▸ hopening, fun s s' hwords hjoin => ?_⟩
  obtain ⟨n, hn, he, hP⟩ := h s s' hwords
  exact ⟨n, hn.opened_expression (hkind hwords) hopened hjoin, he, hP⟩

theorem inRange_iff {n : Int} : inRange n = true ↔ leastInteger ≤ n ∧ n ≤ greatestInteger := by
  rw [inRange, Bool.and_eq_true, decide_eq_true_iff, decide_eq_true_iff]

theorem inRange_of_le {k : Nat} (h : k ≤ greatestInteger) :
    inRange k = true ∧ inRange (-k) = true := by
  have hdistance : leastInteger = -(greatestInteger : Int) - 1 := rfl
  rw [inRange_iff, inRange_iff]
  omega

theorem express_natural {k : Nat} (hk : k ≤ greatestInteger) :
    Express [.integer k] (·.Denotes (.integer k)) :=
  express_leaf (by decide) rfl fun _ hword =>
    ⟨_, leaf_integer hword hk, rfl, Node.denotes_integer (inRange_of_le hk).1⟩

/-- The sign is read as a prefix of the number. -/
theorem express_negative {k : Nat} (hk : k ≤ greatestInteger) :
    Express [.fixed .minus, .integer k] (·.Denotes (.integer (-k))) := by
  refine ⟨fun s s' ⟨hsign, _⟩ => kind_of_word hsign ▸ by decide,
    fun s s' ⟨hsign, hword, hs'⟩ hjoin => ?_⟩
  obtain rfl : s' = s.advance.advance := hs'
  have hnumber : s.advance.current.kind = .integer := kind_of_word hword
  have hminus : prefixOp? s.current.kind = some .negate := by
    rw [kind_of_word hsign]
    rfl
  have hleaf : Gets (level 0) s.advance _ s.advance.advance := .leaf (leaf_integer hword hk)
  obtain ⟨room, hoperand⟩ := hleaf.climb (j := 2) (by decide) (by decide)
    (fun _ => by rw [hnumber]; rfl) (by omega)
  have hnegated : Gets (level 2) s _ s.advance.advance :=
    ⟨room + 1, .prefixed hminus hoperand⟩
  have hn := hnegated.climb (j := 9) (by decide) (by decide) (by omega) (by omega)
  exact ⟨_, hn, rfl, Node.denotes_negative (inRange_of_le hk).1 (inRange_of_le hk).2⟩

theorem express_integer {n : Int} (hrange : inRange n = true) (hleast : n ≠ leastInteger) :
    Express (integer n).words (·.Denotes (.integer n)) := by
  have hk : n.natAbs ≤ greatestInteger := by
    have hdistance : leastInteger = -(greatestInteger : Int) - 1 := rfl
    rw [inRange_iff] at hrange
    omega
  rw [words]
  split
  · next hneg =>
    have hn : n = -(n.natAbs : Int) := by omega
    rw [hn, Int.natAbs_neg, Int.natAbs_natCast]
    exact express_negative hk
  · next hpos =>
    have hn : n = (n.natAbs : Int) := by omega
    rw [hn, Int.natAbs_natCast]
    exact express_natural hk

/-- The words of a value without the least integer are an expression that denotes it. -/
theorem express (v : Value) (hv : v.holds isForeign = false) (hleast : v.holds isLeast = false) :
    Express v.words (·.Denotes v) := by
  induction v using Value.induction with
  | _ v ih =>
  obtain ⟨hforeign, hforeigns⟩ := holds_eq_false.mp hv
  obtain ⟨hnot, hnots⟩ := holds_eq_false.mp hleast
  have hitems : ∀ u ∈ v.items, Express u.words (·.Denotes u) :=
    fun u hu => ih u hu (hforeigns u hu) (hnots u hu)
  cases v with
  | integer n =>
    refine express_integer ?_ (of_decide_eq_false hnot)
    rwa [isForeign, Bool.not_eq_false'] at hforeign
  | bool b =>
    refine express_leaf (by cases b <;> decide) (by cases b <;> rfl) fun s hword => ?_
    exact ⟨_, leaf_bool hword, rfl, Node.denotes_bool b⟩
  | string text =>
    refine express_leaf (by decide) rfl fun s hword => ?_
    exact ⟨_, leaf_string hword, rfl, Node.denotes_string text⟩
  | unit =>
    refine express_opened (by decide) rfl fun s s' hwords => ?_
    exact ⟨_, (gets_unit hwords).1, rfl, Node.denotes_unit⟩
  | tuple vs m =>
    refine express_opened (by decide) rfl fun s s' hwords => ?_
    cases vs with
    | nil => exact ⟨_, (gets_unit hwords).1, rfl, Node.denotes_emptyTuple m⟩
    | cons v vs =>
      rw [allWords_eq_map] at hwords
      obtain ⟨ns, htuple, -, hns⟩ := gets_tuple hitems (List.cons_ne_nil v vs)
        (by split <;> simp) (fun (hone : (v :: vs).length = 1) => by simp [hone]) hwords
      exact ⟨_, htuple, rfl, Node.denotes_tuple (List.cons_ne_nil v vs) hns⟩
  | array vs m =>
    refine express_opened (by decide) rfl fun s s' hwords => ?_
    rw [allWords_eq_map] at hwords
    obtain ⟨ns, harray, -, hns⟩ := gets_array hitems hwords
    exact ⟨_, harray, rfl, Node.denotes_array hns⟩
  | float | function | misfit => cases hforeign

end Value

namespace Value

variable {v : Value}

/-- The text of a value has the words of the value, and nothing else in it. -/
theorem lex_display (hv : v.holds isForeign = false) :
    (lex v.display.toList).1.map Token.word = v.words ∧
      (lex v.display.toList).2.diagnostics = [] := by
  have hspelled : Word.Spelled (v.display.toList ++ []) (v.words ++ []) :=
    spelled_display v hv nofun (.nil .nil)
  rw [List.append_nil, List.append_nil] at hspelled
  exact lex_spelled hspelled

/-- With the least integer in it, no text of a value is read without diagnostics. -/
theorem not_least_of_ok (hv : v.holds isForeign = false)
    (hok : (Reading.ofText v.display.toList).ok = true) : v.holds isLeast = false := by
  refine eq_false_of_ne_true fun hleast => ?_
  obtain ⟨read, last, s', hreads, -, hclean⟩ := Reading.reads_of_ok hok
  obtain ⟨ns, last, -, hderives⟩ := hreads.program hclean
  have hword := mem_words_of_least hleast
  rw [← (lex_display hv).1] at hword
  obtain ⟨t, ht, hnumber⟩ := List.mem_map.mp hword
  have hvalue : Decimal.natOfDigits t.lexeme.toList = greatestInteger + 1 := by
    have hlexeme : t.lexeme.toList = Nat.toDigits 10 (greatestInteger + 1) :=
      congrArg Word.lexeme hnumber
    rw [hlexeme, Decimal.natOfDigits_toDigits]
  have hle := hderives.holdable t ht (kind_of_word hnumber)
  omega

/-- The text of any other value is read as one statement that the value comes back from. -/
theorem display_is_read (hv : v.holds isForeign = false) (hleast : v.holds isLeast = false)
    (hfits : Reading.fits (.lexer (Lexer.ofText v.display.toList)) v.display.toList = true) :
    (Reading.ofText v.display.toList).ok = true ∧
      ∃ n, (Reading.ofText v.display.toList).statements = [n] ∧
        ∀ s : Session, ∃ w m,
          s.evaluate [n] = (.value (some w), { s with nextMark := m }) ∧ v.Returns w := by
  generalize htext : v.display.toList = text at hfits ⊢
  generalize hstart : State.ofSupply (.lexer (Lexer.ofText text)) text = start
  have hlex := lex_display hv
  rw [htext] at hlex
  have hpending : start.pending.map Token.word = v.words := by
    rw [← hstart, pending_ofSupply]
    exact hlex.1
  obtain ⟨s', hwords, heof⟩ := consumes_pending hpending
  obtain ⟨room, n, hreads, hdenotes⟩ := (express v hv hleast).program hwords heof
  have hclean : s'.diagnostics = [] := by
    rw [diagnostics_of_consumes hwords, ← hstart]
    rfl
  rw [← hstart] at hreads
  obtain ⟨hok, hstatements, hroom⟩ := Reading.ofText_reads hfits hreads hlex.2 hclean
  refine ⟨hok, n, hstatements, fun s => ?_⟩
  have herrors : Node.containsErrors [n] = false := by
    have hnone := Reading.containsErrors_of_ok hok
    rwa [hstatements] at hnone
  -- What the rules had room for is shallow enough to be evaluated.
  have hrows : 3 * n.rows + 4 ≤ evaluationLimit := by
    have hrows := hroom.rows (Nat.le_refl _) Grammar.within_nil
    simp only [Grammar.Within, Yield.nodes_sequence, Option.toList_some, List.nil_append,
      Node.rowsOfAll_nil, Node.rowsOfAll_cons, Task.slack] at hrows
    have hlimit : evaluationLimit = 980 := rfl
    omega
  obtain ⟨w, m, heval, hw⟩ := hdenotes evaluationLimit hrows s
  refine ⟨w, m, ?_, hw⟩
  rw [Session.evaluate_eq herrors, Eval.outcome_statements_cons, Eval.outcome_statement, heval]
  rfl

end Value

/-- Let the rules have room for the text of a value that is made of 64-bit integers, truth
values, strings, the unit, tuples and arrays. In every session, the text is read without
diagnostics, as one statement that comes to the same value and changes nothing but the marks
in use, if and only if neither the least integer nor an empty tuple stands in the value. -/
theorem display_is_source_text {v : Value} (hv : v.holds Value.isForeign = false)
    (hfits : Reading.fits (.lexer (Lexer.ofText v.display.toList)) v.display.toList = true)
    (s : Session) :
    ((Reading.ofText v.display.toList).ok = true ∧
      ∃ n w m, (Reading.ofText v.display.toList).statements = [n] ∧
        s.evaluate [n] = (.value (some w), { s with nextMark := m }) ∧ w.same v = true) ↔
      v.holds Value.isLeast = false ∧ v.holds Value.isEmptyTuple = false := by
  constructor
  · rintro ⟨hok, n, w, m, hstatements, hevaluate, hsame⟩
    have hleast := Value.not_least_of_ok hv hok
    refine ⟨hleast, ?_⟩
    obtain ⟨-, n', hstatements', hreturns⟩ := Value.display_is_read hv hleast hfits
    obtain rfl : n = n' := List.singleton_inj.mp (hstatements.symm.trans hstatements')
    obtain ⟨w', m', hevaluate', hw⟩ := hreturns s
    obtain rfl : w = w' := by
      have hresult := congrArg Prod.fst (hevaluate.symm.trans hevaluate')
      simpa using hresult
    rw [hw.same] at hsame
    simpa using hsame
  · rintro ⟨hleast, hempty⟩
    obtain ⟨hok, n, hstatements, hreturns⟩ := Value.display_is_read hv hleast hfits
    obtain ⟨w, m, hevaluate, hw⟩ := hreturns s
    exact ⟨hok, n, w, m, hstatements, hevaluate, by rw [hw.same, hempty]; rfl⟩

/-- A negative number, a string with escapes in a tuple of one item, and an empty array. -/
theorem display_of_mixed_rows_is_source_text :
    let v : Value := .array [.integer (-5), .tuple [.string "a\"\n"] 1, .array [] 2,
      .tuple [.bool true, .unit] 3] 4
    v.holds Value.isForeign = false ∧
      Reading.fits (.lexer (Lexer.ofText v.display.toList)) v.display.toList = true ∧
      (Reading.ofText v.display.toList).ok = true ∧
      ∃ n w m, (Reading.ofText v.display.toList).statements = [n] ∧
        Session.withBuiltins.evaluate [n] =
          (.value (some w), { Session.withBuiltins with nextMark := m }) ∧ w.same v = true := by
  intro v
  have hv : v.holds Value.isForeign = false := by decide
  have hfits : Reading.fits (.lexer (Lexer.ofText v.display.toList)) v.display.toList = true := by
    decide +kernel
  exact ⟨hv, hfits, (display_is_source_text hv hfits .withBuiltins).mpr ⟨by decide, by decide⟩⟩

example : (Reading.ofText (Value.integer Value.leastInteger).display.toList).ok = false := by
  decide +kernel

end Scriptlet
