import Mathlib.Data.List.Nodup
import Scriptlet.Proofs.Grammar.Layout
import Scriptlet.Proofs.Grammar.Lazy
import Scriptlet.Proofs.Grammar.Matching
import Scriptlet.Proofs.Grammar.Order
import Scriptlet.Proofs.Token.Reported

/-!
# Who reports an error token

The lexer reports each error token once. A parser passes over those that it comes to where it
looks for an operand. Elsewhere it complains again: behind an operand, where it looks for
something that may follow, and at the start of an operation, when that is assigned to.
-/

namespace Scriptlet

open Scriptlet.Parser
open Token (Rising rising_cons rising_append)

/-- Tokens that lie one behind the other are told apart by their positions. -/
theorem Token.Rising.split_unique {ts front behind front' behind' : List Token} {t t' : Token}
    (h : Rising ts) (hsplit : ts = front ++ t :: behind) (hsplit' : ts = front' ++ t' :: behind')
    (hposition : t.position = t'.position) : front = front' ∧ t = t' ∧ behind = behind' := by
  have hsides {front behind : List Token} {u : Token} (hsplit : ts = front ++ u :: behind) :
      (∀ a ∈ front, decide (a.position.index < u.position.index) = true) ∧
        ∀ a ∈ u :: behind, decide (a.position.index < u.position.index) = false := by
    obtain ⟨-, hright, hlt⟩ := rising_append.mp (hsplit ▸ h)
    refine ⟨fun a ha => by simpa using hlt a ha u List.mem_cons_self, ?_⟩
    have hbehind := (rising_cons.mp hright).1
    rw [List.forall_mem_cons]
    refine ⟨by simp, fun a ha => ?_⟩
    exact decide_eq_false (Int.not_lt.mpr (Int.le_of_lt (hbehind a ha)))
  have hfirst := hsides hsplit
  have hsecond := hsides hsplit'
  rw [← hposition] at hsecond
  obtain ⟨hfront, hrest⟩ := append_unique (hsplit.symm.trans hsplit') hfirst.1 hsecond.1
    hfirst.2 hsecond.2
  exact ⟨hfront, List.cons.inj hrest⟩

namespace Lexer

/-- Where an error token starts, the lexer reports once. -/
theorem reports_once {text : List Char} {t : Token} (ht : t ∈ (lex text).1)
    (hk : t.kind = .error) : (lex text).2.diagnostics.countP (·.position = t.position) = 1 := by
  have hreported := reported_lex text
  obtain ⟨d, hd, hreport⟩ := hreported.of_error ht hk
  have hmem : t.position ∈ (lex text).2.diagnostics.map Diagnostic.position := by
    rw [← hreport.position]
    exact List.mem_map_of_mem hd
  have hnodup : ((lex text).2.diagnostics.map Diagnostic.position).Nodup := by
    refine hreported.rising.map _ fun d e hlt heq => ?_
    rw [heq] at hlt
    exact Int.lt_irrefl _ hlt
  calc (lex text).2.diagnostics.countP (·.position = t.position)
      = ((lex text).2.diagnostics.map Diagnostic.position).count t.position := by
        rw [List.count, List.countP_map]
        exact List.countP_congr fun d _ => by simp
    _ = 1 := List.count_eq_one_of_mem hnodup hmem

end Lexer

namespace Grammar

/-- The kinds of tokens behind which an operand is read. -/
def asking : List Token.Kind := [
  .semicolon, .comma, .leftParen, .leftBracket, .leftBrace, .kwReturn, .kwIf, .assign, .plusAssign,
  .minusAssign, .timesAssign, .divideAssign, .kwOr, .kwAnd, .equal, .notEqual, .kwIn, .plus, .minus,
  .times, .divide, .bang]

/-- The kinds of tokens that go on with an operation or an assignment behind an operand. -/
def joining : List Token.Kind := [
  .assign, .plusAssign, .minusAssign, .timesAssign, .divideAssign, .kwOr, .kwAnd, .equal, .notEqual,
  .kwIn, .kwNot, .plus, .minus, .times, .divide]

/-- If an error token lies at the position, this holds of what is in front of it, of the token and
of what is behind it. -/
def AtError (ts : List Token) (p : Position)
    (holds : List Token → Token → List Token → Prop) : Prop :=
  ∀ front t behind, ts = front ++ t :: behind → t.kind = .error → t.position = p →
    holds front t behind

/-- In front of an error token at the position there is a token that does not ask for an
operand. -/
def Unasked (ts : List Token) (p : Position) : Prop :=
  AtError ts p fun front _ _ => ∃ before ∈ front.getLast?, before.kind ∉ asking

/-- Behind an error token at the position comes an operator. -/
def Joined (ts : List Token) (p : Position) : Prop :=
  AtError ts p fun _ _ behind => ∃ next ∈ behind.head?, next.kind ∈ joining

/-- There is a reason to report an error token again: it is not what is expected behind an
operand, or it starts an operation that is assigned to. -/
def Warranted (ts : List Token) (d : Diagnostic) : Prop :=
  AtError ts d.position fun front t behind =>
    ((∃ what, d.message = (SyntaxFault.expected what t.shown).message) ∧
        ∃ before ∈ front.getLast?, before.kind ∉ asking) ∨
      d.message = SyntaxFault.invalidTarget.message ∧ ∃ next ∈ behind.head?, next.kind ∈ joining

/-- On the way through tokens that lie one behind the other, and before the end. -/
structure Along (ts : List Token) (s : State) : Prop where
  rising : Rising ts
  pending : s.pending <:+ ts
  ending : s.current.kind = .eof → s.current = .endAt s.ending
  outside : ∀ t ∈ ts, t.position ≠ s.ending

section Places

variable {ts : List Token} {s s' : State} {holds : List Token → Token → List Token → Prop}

theorem Along.of_moves (hs : Along ts s) (h : Moves s s') : Along ts s' := by
  refine ⟨hs.rising, ?_, current_of_moves h hs.ending, ?_⟩
  · induction h with
    | refl => exact hs.pending
    | fault f p _ ih => exact ih
    | advance _ ih =>
      rw [pending_advance]
      exact (List.tail_suffix _).trans ih
  · rw [ending_of_moves h]
    exact hs.outside

/-- The current token is one of the list, unless it is the end. -/
theorem Along.split (hs : Along ts s) (hk : s.current.kind ≠ .eof) :
    ∃ front, ts = front ++ s.current :: s.supply.pending := by
  obtain ⟨front, hfront⟩ := hs.pending
  rw [State.pending, if_neg hk] at hfront
  exact ⟨front, hfront.symm⟩

/-- An error token that lies where the current token does is the current token. -/
theorem Along.atError (hs : Along ts s)
    (h : s.current.kind = .error → ∀ front, ts = front ++ s.current :: s.supply.pending →
      holds front s.current s.supply.pending) : AtError ts s.current.position holds := by
  intro front t behind hsplit ht hposition
  by_cases hk : s.current.kind = .eof
  · rw [hs.ending hk] at hposition
    exact absurd hposition (hs.outside t (by simp [hsplit]))
  · obtain ⟨front', hsplit'⟩ := hs.split hk
    obtain ⟨rfl, rfl, rfl⟩ := hs.rising.split_unique hsplit hsplit' hposition
    exact h ht front hsplit

theorem Along.atError_of_ne (hs : Along ts s) (hk : s.current.kind ≠ .error) :
    AtError ts s.current.position holds :=
  hs.atError fun herror => absurd herror hk

/-- Behind a token that does not ask for an operand. -/
theorem Along.unasked_advance (hs : Along ts s) (hk : s.current.kind ∉ asking) :
    Unasked ts s.advance.current.position := by
  by_cases heof : s.current.kind = .eof
  · rw [State.advance, if_pos heof]
    exact hs.atError_of_ne (by simp [heof])
  · have hs' := hs.of_moves (.advance (.refl s))
    refine hs'.atError fun herror front hsplit => ?_
    obtain ⟨front', hsplit'⟩ := hs.split heof
    have hpending := pending_advance s
    rw [State.pending, State.pending, if_neg heof, if_neg (by simp [herror]), List.tail_cons]
      at hpending
    rw [← hpending, ← List.singleton_append, ← List.append_assoc] at hsplit'
    obtain ⟨rfl, -⟩ := hs.rising.split_unique hsplit hsplit' rfl
    exact ⟨s.current, by simp, hk⟩

/-- In front of an operator. -/
theorem Along.joined_of_advance (hs : Along ts s) (hk : s.advance.current.kind ∈ joining) :
    Joined ts s.current.position := by
  have hne : s.advance.current.kind ≠ .eof := by
    intro heof
    rw [heof] at hk
    exact absurd hk (by decide)
  refine hs.atError fun herror front _ => ?_
  have hpending := pending_advance s
  rw [State.pending, State.pending, if_neg hne, if_neg (by simp [herror]), List.tail_cons]
    at hpending
  exact ⟨s.advance.current, by rw [← hpending]; rfl, hk⟩

end Places

/-- All that is recorded on the way is warranted. -/
structure Fair (ts : List Token) (s : State) : Prop extends Along ts s where
  warranted : ∀ d ∈ s.diagnostics, Warranted ts d

/-- The node does not lie at an error token, or an operator comes behind that. Otherwise the node
is an error that is not operated on. -/
def Settled (ts : List Token) (n : Node) (s : State) : Prop :=
  Joined ts n.position ∨ (n.isError = true ∧ s.current.kind ∉ joining)

/-- What is read so far is as it is after reading. -/
def Task.Ready (ts : List Token) (s : State) : Task → Prop
  | .rule _ | .sequence _ _ => True
  | .chain joint _ _ left =>
    joint ∈ joining ∧ Settled ts left s ∧ Unasked ts s.current.position
  | .applications n => Joined ts n.position ∧ Unasked ts s.current.position
  | .items closing _ read _ => closing ∉ asking ∧ ∀ n ∈ read, Joined ts n.position

/-- After reading, an operand is not looked for where the parser stands. -/
def Yield.Ready (ts : List Token) (s : State) : Yield → Prop
  | .node n => Settled ts n s ∧ Unasked ts s.current.position
  | .items read _ => (∀ n ∈ read, Joined ts n.position) ∧ Unasked ts s.current.position
  | .sequence _ _ => True

section Reads

variable {ts : List Token} {room : Nat} {task : Task} {y : Yield} {s m s' : State} {n : Node}
  {k : Token.Kind}

theorem Along.joined (hs : Along ts s) (hk : s.current.kind ≠ .error) :
    Joined ts s.current.position := hs.atError_of_ne hk

theorem Along.unasked (hs : Along ts s) (hk : s.current.kind ≠ .error) :
    Unasked ts s.current.position := hs.atError_of_ne hk

theorem Along.settled_expected {what : String} (hs : Along ts s) :
    Settled ts (s.expected what).1 (s.expected what).2 := by
  by_cases hk : s.current.kind = .error
  · refine .inr ⟨rfl, ?_⟩
    change s.current.kind ∉ joining
    rw [hk]
    decide
  · exact .inl (hs.joined hk)

theorem Along.settled_error (hs : Along ts s) (message : String) :
    Settled ts (.ofError message s.current.position) s.advance := by
  by_cases hk : s.advance.current.kind ∈ joining
  · exact .inl (hs.joined_of_advance hk)
  · exact .inr ⟨rfl, hk⟩

theorem Along.unasked_skip (hs : Along ts s) (hk : k ∉ asking)
    (h : Unasked ts s.current.position) : Unasked ts (s.skip k).current.position := by
  rw [State.skip]
  split
  · next heq => exact hs.unasked_advance (heq ▸ hk)
  · exact h

theorem Fair.advance (h : Fair ts s) : Fair ts s.advance :=
  ⟨h.toAlong.of_moves (.advance (.refl s)), by
    rw [diagnostics_advance]
    exact h.warranted⟩

theorem Fair.skip (h : Fair ts s) : Fair ts (s.skip k) := by
  rw [State.skip]
  split
  · exact h.advance
  · exact h

theorem Fair.moveOn {before : Nat} (h : Fair ts s) : Fair ts (Grammar.moveOn before s) := by
  rw [Grammar.moveOn]
  split
  · exact h.advance
  · exact h

theorem Fair.synchronize {closing : Token.Kind} {depth : Nat} (h : Fair ts s) :
    Fair ts (s.synchronize closing depth) := by
  induction depth, s using State.synchronize.induct closing with
  | case1 depth s hk => rwa [synchronize_eof hk]
  | case2 depth s hk hstop => rwa [synchronize_stop hk hstop]
  | case3 depth s hk hstop hleft ih =>
    rw [synchronize_leftBrace hk hstop hleft]
    exact ih h.advance
  | case4 depth s hk hstop hright ih =>
    rw [synchronize_rightBrace hk hstop hright]
    exact ih h.advance
  | case5 depth s hk hstop hleft hright ih =>
    rw [synchronize_other hk hstop hleft hright]
    exact ih h.advance

theorem Fair.fault {f : SyntaxFault} {p : Position} (h : Fair ts s)
    (hd : Warranted ts ⟨.parser, f.message, p⟩) : Fair ts (s.fault f p).2 :=
  ⟨h.toAlong.of_moves (.fault f p (.refl s)),
    List.forall_mem_append.mpr ⟨h.warranted, List.forall_mem_singleton.mpr hd⟩⟩

/-- Where an operand is not looked for, something else may be missed. -/
theorem Fair.expected {what : String} (h : Fair ts s) (hunasked : Unasked ts s.current.position) :
    Fair ts (s.expected what).2 := by
  refine h.fault (h.atError fun herror front hsplit => .inl ⟨⟨what, rfl⟩, ?_⟩)
  exact hunasked front s.current _ hsplit herror rfl

theorem Fair.missed {what : String} (h : Fair ts s) (hunasked : Unasked ts s.current.position) :
    Fair ts (s.expected what).2 ∧
      (Yield.node (s.expected what).1).Ready ts (s.expected what).2 :=
  ⟨h.expected hunasked, h.settled_expected, hunasked⟩

theorem Fair.refused {f : SyntaxFault} (h : Fair ts s) (hk : s.current.kind ≠ .error) :
    Fair ts (s.advance.fault f s.current.position).2 := h.advance.fault (h.atError_of_ne hk)

theorem Fair.invalidTarget {p : Position} (h : Fair ts s) (hjoined : Joined ts p) :
    Fair ts (s.fault .invalidTarget p).2 :=
  h.fault fun front t behind hsplit ht hp => .inr ⟨rfl, hjoined front t behind hsplit ht hp⟩

/-- Behind `let` a marker is skipped. -/
theorem Fair.marker (h : Fair ts s) (hk : s.current.kind = .kwLet)
    (hm : s.advance.skip .kwMut = m) : Fair ts m ∧ Unasked ts m.current.position := by
  subst hm
  have hunasked := h.unasked_advance (show s.current.kind ∉ asking by rw [hk]; decide)
  exact ⟨h.advance.skip, h.advance.unasked_skip (by decide) hunasked⟩

theorem Settled.of_joining (h : Settled ts n s) (hk : s.current.kind ∈ joining) :
    Joined ts n.position := h.resolve_right fun hnone => hnone.2 hk

theorem Settled.of_proper (h : Settled ts n s) (hn : n.isError = false) : Joined ts n.position := by
  refine h.resolve_right fun herror => ?_
  rw [hn] at herror
  cases herror.1

theorem Leaf.unasking {t : Token} (h : Leaf t n) : t.kind ∉ asking ∧ n.position = t.position := by
  cases h <;> exact ⟨by simp only [*]; decide, rfl⟩

theorem Refused.unasking {t : Token} {f : SyntaxFault} (h : Refused t f) : t.kind ∉ asking := by
  cases h <;> (simp only [*]; decide)

theorem RightLevel.mem_joining {rule tighter : Rule} {op? : Token.Kind → Option BinaryOp}
    {op : BinaryOp} (hlevel : RightLevel rule op? tighter) (hk : op? k = some op) :
    k ∈ joining := by
  cases hlevel <;> cases k <;> cases hk <;> decide

theorem mem_joining_of_assignOp {op : AssignOp} (hk : assignOp? k = some op) : k ∈ joining := by
  cases k <;> cases hk <;> decide

theorem ready_items {closing : Token.Kind} {glyph : String} {comma : Bool}
    (h : closing ∉ asking) : (Task.items closing glyph [] comma).Ready ts s :=
  ⟨h, fun _ hn => absurd hn List.not_mem_nil⟩

/-- Whatever is read, what is recorded on the way is warranted. What carries the induction is that
no rule ends in front of an error token that it was asked for: it consumes that as its operand. So
what is missed there is never an operand. -/
theorem Reads.fair (h : Reads room task s y s') (hs : Fair ts s) (hready : task.Ready ts s) :
    Fair ts s' ∧ y.Ready ts s' := by
  induction h with
  | bindingStatement _ _ ih | returnStatement _ _ ih | expressionStatement _ _ _ ih
  | expression _ ih | unassigning _ _ ih | chainless _ _ _ _ ih | unprefixed _ _ ih
  | unapplied _ _ ih | compound _ _ ih | badItem _ _ _ ih => exact ih hs trivial
  -- Statements
  | unnamed hk hm =>
    obtain ⟨hmarker, hunasked⟩ := hs.marker hk hm
    exact hmarker.missed hunasked
  | unassigned hk hm hname =>
    obtain ⟨hmarker, -⟩ := hs.marker hk hm
    exact hmarker.advance.missed (hmarker.unasked_advance (by rw [hname]; decide))
  | binding hk hm _ _ _ ih =>
    obtain ⟨hv, -, hunasked⟩ := ih (hs.marker hk hm).1.advance.advance trivial
    exact ⟨hv, .inl (hs.joined (by simp [hk])), hunasked⟩
  | @bareReturn _ s hk hbare =>
    have hnext : s.advance.current.kind ≠ .error := by
      intro herror
      rw [herror] at hbare
      cases hbare
    exact ⟨hs.advance, .inl (hs.joined (by simp [hk])), hs.advance.unasked hnext⟩
  | returnOf hk _ _ ih =>
    obtain ⟨hn, -, hunasked⟩ := ih hs.advance trivial
    exact ⟨hn, .inl (hs.joined (by simp [hk])), hunasked⟩
  -- Operators
  | assignment _ hop _ _ _ ihl ihr | assignmentToError _ hop _ _ ihl ihr =>
    obtain ⟨hl, hsettled, -⟩ := ihl hs trivial
    obtain ⟨hr, -, hunasked⟩ := ihr hl.advance trivial
    exact ⟨hr, .inl (hsettled.of_joining (mem_joining_of_assignOp hop)), hunasked⟩
  | invalidTarget _ hop _ _ _ ihl ihr =>
    obtain ⟨hl, hsettled, -⟩ := ihl hs trivial
    obtain ⟨hr, -, hunasked⟩ := ihr hl.advance trivial
    have hjoined := hsettled.of_joining (mem_joining_of_assignOp hop)
    exact ⟨hr.invalidTarget hjoined, .inl hjoined, hunasked⟩
  | disjunction _ _ ihl ih | conjunction _ _ ihl ih =>
    obtain ⟨hl, hready'⟩ := ihl hs trivial
    exact ih hl ⟨by decide, hready'⟩
  | chainEnd => exact ⟨hs, hready.2⟩
  | chainLink hk _ _ ihr ih =>
    obtain ⟨hjoint, hsettled, -⟩ := hready
    obtain ⟨hr, -, hunasked⟩ := ihr hs.advance trivial
    exact ih hr ⟨hjoint, .inl (hsettled.of_joining (hk ▸ hjoint)), hunasked⟩
  | rightChain hlevel _ hop _ ihl ihr =>
    obtain ⟨hl, hsettled, -⟩ := ihl hs trivial
    obtain ⟨hr, -, hunasked⟩ := ihr hl.advance trivial
    exact ⟨hr, .inl (hsettled.of_joining (hlevel.mem_joining hop)), hunasked⟩
  | notMember _ hnot _ _ ihl ihr =>
    obtain ⟨hl, hsettled, -⟩ := ihl hs trivial
    obtain ⟨hr, -, hunasked⟩ := ihr hl.advance.advance trivial
    exact ⟨hr, .inl (hsettled.of_joining (by rw [hnot]; decide)), hunasked⟩
  | notAlone _ hnot _ ih =>
    obtain ⟨hl, -⟩ := ih hs trivial
    exact hl.advance.missed (hl.unasked_advance (by rw [hnot]; decide))
  | prefixed hop _ ih =>
    obtain ⟨hn, -, hunasked⟩ := ih hs.advance trivial
    exact ⟨hn, .inl (hs.joined (prefixOp?_kind_ne hop).2), hunasked⟩
  -- Calls and indexes
  | applied _ hend _ ihn ih =>
    obtain ⟨hn, hsettled, hunasked⟩ := ihn hs trivial
    simp only [endsOperand, Bool.or_eq_false_iff] at hend
    exact ih hn ⟨hsettled.of_proper hend.2, hunasked⟩
  | applicationsEnd => exact ⟨hs, .inl hready.1, hready.2⟩
  | call _ _ _ ihitems ih =>
    obtain ⟨hitems, -, hunasked⟩ := ihitems hs.advance (ready_items (by decide))
    exact ih hitems ⟨hready.1, hunasked⟩
  | badCall _ _ ih | badGroup _ _ _ ih | badArray _ _ ih =>
    exact ih hs.advance (ready_items (by decide))
  | index _ _ _ hclose _ ihi ih =>
    obtain ⟨hi, -⟩ := ihi hs.advance trivial
    exact ih hi.advance ⟨hready.1, hi.unasked_advance (by rw [hclose]; decide)⟩
  | badIndex _ _ _ ih | badCondition _ _ _ ih => exact ih hs.advance trivial
  | openIndex _ _ _ _ ih | noBlock _ _ _ _ ih =>
    obtain ⟨hi, -, hunasked⟩ := ih hs.advance trivial
    exact hi.missed hunasked
  -- Operands
  | leaf hleaf =>
    obtain ⟨hk, hposition⟩ := hleaf.unasking
    have hjoined := hs.joined hleaf.kind_ne.2
    exact ⟨hs.advance, .inl (hposition ▸ hjoined), hs.unasked_advance hk⟩
  | refused hrefused =>
    have hk := hrefused.kind_ne.2
    exact ⟨hs.refused hk, .inl (hs.joined hk), hs.unasked_advance hrefused.unasking⟩
  | invalidToken hk =>
    exact ⟨hs.advance, hs.settled_error _, hs.unasked_advance (by rw [hk]; decide)⟩
  | missing hk =>
    refine hs.missed (hs.unasked fun herror => hk ?_)
    rw [herror]
    decide
  | unit hk hempty =>
    have hunasked := hs.advance.unasked_advance (by rw [hempty]; decide)
    exact ⟨hs.advance.advance, .inl (hs.joined (by simp [hk])), hunasked⟩
  | grouped _ _ _ ih =>
    obtain ⟨hitems, hread, hunasked⟩ := ih hs.advance (ready_items (by decide))
    exact ⟨hitems, .inl (hread _ (List.mem_singleton_self _)), hunasked⟩
  | tuple hk _ _ _ ih | array hk _ ih =>
    obtain ⟨hitems, -, hunasked⟩ := ih hs.advance (ready_items (by decide))
    exact ⟨hitems, .inl (hs.joined (by simp [hk])), hunasked⟩
  | block hk _ hclose ih =>
    obtain ⟨hstatements, -⟩ := ih hs.advance trivial
    have hunasked := hstatements.unasked_advance (by rw [hclose]; decide)
    exact ⟨hstatements.advance, .inl (hs.joined (by simp [hk])), hunasked⟩
  | openBlock _ hstatements hopen ih =>
    obtain ⟨hend, -⟩ := ih hs.advance trivial
    have heof := hstatements.closed.resolve_left hopen
    exact hend.missed (hend.unasked (by simp [heof]))
  | badBlock _ _ _ _ _ _ ihc iht => exact iht (ihc hs.advance trivial).1 trivial
  | ifThen hk _ _ _ _ _ _ ihc iht =>
    obtain ⟨ht, -, hunasked⟩ := iht (ihc hs.advance trivial).1 trivial
    exact ⟨ht, .inl (hs.joined (by simp [hk])), hunasked⟩
  | noBranch _ _ _ _ _ _ helse _ ihc iht =>
    obtain ⟨ht, -⟩ := iht (ihc hs.advance trivial).1 trivial
    exact ht.advance.missed (ht.unasked_advance (by rw [helse]; decide))
  | badBranch _ _ _ _ _ _ _ _ _ _ ihc iht ihe =>
    exact ihe (iht (ihc hs.advance trivial).1 trivial).1.advance trivial
  | ifThenElse hk _ _ _ _ _ _ _ _ _ ihc iht ihe =>
    obtain ⟨he, -, hunasked⟩ := ihe (iht (ihc hs.advance trivial).1 trivial).1.advance trivial
    exact ⟨he, .inl (hs.joined (by simp [hk])), hunasked⟩
  -- Items
  | itemsEnd hk => exact ⟨hs.advance, hready.2, hs.unasked_advance (hk ▸ hready.1)⟩
  | item _ _ he _ _ ihn ih =>
    obtain ⟨hn, hsettled, -⟩ := ihn hs trivial
    refine ih hn.advance ⟨hready.1, List.forall_mem_append.mpr ⟨hready.2, ?_⟩⟩
    exact List.forall_mem_singleton.mpr (hsettled.of_proper he)
  | lastItem _ _ he _ hclose ih =>
    obtain ⟨hn, hsettled, -⟩ := ih hs trivial
    refine ⟨hn.advance, List.forall_mem_append.mpr ⟨hready.2, ?_⟩, ?_⟩
    · exact List.forall_mem_singleton.mpr (hsettled.of_proper he)
    · exact hn.unasked_advance (hclose ▸ hready.1)
  | openItems _ _ _ _ _ ih =>
    obtain ⟨hn, -, hunasked⟩ := ih hs trivial
    exact hn.missed hunasked
  -- Sequences of statements
  | sequenceEnd => exact ⟨hs, trivial⟩
  | separator _ _ _ ih => exact ih hs.advance trivial
  | terminated _ _ _ _ _ ihn ih => exact ih (ihn hs trivial).1.moveOn.advance trivial
  | trailing _ _ _ _ _ ihn => exact ⟨(ihn hs trivial).1.moveOn, trivial⟩
  | recovered _ _ _ _ _ _ _ ihn ih => exact ih (ihn hs trivial).1.moveOn.synchronize trivial
  | unterminated _ _ _ _ _ _ _ _ ihn ih => exact ih (ihn hs trivial).1.moveOn trivial
  | unseparated _ _ hitem _ _ he _ _ ihn ih =>
    obtain ⟨hn, -, hunasked⟩ := ihn hs trivial
    refine ih ?_ trivial
    rw [moveOn_of_not_error hitem he]
    exact hn.expected hunasked

end Reads

/-- All tokens of the text are in front of the parser. -/
theorem along_ofSupply (text : List Char) :
    Along (lex text).1 (.ofSupply (.tokens (lex text).1) text) := by
  have hascending := Lexer.ascending_lex text
  have hpending : (Supply.tokens (lex text).1).pending = (lex text).1 :=
    pending_tokens (Lexer.tokens_ne_eof _)
  refine ⟨hascending.sorted, ?_, fun heof => ?_, fun t ht heq => ?_⟩
  · rw [pending_ofSupply, hpending]
  · have hnone : (Supply.tokens (lex text).1).pending = [] := Supply.pending_of_eof heof
    change ((Supply.tokens (lex text).1).pull (.endOf text)).1 = _
    rw [pull_token, hnone]
    rfl
  · have hlt := (hascending.inside t ht).2
    rw [heq] at hlt
    exact Int.lt_irrefl _ hlt

/-- The parser reports only what is warranted, unless it gives up. -/
theorem warranted_of_recorded {text : List Char} {d : Diagnostic}
    (hroom : ∀ d ∈ Reading.recorded (lex text).1 text,
      d.message ≠ SyntaxFault.nestedTooDeeply.message)
    (hd : d ∈ Reading.recorded (lex text).1 text) : Warranted (lex text).1 d := by
  obtain ⟨read, last, s', h, -⟩ | ⟨m, hrun⟩ :=
    program_cases 978 (.ofSupply (.tokens (lex text).1) text)
  · rw [(Reading.ofTokens_eq h).2] at hd
    exact (h.fair ⟨along_ofSupply text, nofun⟩ trivial).1.warranted d hd
  · rw [Reading.recorded, nestingLimit, hrun] at hroom
    exact absurd rfl (hroom _ (mem_giveUp m))

end Grammar

theorem Reading.mem_diagnostics {text : List Char} {d : Diagnostic} :
    d ∈ (ofText text).diagnostics ↔
      d ∈ (lex text).2.diagnostics ∨ d ∈ recorded (lex text).1 text := by
  rw [diagnostics_ofText, Diagnostic.ordered, List.mem_mergeSort, List.mem_append]

open Grammar

/-- Every error token is reported by the lexer exactly once. If the text is not nested too deeply,
the parser reports one again only for a reason: it is not what is expected behind a token that
does not ask for an operand, or the operation that it starts is assigned to. -/
theorem reports_of_error_tokens {text : List Char} {front behind : List Token} {t : Token}
    (htokens : (lex text).1 = front ++ t :: behind) (ht : t.kind = .error) :
    let ds := (Reading.ofText text).diagnostics
    (ds.filter (·.phase = .lexer)).countP (·.position = t.position) = 1 ∧
      ((∀ d ∈ ds, d.message ≠ SyntaxFault.nestedTooDeeply.message) →
        ∀ d ∈ ds, d.phase = .parser → d.position = t.position →
          ((∃ what, d.message = (SyntaxFault.expected what t.shown).message) ∧
              ∃ before ∈ front.getLast?, before.kind ∉ asking) ∨
            d.message = SyntaxFault.invalidTarget.message ∧
              ∃ next ∈ behind.head?, next.kind ∈ joining) := by
  intro ds
  refine ⟨?_, fun hroom d hd hphase hposition => ?_⟩
  · rw [(Reading.diagnostics_listed text).2]
    exact Lexer.reports_once (by simp [htokens]) ht
  · rcases Reading.mem_diagnostics.mp hd with hlexed | hparsed
    · rw [(Lexer.inOrder_lex text).phase d hlexed] at hphase
      cases hphase
    · have hwarranted := warranted_of_recorded
        (fun e he => hroom e (Reading.mem_diagnostics.mpr (.inr he))) hparsed
      exact hwarranted front t behind htokens ht hposition.symm

/-- An operation on an error token is assigned to. -/
theorem reports_of_assigned_error_token :
    let text := "@ * 2 = 3".toList
    let ds := (Reading.ofText text).diagnostics
    let t : Token := ⟨.error, "@", ⟨0, 1, 1⟩, 1⟩
    let behind := (lex text).1.tail
    (lex text).1 = [] ++ t :: behind ∧
      (ds.filter (·.phase = .lexer)).countP (·.position = t.position) = 1 ∧
      ∃ d ∈ ds, d.phase = .parser ∧ d.position = t.position ∧
        d.message = SyntaxFault.invalidTarget.message ∧
        ∃ next ∈ behind.head?, next.kind ∈ joining := by
  intro text ds t behind
  have htokens : (lex text).1 = [] ++ t :: behind := by decide +kernel
  obtain ⟨honce, hreason⟩ := reports_of_error_tokens htokens rfl
  have hroom : ∀ d ∈ ds, d.message ≠ SyntaxFault.nestedTooDeeply.message := by
    simp only [ds, Reading.mem_diagnostics, or_imp, forall_and]
    decide +kernel
  let d : Diagnostic := ⟨.parser, SyntaxFault.invalidTarget.message, t.position⟩
  have hd : d ∈ ds := Reading.mem_diagnostics.mpr (.inr (by decide +kernel))
  refine ⟨htokens, honce, d, hd, rfl, rfl, rfl, ?_⟩
  rcases hreason hroom d hd rfl rfl with ⟨-, before, hbefore, -⟩ | ⟨-, hnext⟩
  · cases hbefore
  · exact hnext

/-- Behind an operand an error token is reported twice: a semicolon is looked for there. -/
theorem error_token_behind_operand_is_reported_twice :
    ¬ ∀ text : List Char,
      (∀ d ∈ (Reading.ofText text).diagnostics,
        d.message ≠ SyntaxFault.nestedTooDeeply.message) →
      ∀ t ∈ (lex text).1, t.kind = .error →
      ∀ d ∈ (Reading.ofText text).diagnostics, d.phase = .parser → d.position ≠ t.position := by
  intro h
  let text := "1 @".toList
  have hroom : ∀ d ∈ (Reading.ofText text).diagnostics,
      d.message ≠ SyntaxFault.nestedTooDeeply.message := by
    simp only [Reading.mem_diagnostics, or_imp, forall_and]
    decide +kernel
  have hmem : ⟨.parser, "expected `;`, got `@`", ⟨2, 1, 3⟩⟩ ∈ (Reading.ofText text).diagnostics :=
    Reading.mem_diagnostics.mpr (.inr (by decide +kernel))
  exact h text hroom ⟨.error, "@", ⟨2, 1, 3⟩, 1⟩ (by decide +kernel) rfl _ hmem rfl rfl

end Scriptlet
