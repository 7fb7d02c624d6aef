import Mathlib.Logic.Relation
import Scriptlet.Proofs.Grammar.Descent
import Scriptlet.Proofs.Grammar.Lazy

/-!
# Reading without a limit

Without a limit on nesting the rules are a recursion on the tokens that are left and, where
none is consumed, on the ladder of the rules. It always comes to a result, and a limit that is
high enough for the tokens is never met.
-/

namespace Scriptlet

open Scriptlet.Parser

namespace Parser

variable {α : Type} {limited limited' : Prop} {s m : State} {Q : α → State → Prop}
  {p q : Parser α}

theorem Later.fewer (h : Later s m) : m.pending.length < s.pending.length := by
  have hsum := consumed_add_pending h.moves
  have hless := h.consumed
  omega

theorem not_gives_of_tooDeep {a : α} {m' : State} (h : p.outcome s = (.error .tooDeep, m)) :
    ¬ p.Gives s a m' := by
  intro hgives
  rw [Gives, h] at hgives
  cases hgives

/-- What the first one of the parsers gives, the other one gives. -/
theorem Concur.gives {a : α} (h : Concur limited Q p q s) (hp : p.Gives s a m) :
    q.Gives s a m ∧ Moves s m ∧ Q a m := by
  rcases h with ⟨-, m', hdeep⟩ | ⟨b, m', hp', hq, hm, hQ⟩
  · exact absurd hp (not_gives_of_tooDeep hdeep)
  · rw [Gives, hp] at hp'
    cases hp'
    exact ⟨hq, hm, hQ⟩

/-- Without a limit there is a result. -/
theorem Concur.result (h : Concur False Q p q s) :
    ∃ a m, p.Gives s a m ∧ q.Gives s a m ∧ Moves s m ∧ Q a m := h.resolve_left And.left

theorem Concur.ne_endless (h : Concur limited Q p q s) : (p.outcome s).1 ≠ .error .endless := by
  rcases h with ⟨-, m, hdeep⟩ | ⟨a, m, hp, -⟩
  · rw [hdeep]
    nofun
  · rw [hp]
    nofun

/-- What comes to the same as something comes to a result. -/
theorem Same.self (h : Same limited p q s) : Same limited p p s := by
  rcases h with hdeep | ⟨a, m, hp, -, hm, -⟩
  · exact .inl hdeep
  · exact concur_give hp hp hm trivial

theorem Same.symm (h : Same False p q s) : Same False q p s := by
  obtain ⟨a, m, hp, hq, hm, -⟩ := h.result
  exact concur_give hq hp hm trivial

theorem Same.trans {p' : Parser α} (h : Same limited p q s) (h' : Same limited' q p' s) :
    Same limited p p' s := by
  rcases h with hdeep | ⟨a, m, hp, hq, hm, -⟩
  · exact .inl hdeep
  · exact concur_give hp (h'.gives hq).1 hm trivial

end Parser

namespace Grammar

variable {rule r : Rule} {s m : State}

/-- What a rule has before it: the tokens that are left, and its height on the ladder. -/
def size (rule : Rule) (s : State) : Nat × Nat := (s.pending.length, ladder rule)

/-- Fewer tokens are left, or as many and the rule is lower on the ladder. -/
def Smaller : Nat × Nat → Nat × Nat → Prop := Prod.Lex (· < ·) (· < ·)

instance : DecidableRel Smaller := inferInstanceAs (DecidableRel (Prod.Lex _ _))

/-- Parsers that are there only for what is smaller than the bound. -/
def guarded (bound : Nat × Nat)
    (call : (r : Rule) → (m : State) → Smaller (size r m) bound → Except Failure Node × State)
    (r : Rule) : Parser Node :=
  fun m => if h : Smaller (size r m) bound then call r m h else (.error .tooDeep, m)

/-- Reads by a rule, however deep the rules nest. The guard is there for the recursion only: it
lets through whatever the rule calls. -/
def unlimited (rule : Rule) : Parser Node := fun s =>
  (body (guarded (size rule s) fun r m _ => unlimited r m)
    (guarded (size rule s) fun r m _ => unlimited r m) rule).outcome s
termination_by s => size rule s
decreasing_by all_goals assumption

/-- Whatever a rule calls is smaller. -/
theorem Below.smaller (h : Below rule s r m) : Smaller (size r m) (size rule s) := by
  obtain hlater | ⟨rfl, hladder⟩ := h.descends
  · exact .left _ _ hlater.fewer
  · exact .right _ hladder

theorem Below.moves (h : Below rule s r m) : Moves s m := by
  obtain hlater | ⟨rfl, -⟩ := h.descends
  · exact hlater.moves
  · exact .refl m

theorem outcome_unlimited (rule : Rule) (s : State) : (unlimited rule).outcome s =
    (body (guarded (size rule s) fun r m _ => unlimited r m)
      (guarded (size rule s) fun r m _ => unlimited r m) rule).outcome s := by
  rw [ExceptT.outcome, unlimited]

/-- The rule comes to a result, and reads as if there were no guard. -/
theorem same_unlimited {rule : Rule} {s : State} (hadmits : Admits rule s.current.kind) :
    Same False (unlimited rule) (body unlimited unlimited rule) s := by
  have hanswers :
      Answers False (guarded (size rule s) fun r m _ => unlimited r m) unlimited rule s := by
    intro r m hbelow
    have hsmaller := hbelow.smaller
    exact (same_unlimited hbelow.admits).self.congr (.refl m) (dif_pos hsmaller) rfl
  exact (same_body hadmits hanswers hanswers).congr (.refl s) (outcome_unlimited rule s) rfl
termination_by size rule s
decreasing_by exact hsmaller

/-- Where a rule may be called, it comes to a result. -/
theorem same_self (hadmits : Admits rule s.current.kind) :
    Same False (unlimited rule) (unlimited rule) s := (same_unlimited hadmits).self

theorem answers_unlimited (rule : Rule) (s : State) : Answers False unlimited unlimited rule s :=
  fun _ _ hbelow => same_self hbelow.admits

/-- Levels of nesting that are never used up. -/
def ample (bound : Nat × Nat) : Nat := 2 * (12 * bound.1 + bound.2 + 1)

theorem ladder_le (rule : Rule) : ladder rule ≤ 11 := by
  cases rule <;> decide

/-- Every call takes one or two levels away. -/
theorem ample_of_smaller (h : Smaller (size r m) (size rule s)) :
    ample (size r m) + 2 ≤ ample (size rule s) := by
  have hladder := ladder_le r
  have hsmaller := Prod.lex_def.mp h
  simp only [ample, size] at hsmaller ⊢
  omega

theorem same_parse {room : Nat} {rule : Rule} {s : State} (hadmits : Admits rule s.current.kind)
    (hroom : ample (size rule s) ≤ room) : Same False (unlimited rule) (parse room rule) s := by
  induction room using Nat.strongRecOn generalizing rule s with
  | ind room ih =>
    have hpositive : 2 ≤ ample (size rule s) := by
      rw [ample]
      omega
    obtain ⟨room, rfl⟩ : ∃ k, room = k + 2 := ⟨room - 2, by omega⟩
    have answers (k : Nat) (hk : room ≤ k) (hk' : k < room + 2) :
        Answers False unlimited (parse k) rule s := by
      intro r m hbelow
      have hample := ample_of_smaller hbelow.smaller
      exact ih k hk' hbelow.admits (by omega)
    exact (same_unlimited hadmits).trans
      (same_body hadmits (answers _ (by omega) (by omega)) (answers _ (by omega) (by omega)))

/-- With less room a rule reads the same, or it is too deep. -/
theorem same_limited (room : Nat) {rule : Rule} {s : State} (hadmits : Admits rule s.current.kind) :
    Same True (parse room rule) (unlimited rule) s := by
  have hend {rule : Rule} {s : State} (hadmits : Admits rule s.current.kind) :=
    (same_unlimited hadmits).symm
  induction room using Nat.twoStepInduction generalizing rule s with
  | zero => exact .inl ⟨trivial, s, rfl⟩
  | one =>
    have hanswers : Answers True (fun _ => tooDeep) unlimited rule s :=
      fun r m _ => .inl ⟨trivial, m, rfl⟩
    exact (same_body hadmits hanswers hanswers).trans (hend hadmits)
  | more room ih ih' =>
    have hcall : Answers True (parse (room + 1)) unlimited rule s :=
      fun r m hbelow => ih' hbelow.admits
    have hwithin : Answers True (parse room) unlimited rule s := fun r m hbelow => ih hbelow.admits
    exact (same_body hadmits hcall hwithin).trans (hend hadmits)

/-- The rule comes to the node in any room, unless it is too deep for that; it takes less room
than is ample to be too deep. -/
def Settles (rule : Rule) (s : State) (n : Node) (s' : State) : Prop :=
  ∀ room, (parse room rule).Gives s n s' ∨
    (((parse room rule).outcome s).1 = .error .tooDeep ∧ room < ample (size rule s))

/-- Where a rule may be called, there is one node that it comes to. -/
theorem settles (hadmits : Admits rule s.current.kind) :
    ∃ n m, (unlimited rule).Gives s n m ∧ Moves s m ∧ Settles rule s n m := by
  obtain ⟨n, m, hgives, -, hm, -⟩ := (same_self hadmits).result
  refine ⟨n, m, hgives, hm, ?_⟩
  intro room
  rcases same_limited room hadmits with ⟨-, m', hdeep⟩ | ⟨n', m', hparse, hgives', -, -⟩
  · refine .inr ⟨congrArg Prod.fst hdeep, ?_⟩
    by_contra hample
    exact not_gives_of_tooDeep hdeep ((same_parse hadmits (by omega)).gives hgives).1
  · left
    rw [Gives, hgives] at hgives'
    cases hgives'
    exact hparse

theorem Settles.gives {n : Node} {s' : State} (h : Settles rule s n s') {room : Nat}
    (hroom : ample (size rule s) ≤ room) : (parse room rule).Gives s n s' := by
  apply (h room).resolve_right
  rintro ⟨-, hless⟩
  omega

/-- No list of statements uses up the rounds of a loop. -/
theorem statements_ne_endless (room : Nat) (closing : Token.Kind) (s : State) :
    ((statements room closing).outcome s).1 ≠ .error .endless := by
  cases room with
  | zero => nofun
  | succ room =>
    have hstatement (m : State) : Same True (parse room .statement) (unlimited .statement) m :=
      same_limited room trivial
    exact (same_sequence fun m _ => hstatement m).ne_endless

/-- A text is read to its end. -/
theorem program_unlimited (s : State) : ∃ complete last m,
    (sequence (unlimited .statement) .eof).Gives s (complete, last) m ∧
      m.current.kind = .eof ∧
      ∀ room, ample (size .statement s) + 2 ≤ room →
        (program room).run s = (complete ++ last.toList, m) := by
  have hread (room : Nat) (hroom : ample (size .statement s) ≤ room) :
      Same False (sequence (unlimited .statement) .eof)
        (sequence (parse room .statement) .eof) s := by
    refine same_sequence fun m hm => same_parse trivial (Nat.le_trans ?_ hroom)
    have hsum := consumed_add_pending hm
    have hle := consumed_le hm
    simp only [ample, size]
    omega
  obtain ⟨⟨complete, last⟩, m, hgives, hparse, -⟩ := (hread _ (Nat.le_refl _)).result
  refine ⟨complete, last, m, hgives, (statements_iff.mp hparse).ends, fun room hroom => ?_⟩
  obtain ⟨room, rfl⟩ : ∃ k, room = k + 2 := ⟨room - 2, by omega⟩
  have hgives' := ((hread room (by omega)).gives hgives).1
  exact program_eq (statements_iff.mp hgives')

open Classical in
/-- Parsers that read without a limit but fail in one place. -/
noncomputable def failingAt (place : Rule × State) (r : Rule) : Parser Node :=
  fun m => if (r, m) = place then (.error .tooDeep, m) else (unlimited r).outcome m

/-- Does the caller run the callee? Nothing else would make it fail where the callee does: no
rule goes on behind a failure, and without a limit there is no other one. -/
def Calls (caller callee : Rule × State) : Prop :=
  ∃ m, (body (failingAt callee) (failingAt callee) caller.1).outcome caller.2 =
    (.error .tooDeep, m)

theorem Calls.below (h : Calls (rule, s) (r, m)) (hadmits : Admits rule s.current.kind) :
    Below rule s r m := by
  obtain ⟨m', hfails⟩ := h
  by_contra hbelow
  have hanswers : Answers False (failingAt (r, m)) unlimited rule s := by
    intro r' m' hbelow'
    have hother : (r', m') ≠ (r, m) := by
      rintro ⟨rfl, rfl⟩
      exact hbelow hbelow'
    exact (answers_unlimited rule s r' m' hbelow').congr (.refl m') (if_neg hother) rfl
  obtain ⟨n, m'', hgives, -⟩ := (same_body hadmits hanswers hanswers).result
  exact not_gives_of_tooDeep hfails hgives

/-- However long the calls, they lead behind further tokens or down the ladder. -/
theorem descends_of_calls {y : Rule × State} (h : Relation.TransGen Calls (rule, s) y)
    (hadmits : Admits rule s.current.kind) :
    Admits y.1 y.2.current.kind ∧ (Later s y.2 ∨ (y.2 = s ∧ ladder y.1 < ladder rule)) := by
  induction h with
  | single h =>
    have hbelow := h.below hadmits
    exact ⟨hbelow.admits, hbelow.descends⟩
  | tail _ h ih =>
    obtain ⟨hadmits', hdescends⟩ := ih
    have hbelow := h.below hadmits'
    refine ⟨hbelow.admits, ?_⟩
    obtain hlater | ⟨heq, hlower⟩ := hdescends
    · exact .inl (hlater.trans hbelow.moves)
    · obtain hlater' | ⟨heq', hlower'⟩ := hbelow.descends
      · exact .inl (heq ▸ hlater')
      · exact .inr ⟨heq'.trans heq, hlower'.trans hlower⟩

/-- What the rounds of the loops consume that start in the state. A list of statements goes on
up to its end; items go on up to the closing token, or to an error in the place of an item,
with which the whole list ends; calls and indexes go on as long as they are opened. -/
structure RoundsConsume (s : State) : Prop where
  statements : ∀ closing read r m, s.current.kind ≠ closing → s.current.kind ≠ .eof →
    (sequenceStep (unlimited .statement) closing read).Gives s r m → s.consumed < m.consumed
  skipping : ∀ closing depth, s.synchronize closing depth = s ∨ ∃ depth',
    s.synchronize closing depth = s.advance.synchronize closing depth' ∧
      s.advance.consumed = s.consumed + 1
  items : ∀ closing glyph read r item m m', s.current.kind ≠ closing →
    (unlimited .expression).Gives s item m → item.isError = false →
    (itemsStep (unlimited .expression) closing glyph read).Gives s r m' → s.consumed < m'.consumed
  applications : ∀ node r m, s.current.kind = .leftParen ∨ s.current.kind = .leftBracket →
    (applicationsStep unlimited unlimited node).Gives s r m → s.consumed < m.consumed

/-- What is no error is made of tokens. -/
theorem consumed_of_unlimited {n : Node} (hadmits : Admits rule s.current.kind)
    (h : (unlimited rule).Gives s n m) (hn : n.isError = false) : s.consumed < m.consumed := by
  obtain ⟨hparse, hm, -⟩ := (same_parse hadmits (Nat.le_refl _)).gives h
  refine Nat.lt_of_le_of_ne (consumed_le hm) fun hidle => ?_
  obtain ⟨e, he, herror, -⟩ := (derived_parse _ _ _ _ _ hadmits hparse).idle trivial hidle.symm
  cases he
  rw [hn] at herror
  cases herror

theorem synchronize_cases (closing : Token.Kind) (depth : Nat) (s : State) :
    s.synchronize closing depth = s ∨ ∃ depth',
      s.synchronize closing depth = s.advance.synchronize closing depth' ∧
        s.advance.consumed = s.consumed + 1 := by
  by_cases hk : s.current.kind = .eof
  · exact .inl (by rw [State.synchronize, dif_pos hk])
  rw [State.synchronize, dif_neg hk]
  split
  · exact .inl rfl
  · refine .inr ?_
    split <;> exact ⟨_, rfl, consumed_advance hk⟩

theorem roundsConsume (s : State) : RoundsConsume s where
  statements := by
    intro closing read r m hclosing heof h
    have hstatement : Same False (unlimited .statement) (unlimited .statement) s :=
      same_self trivial
    exact ((concur_sequenceStep hstatement).gives h).2.2.consumed (by simp [hclosing, heof])
  skipping closing depth := synchronize_cases closing depth s
  items := by
    intro closing glyph read r item m m' hclosing hitem he h
    have hexpression : Same False (unlimited .expression) (unlimited .expression) s :=
      same_self trivial
    have hless : s.consumed < m.consumed :=
      consumed_of_unlimited (show Admits .expression s.current.kind from trivial) hitem he
    refine ((concur_itemsStep hexpression).gives h).2.2.consumed ?_
    rintro (hk | ⟨item', n, hitem', hreason⟩)
    · exact hclosing hk
    · rw [Gives, hitem] at hitem'
      cases hitem'
      obtain herror | hidle := hreason
      · rw [he] at herror
        cases herror
      · omega
  applications := by
    intro node r m hopen h
    have hanswers := answers_unlimited .applied s
    refine ((concur_applicationsStep (.refl s) hanswers hanswers).gives h).2.2.consumed ?_
    exact fun hclosed => hopen.elim hclosed.1 hclosed.2

end Grammar

open Grammar

/-- Without a limit on nesting every rule comes to a result wherever it may be called, and so
does every program: by a recursion on the tokens that are left and the ladder of the rules. A
limit that is high enough for the tokens makes no difference. For every call leads to what is
smaller; statements are called by blocks only, behind the brace; calls that lead from a rule
back to itself consume a token; and so does every round of a loop. Whatever the limit, no loop
uses up its rounds. -/
theorem parsing_ends_without_limit (rule : Rule) (s : State)
    (hadmits : Admits rule s.current.kind) :
    (∃ n m, Moves s m ∧ (unlimited rule).Gives s n m ∧
      (body unlimited unlimited rule).Gives s n m ∧
      ∀ room, ample (size rule s) ≤ room → (parse room rule).Gives s n m) ∧
    (∃ complete last m, (sequence (unlimited .statement) .eof).Gives s (complete, last) m ∧
      m.current.kind = .eof ∧
      ∀ room, ample (size .statement s) + 2 ≤ room →
        (program room).run s = (complete ++ last.toList, m)) ∧
    (∀ r m, Calls (rule, s) (r, m) → Admits r m.current.kind ∧
      Prod.Lex (· < ·) (· < ·) (m.pending.length, ladder r) (s.pending.length, ladder rule) ∧
      (r = .statement →
        rule = .block ∧ s.current.kind = .leftBrace ∧ s.consumed < m.consumed)) ∧
    (∀ m, Relation.TransGen Calls (rule, s) (rule, m) → s.consumed < m.consumed) ∧
    RoundsConsume s ∧
    ∀ room, ((parse room rule).outcome s).1 ≠ .error .endless ∧
      ∀ closing, ((statements room closing).outcome s).1 ≠ .error .endless := by
  refine ⟨?_, program_unlimited s, fun r m hcall => ?_, fun m hcalls => ?_, roundsConsume s,
    fun room => ⟨(same_limited room hadmits).ne_endless, fun closing => ?_⟩⟩
  · obtain ⟨n, m, hgives, hbody, hm, -⟩ := (same_unlimited hadmits).result
    exact ⟨n, m, hm, hgives, hbody, fun room hroom => ((same_parse hadmits hroom).gives hgives).1⟩
  · have hbelow := hcall.below hadmits
    refine ⟨hbelow.admits, hbelow.smaller, fun hr => ?_⟩
    obtain ⟨hrule, hbrace, hlater⟩ := hbelow.block hr
    exact ⟨hrule, hbrace, hlater.consumed⟩
  · obtain ⟨-, hlater | ⟨-, hlower⟩⟩ := descends_of_calls hcalls hadmits
    · exact hlater.consumed
    · exact absurd hlower (Nat.lt_irrefl _)
  · exact statements_ne_endless room closing s

/-- Words without sense are read to their end. -/
theorem keyword_soup_ends :
    let text := "let mut x = 1 ; { } if else not in".toList
    let s := State.ofSupply (.lexer (Lexer.ofText text)) text
    Admits .binding s.current.kind ∧
      (∃ n m, (unlimited .binding).Gives s n m ∧ (parse 290 .binding).Gives s n m) ∧
      (∃ complete last m, (sequence (unlimited .statement) .eof).Gives s (complete, last) m ∧
        (program 314).run s = (complete ++ last.toList, m)) ∧
      Calls (.expression, s) (.assignment, s) ∧
        Smaller (size .assignment s) (size .expression s) := by
  intro text s
  have hlet : s.current.kind = .kwLet := by decide +kernel
  have hpending : s.pending.length = 12 := by decide +kernel
  have hcalls : Calls (.expression, s) (.assignment, s) := ⟨s, if_pos rfl⟩
  obtain ⟨⟨n, m, -, hgives, -, hparse⟩, ⟨complete, last, m', hread, -, hprogram⟩, -⟩ :=
    parsing_ends_without_limit .binding s hlet
  obtain ⟨-, -, hdescends, -⟩ := parsing_ends_without_limit .expression s trivial
  refine ⟨hlet, ⟨n, m, hgives, hparse _ ?_⟩, ⟨complete, last, m', hread, hprogram _ ?_⟩, hcalls,
    (hdescends _ _ hcalls).2.1⟩
  · rw [size, hpending]
    decide
  · rw [size, hpending]
    decide

end Scriptlet
