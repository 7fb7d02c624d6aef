import Scriptlet.Proofs.Grammar.Blind
import Scriptlet.Proofs.Grammar.Isolation
import Scriptlet.Proofs.Token.Reported

/-!
# Taking tokens when they are needed

A parser that takes its tokens from a text reads what it would read from the list of all of
them. Either way it comes to the end, however the text is nested, so that the lexer has found
all that there is to find. The diagnostics of the two are sorted into one list, from which
those of either can be picked out again in their order.
-/

namespace Scriptlet

open Scriptlet.Parser

/-- A list is split in one way into members with a property and members without it. -/
theorem append_unique {α : Type} {q : α → Bool} {front behind front' behind' : List α}
    (h : front ++ behind = front' ++ behind') (hfront : ∀ a ∈ front, q a = true)
    (hfront' : ∀ a ∈ front', q a = true) (hbehind : ∀ a ∈ behind, q a = false)
    (hbehind' : ∀ a ∈ behind', q a = false) : front = front' ∧ behind = behind' := by
  have hnone : behind.filter q = [] := List.filter_eq_nil_iff.mpr fun a ha => by simp [hbehind a ha]
  have hnone' : behind'.filter q = [] :=
    List.filter_eq_nil_iff.mpr fun a ha => by simp [hbehind' a ha]
  have hfilter := congrArg (List.filter q) h
  rw [List.filter_append, List.filter_append, List.filter_eq_self.mpr hfront,
    List.filter_eq_self.mpr hfront', hnone, hnone', List.append_nil, List.append_nil] at hfilter
  subst hfilter
  exact ⟨rfl, List.append_cancel_left h⟩

/-- Sorting does not change the order of what is picked out. -/
theorem filter_mergeSort {α : Type} {le : α → α → Bool}
    (htrans : ∀ a b c, le a b = true → le b c = true → le a c = true)
    (htotal : ∀ a b, (le a b || le b a) = true) (p : α → Bool) (l : List α) :
    (l.mergeSort le).filter p = (l.filter p).mergeSort le := by
  induction l with
  | nil => simp
  | cons a l ih =>
    obtain ⟨front, behind, hall, hrest, hfront⟩ := List.mergeSort_cons htrans htotal a l
    rw [hrest, List.filter_append] at ih
    rw [hall, List.filter_append]
    cases hp : p a with
    | false =>
      rw [List.filter_cons_of_neg (by simp [hp]), List.filter_cons_of_neg (by simp [hp]), ih]
    | true =>
      rw [List.filter_cons_of_pos hp, List.filter_cons_of_pos hp]
      obtain ⟨front', behind', hall', hrest', hfront'⟩ :=
        List.mergeSort_cons htrans htotal a (l.filter p)
      rw [hrest'] at ih
      rw [hall']
      -- What stands in front of `a` is what is less than `a`, on both sides.
      have hbehind : ∀ b ∈ behind, le a b = true := by
        have hsorted := List.pairwise_mergeSort htrans htotal (a :: l)
        rw [hall, List.pairwise_append] at hsorted
        exact (List.pairwise_cons.mp hsorted.2.1).1
      have hbehind' : ∀ b ∈ behind', le a b = true := by
        have hsorted := List.pairwise_mergeSort htrans htotal (a :: l.filter p)
        rw [hall', List.pairwise_append] at hsorted
        exact (List.pairwise_cons.mp hsorted.2.1).1
      obtain ⟨hleft, hright⟩ := append_unique (q := fun b => !le a b) ih
        (fun b hb => hfront b (List.mem_of_mem_filter hb)) hfront'
        (fun b hb => by simp [hbehind b (List.mem_of_mem_filter hb)])
        (fun b hb => by simp [hbehind' b hb])
      rw [hleft, hright]

namespace Lexer

/-- The diagnostics so far are the lexer's, in the order of the text, and lie behind it. -/
structure InOrder (lx : Lexer) : Prop where
  phase : ∀ d ∈ lx.diagnostics, d.phase = .lexer
  behind : ∀ d ∈ lx.diagnostics, d.position.index ≤ lx.cursor.position.index
  sorted : lx.diagnostics.Pairwise fun d e => d.position.index ≤ e.position.index

theorem tokens_ne_eof (lx : Lexer) : ∀ t ∈ lx.tokens.1, t.kind ≠ .eof := by
  induction lx using tokens.induct with
  | case1 lx step heof =>
    rw [tokens_of_eof heof]
    simp
  | case2 lx step hne ih =>
    rw [tokens_of_ne_eof hne]
    exact List.forall_mem_cons.mpr ⟨hne, ih⟩

theorem inOrder_lex (text : List Char) : InOrder (lex text).2 := by
  have hreported := reported_lex text
  obtain ⟨-, hplaced⟩ := (placed_ofText text).tokens
  refine ⟨hreported.phase, fun d hd => ?_, hreported.rising.imp Int.le_of_lt⟩
  obtain ⟨i, hi⟩ := hplaced.standing
  have hend : text.length ≤ i := List.drop_eq_nil_iff.mp (hi.rest.symm.trans (rest_tokens _))
  have hle := (hplaced.diagnostics d hd).le
  have hindex : (lex text).2.cursor.position.index = i := hi.index
  omega

end Lexer

namespace Parser

variable {s s' : State}

theorem consumed_add_pending (h : Moves s s') :
    s'.consumed + s'.pending.length = s.consumed + s.pending.length := by
  induction h with
  | refl => rfl
  | fault f p _ ih => exact ih
  | @advance m _ ih =>
    by_cases hk : m.current.kind = .eof
    · rwa [State.advance, if_pos hk]
    · have hpos : 0 < m.pending.length := by
        rw [State.pending, if_neg hk]
        exact Nat.succ_pos _
      rw [Grammar.consumed_advance hk, pending_advance, List.length_tail]
      omega

/-- The end token lies at the end of the text. -/
theorem current_of_moves (h : Moves s s')
    (hs : s.current.kind = .eof → s.current = .endAt s.ending) :
    s'.current.kind = .eof → s'.current = .endAt s'.ending := by
  induction h with
  | refl => exact hs
  | fault f p _ ih => exact ih
  | @advance m _ ih =>
    by_cases hk : m.current.kind = .eof
    · rwa [State.advance, if_pos hk]
    · intro heof
      have hnone : m.pending.tail = [] := by
        rw [← pending_advance, State.pending, if_pos heof]
      rw [ending_advance, current_advance hk, hnone]
      rfl

theorem phase_of_moves (h : Moves s s') (hs : ∀ d ∈ s.diagnostics, d.phase = .parser) :
    ∀ d ∈ s'.diagnostics, d.phase = .parser := by
  induction h with
  | refl => exact hs
  | advance _ ih => rwa [diagnostics_advance]
  | fault f p _ ih =>
    intro d hd
    obtain hd | hd := List.mem_append.mp hd
    · exact ih d hd
    · rw [List.mem_singleton.mp hd]

theorem kind_drain (s : State) : s.drain.current.kind = .eof := by
  induction s using State.drain.induct with
  | case1 s hk => rwa [State.drain, dif_pos hk]
  | case2 s hk ih => rwa [State.drain, dif_neg hk]

end Parser

namespace Grammar

theorem kind_program (room : Nat) (s : State) :
    ((program room).run s).2.current.kind = .eof := by
  rcases hs : (statements (room - 1) .eof).outcome s with ⟨e | ⟨complete, last⟩, m⟩
  · rw [program_of_outcome hs]
    exact kind_drain _
  · rw [program_of_outcome hs]
    cases hroom : room - 1 with
    | zero =>
      rw [hroom] at hs
      cases hs
    | succ room' =>
      rw [hroom] at hs
      exact (reads_of_statements hs).ends

/-- Where a parse ends, whatever it met on the way. -/
theorem program_ends (room : Nat) (supply : Supply) (text : List Char) :
    let s := ((program room).run (.ofSupply supply text)).2
    s.current = .endAt (.endOf text) ∧ s.consumed = supply.pending.length ∧
      s.supply.diagnostics = supply.finalDiagnostics ∧ ∀ d ∈ s.diagnostics, d.phase = .parser := by
  have hkind := kind_program room (.ofSupply supply text)
  obtain ⟨hmoves, -⟩ := program_follows room (Corresponds.refl (.ofSupply supply text))
  generalize ((program room).run (.ofSupply supply text)).2 = s at hkind hmoves
  refine ⟨?_, ?_, ?_, ?_⟩
  · have hending : s.ending = .endOf text := ending_of_moves hmoves
    rw [← hending]
    refine current_of_moves hmoves (fun heof => ?_) hkind
    have hnone : supply.pending = [] := Supply.pending_of_eof heof
    change (supply.pull (.endOf text)).1 = _
    rw [pull_token, hnone]
    rfl
  · have hconsumed := consumed_add_pending hmoves
    have hpending : s.pending = [] := by rw [State.pending, if_pos hkind]
    rw [hpending, pending_ofSupply] at hconsumed
    simpa [State.ofSupply] using hconsumed
  · rw [complete_of_moves hmoves (complete_ofSupply supply text) hkind,
      finalDiagnostics_of_moves hmoves, State.ofSupply, Supply.finalDiagnostics_pull]
  · exact phase_of_moves hmoves (by simp [State.ofSupply])

/-- A text is read like the list of its tokens. -/
theorem program_listed (room : Nat) (text : List Char) :
    let lazily := (program room).run (.ofSupply (.lexer (Lexer.ofText text)) text)
    let listed := (program room).run (.ofSupply (.tokens (lex text).1) text)
    lazily.1 = listed.1 ∧ lazily.2.diagnostics = listed.2.diagnostics := by
  have hpending : (Supply.tokens (lex text).1).pending =
      (Supply.lexer (Lexer.ofText text)).pending.map (Token.place id) := by
    have hne : ∀ t ∈ (lex text).1, t.kind ≠ .eof := Lexer.tokens_ne_eof _
    rw [pending_tokens hne]
    exact (List.map_id _).symm
  have hstart : Corresponds id (.ofSupply (.lexer (Lexer.ofText text)) text)
      (.ofSupply (.tokens (lex text).1) text) := corresponds_ofSupply hpending rfl
  obtain ⟨-, -, hstatements, hstates⟩ := program_follows room hstart
  constructor
  · rw [hstatements, List.map_congr_left fun n _ => n.place_id, List.map_id']
  · rw [hstates.diagnostics]
    exact (List.map_id _).symm

end Grammar

namespace Reading

open Scriptlet.Grammar

theorem filter_ordered (p : Diagnostic → Bool) (ds : List Diagnostic) :
    (Diagnostic.ordered ds).filter p = Diagnostic.ordered (ds.filter p) :=
  filter_mergeSort (fun _ _ _ h h' => by simp only [decide_eq_true_eq] at *; omega)
    (fun _ _ => by simp only [Bool.or_eq_true, decide_eq_true_eq]; omega) p ds

/-- The entries of either phase can be told apart in the diagnostics of both. -/
theorem entries {phase other : Phase} (hne : other ≠ phase) {ds es : List Diagnostic}
    (hds : ∀ d ∈ ds, d.phase = phase) (hes : ∀ e ∈ es, e.phase = other) :
    (ds ++ es).filter (·.phase = phase) = ds ∧ (ds ++ es).filter (·.phase = other) = es := by
  have hds' : ∀ d ∈ ds, ¬ decide (d.phase = other) = true := fun d hd => by
    simp [hds d hd, hne.symm]
  have hes' : ∀ e ∈ es, ¬ decide (e.phase = phase) = true := fun e he => by
    simp [hes e he, hne]
  constructor
  · rw [List.filter_append, List.filter_eq_self.mpr fun d hd => by simp [hds d hd],
      List.filter_eq_nil_iff.mpr hes', List.append_nil]
  · rw [List.filter_append, List.filter_eq_nil_iff.mpr hds',
      List.filter_eq_self.mpr fun e he => by simp [hes e he], List.nil_append]

/-- There is nothing in the diagnostics of a list but what the parser records. -/
theorem diagnostics_ofTokens (tokens : List Token) (text : List Char) :
    (ofTokens tokens text).diagnostics = Diagnostic.ordered (recorded tokens text) := by
  obtain ⟨-, -, hnothing, -⟩ := program_ends nestingLimit (.tokens tokens) text
  exact congrArg (fun ds => Diagnostic.ordered (ds ++ _)) hnothing

/-- The diagnostics of a text are those of the lexer and what the parser records about the list
of tokens. -/
theorem diagnostics_ofText (text : List Char) : (ofText text).diagnostics =
    Diagnostic.ordered ((lex text).2.diagnostics ++ recorded (lex text).1 text) := by
  obtain ⟨-, hsame⟩ := program_listed nestingLimit text
  obtain ⟨-, -, hfound, -⟩ := program_ends nestingLimit (.lexer (Lexer.ofText text)) text
  exact congrArg₂ (fun ds es => Diagnostic.ordered (ds ++ es)) hfound hsame

/-- Picked out of the diagnostics of a text, the faults of syntax are those of the list of its
tokens, and the others are what the lexer finds. -/
theorem diagnostics_listed (text : List Char) :
    (ofText text).diagnostics.filter (·.phase = .parser) =
        (ofTokens (lex text).1 text).diagnostics ∧
      (ofText text).diagnostics.filter (·.phase = .lexer) = (lex text).2.diagnostics := by
  have hphase : ∀ d ∈ recorded (lex text).1 text, d.phase = .parser :=
    (program_ends nestingLimit (.tokens (lex text).1) text).2.2.2
  have horder := Lexer.inOrder_lex text
  obtain ⟨hlexed, hparsed⟩ := entries (by decide) horder.phase hphase
  rw [diagnostics_ofText, diagnostics_ofTokens, filter_ordered, filter_ordered, hlexed, hparsed]
  refine ⟨rfl, List.mergeSort_of_pairwise ?_⟩
  simpa using horder.sorted

end Reading

open Grammar

/-- Nothing is lost when tokens are taken only as they are needed, whatever the room: the
statements and the faults are those of the list of all tokens, every parse consumes all tokens
and stops at the end, and the lexer reports what it would report to anyone who drains it. -/
theorem lazy_reading_loses_nothing (text : List Char) :
    (∀ room : Nat,
      let lazily := (program room).run (.ofSupply (.lexer (Lexer.ofText text)) text)
      let listed := (program room).run (.ofSupply (.tokens (lex text).1) text)
      lazily.1 = listed.1 ∧ lazily.2.diagnostics = listed.2.diagnostics ∧
        lazily.2.current = .endAt (.endOf text) ∧ lazily.2.consumed = (lex text).1.length ∧
        ∀ tokens : List Token,
          let s := ((program room).run (.ofSupply (.tokens tokens) text)).2
          s.current = .endAt (.endOf text) ∧
            s.consumed = (tokens.takeWhile (·.kind ≠ .eof)).length) ∧
      (Reading.ofText text).statements = (Reading.ofTokens (lex text).1 text).statements ∧
      (Reading.ofText text).diagnostics.filter (·.phase = .parser) =
        (Reading.ofTokens (lex text).1 text).diagnostics ∧
      (Reading.ofText text).diagnostics.filter (·.phase = .lexer) = (lex text).2.diagnostics := by
  obtain ⟨hparsed, hlexed⟩ := Reading.diagnostics_listed text
  refine ⟨fun room => ?_, (program_listed nestingLimit text).1, hparsed, hlexed⟩
  obtain ⟨hstatements, hdiagnostics⟩ := program_listed room text
  obtain ⟨hcurrent, hconsumed, -⟩ := program_ends room (.lexer (Lexer.ofText text)) text
  refine ⟨hstatements, hdiagnostics, hcurrent, hconsumed, fun tokens => ?_⟩
  obtain ⟨hcurrent, hconsumed, -⟩ := program_ends room (.tokens tokens) text
  exact ⟨hcurrent, hconsumed⟩

/-- There is no room for the second minus; the lexer still comes to the unknown character. -/
example :
    let text := "--1; @".toList
    let s := ((program 12).run (.ofSupply (.lexer (Lexer.ofText text)) text)).2
    s.diagnostics.map Diagnostic.message = ["expression nested too deeply"] ∧
      s.supply.diagnostics.map Diagnostic.message = ["invalid character '@'"] ∧
      s.consumed = 5 := by decide +kernel

end Scriptlet
