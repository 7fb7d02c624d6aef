import Scriptlet.Grammar.Program
import Scriptlet.Proofs.Token.Partition

/-!
# Where tokens and diagnostics lie

A lexer counts lines and columns as it goes. Whatever it was made to do, it stands where
counting the line feeds of the text in front of it would place it, and so do the tokens it
gave and the faults it found. At the end of the text this is the end that a parser takes
for its own.
-/

namespace Scriptlet

namespace Position

/-- Stepping over a text comes to the same as counting its line feeds. -/
theorem after_eq_endOf (cs : List Char) : ({} : Position).after cs = endOf cs := by
  induction cs using List.reverseRecOn with
  | nil => rfl
  | append_singleton cs c ih =>
    rw [after_append, ih, after_cons, after_nil, advance]
    split
    · next hc => simp [endOf, hc]
    · next hc => simp [endOf, hc]

/-- The position is the one that the offset has in the text. -/
structure Counted (text : List Char) (p : Position) : Prop where
  nonneg : 0 ≤ p.index
  le : p.index ≤ text.length
  eq : p = endOf (text.take p.index.toNat)

end Position

namespace Lexer

/-- What a lexer can be made to do, wherever it stands. -/
inductive Operation where
  | advance
  | next
  | skipGap
  | skipLine
  | skipComment
  | takeOperator
  | takeWord
  | takeNumber
  | takeString
deriving DecidableEq, Repr

/-- The token that a step gives, if it gives one, and the lexer after it. A step may fail at
the end of the text. -/
def step (lx : Lexer) : Operation → Option Token × Lexer
  | .advance =>
    match lx.advance with
    | .ok (_, moved) => (none, moved)
    | .error _ => (none, lx)
  | .next => (some lx.next.1, lx.next.2)
  | .skipGap => (none, lx.skipGap)
  | .skipLine => (none, lx.skipLine)
  | .skipComment => (none, lx.skipComment.2)
  | .takeOperator => lx.takeOperator
  | .takeWord => (some lx.takeWord.1, lx.takeWord.2)
  | .takeNumber => (some lx.takeNumber.1, lx.takeNumber.2)
  | .takeString => (lx.takeString.1.toOption, lx.takeString.2)

/-- The tokens that some steps give one after another, and the lexer after them. -/
def perform (lx : Lexer) : List Operation → List Token × Lexer
  | [] => ([], lx)
  | operation :: operations =>
    let (token, moved) := lx.step operation
    let (tokens, last) := moved.perform operations
    (token.toList ++ tokens, last)

/-- The lexer stands in the text, and all that it found is placed there. -/
structure Placed (text : List Char) (lx : Lexer) : Prop where
  standing : ∃ i, IsAt text i lx
  diagnostics : ∀ d ∈ lx.diagnostics, d.position.Counted text

variable {text : List Char} {lx : Lexer}

theorem placed_ofText (text : List Char) : Placed text (ofText text) :=
  ⟨⟨0, isAt_ofText text⟩, by simp [ofText]⟩

theorem IsAt.counted {i : Nat} (h : IsAt text i lx) : lx.cursor.position.Counted text := by
  have hindex := h.index
  have hle := h.le
  refine ⟨by omega, by omega, ?_⟩
  rw [hindex, Int.toNat_natCast, ← Position.after_eq_endOf]
  exact h.position

theorem rest_tokens (lx : Lexer) : lx.tokens.2.cursor.rest = [] := by
  induction lx using tokens.induct with
  | case1 lx step heof =>
    rw [tokens_of_eof heof]
    exact rest_of_eof heof
  | case2 lx step hne ih =>
    rw [tokens_of_ne_eof hne]
    exact ih

/-- A lexer that gave all its tokens goes on giving the end token. -/
theorem next_tokens (lx : Lexer) : lx.tokens.2.next.1.kind = .eof := by
  by_contra hne
  have hnone := (tokens_of_rest_nil (rest_tokens lx)).1
  rw [tokens_of_ne_eof hne] at hnone
  cases hnone

namespace Placed

theorem position (h : Placed text lx) : lx.cursor.position.Counted text := by
  obtain ⟨i, hi⟩ := h.standing
  exact hi.counted

/-- A step beyond the end of the text is one to the end. -/
theorem skip (h : Placed text lx) (n : Nat) : Placed text (lx.skip n) := by
  obtain ⟨i, hi⟩ := h.standing
  rcases Nat.le_total n (text.drop i).length with hn | hn
  · exact ⟨⟨_, hi.skip hn⟩, h.diagnostics⟩
  · have hend : lx.skip n = lx.skip (text.drop i).length := by
      simp only [Lexer.skip, Cursor.skip, hi.rest, List.drop_of_length_le hn,
        List.take_of_length_le hn, List.drop_length, List.take_length]
    rw [hend]
    exact ⟨⟨_, hi.skip (Nat.le_refl _)⟩, h.diagnostics⟩

theorem record (h : Placed text lx) (f : LexicalFault) {p : Position} (hp : p.Counted text) :
    Placed text (lx.record f p) := by
  obtain ⟨i, hi⟩ := h.standing
  refine ⟨⟨i, hi.record f p⟩, fun d hd => ?_⟩
  obtain hd | hd := List.mem_append.mp hd
  · exact h.diagnostics d hd
  · rw [List.mem_singleton.mp hd]
    exact hp

theorem take (h : Placed text lx) (piece : Scan.Piece) :
    (lx.take piece).1.position.Counted text ∧ Placed text (lx.take piece).2 := by
  rw [Lexer.take]
  cases piece.fault with
  | none => exact ⟨h.position, h.skip _⟩
  | some f => exact ⟨h.position, (h.skip _).record f h.position⟩

theorem skipGap (h : Placed text lx) : Placed text lx.skipGap := by
  cases hopen : (Scan.gap lx.cursor.rest).unclosed with
  | none =>
    rw [skipGap_closed hopen]
    exact h.skip _
  | some n =>
    rw [skipGap_open hopen]
    exact (h.skip _).record _ (h.skip n).position

theorem next (h : Placed text lx) :
    lx.next.1.position.Counted text ∧ Placed text lx.next.2 := by
  rw [Lexer.next, takeToken]
  split
  · exact ⟨h.skipGap.position, h.skipGap⟩
  · exact h.skipGap.take _

theorem skipComment (h : Placed text lx) : Placed text lx.skipComment.2 := by
  rw [Lexer.skipComment]
  split
  · exact h.skip 1
  · split
    · exact h.skip _
    · exact (h.skip _).record _ h.position

/-- One step, whether it fails or not. -/
theorem step (h : Placed text lx) (operation : Operation) :
    (∀ t ∈ (lx.step operation).1, t.position.Counted text) ∧
      Placed text (lx.step operation).2 := by
  cases operation with
  | advance =>
    cases hrest : lx.cursor.rest with
    | nil => simpa [Lexer.step, Lexer.advance, Cursor.advance, hrest] using h
    | cons c rest =>
      simpa [Lexer.step, Lexer.advance, Cursor.advance, hrest, Lexer.skip] using h.skip 1
  | next => exact ⟨by simpa [Lexer.step] using h.next.1, h.next.2⟩
  | skipGap => exact ⟨by simp [Lexer.step], h.skipGap⟩
  | skipLine => exact ⟨by simp [Lexer.step], h.skip _⟩
  | skipComment => exact ⟨by simp [Lexer.step], h.skipComment⟩
  | takeOperator =>
    rw [Lexer.step, takeOperator]
    split
    · exact ⟨by simp, h⟩
    · next piece _ => exact ⟨by simpa using (h.take piece).1, (h.take piece).2⟩
  | takeWord => exact ⟨by simpa [Lexer.step, Lexer.takeWord] using (h.take _).1, (h.take _).2⟩
  | takeNumber => exact ⟨by simpa [Lexer.step, Lexer.takeNumber] using (h.take _).1, (h.take _).2⟩
  | takeString =>
    rw [Lexer.step, takeString]
    split
    · exact ⟨by simp [Except.toOption], h⟩
    · exact ⟨by simpa [Except.toOption] using (h.take _).1, (h.take _).2⟩

/-- Steps one after another. -/
theorem perform (operations : List Operation) : ∀ {lx : Lexer}, Placed text lx →
    (∀ t ∈ (lx.perform operations).1, t.position.Counted text) ∧
      Placed text (lx.perform operations).2 := by
  induction operations with
  | nil => exact fun h => ⟨by simp [Lexer.perform], h⟩
  | cons operation operations ih =>
    intro lx h
    obtain ⟨htoken, hmoved⟩ := h.step operation
    obtain ⟨htokens, hlast⟩ := ih hmoved
    refine ⟨fun t ht => ?_, hlast⟩
    rcases List.mem_append.mp ht with ht | ht
    · exact htoken t (Option.mem_toList.mp ht)
    · exact htokens t ht

/-- All tokens up to the end. -/
theorem tokens (lx : Lexer) : Placed text lx →
    (∀ t ∈ lx.tokens.1, t.position.Counted text) ∧ Placed text lx.tokens.2 := by
  induction lx using tokens.induct with
  | case1 lx step heof =>
    intro h
    rw [tokens_of_eof heof]
    exact ⟨by simp, h.next.2⟩
  | case2 lx step hne ih =>
    intro h
    obtain ⟨hmore, hlast⟩ := ih h.next.2
    rw [tokens_of_ne_eof hne]
    refine ⟨fun t ht => ?_, hlast⟩
    rcases List.mem_cons.mp ht with rfl | ht
    · exact h.next.1
    · exact hmore t ht

/-- The end token lies at the end of the text. -/
theorem next_of_eof (h : Placed text lx) (heof : lx.next.1.kind = .eof) :
    lx.next.1 = .endAt (.endOf text) := by
  obtain ⟨i, hi⟩ := h.skipGap.standing
  have hnone : lx.skipGap.cursor.rest = [] := by
    rw [Lexer.next, takeToken] at heof
    split at heof
    · next hrest => exact hrest
    · next c rest hrest =>
      rw [take_kind] at heof
      exact absurd heof (Scan.token_sound c _).kind_ne_eof
  have hlength : text.length ≤ i := List.drop_eq_nil_iff.mp (hi.rest.symm.trans hnone)
  rw [Lexer.next, takeToken, hnone]
  dsimp only
  rw [hi.position, List.take_of_length_le hlength, Position.after_eq_endOf]

/-- The end that a parser puts in the place of the lexer's is the same. -/
theorem pull (h : Placed text lx) :
    (Supply.lexer lx).pull (.endOf text) = (lx.next.1, .lexer lx.next.2) := by
  by_cases heof : lx.next.1.kind = .eof
  · simp only [Supply.pull, if_pos heof]
    rw [h.next_of_eof heof]
  · simp only [Supply.pull, if_neg heof]

end Placed

end Lexer

/-- The two ways of finding a position agree: wherever steps of any kind bring a lexer, it
stands where counting the text in front of it places it, and so do the tokens and the
diagnostics on the way. The end token is that of the parser. -/
theorem positions_are_counted (text : List Char) :
    (∀ operations : List Lexer.Operation,
      let (tokens, lx) := (Lexer.ofText text).perform operations
      lx.cursor.position.Counted text ∧
        (∀ t ∈ tokens, t.position.Counted text) ∧
        (∀ d ∈ lx.diagnostics, d.position.Counted text) ∧
        (lx.next.1.kind = .eof → lx.next.1 = .endAt (.endOf text)) ∧
        (Supply.lexer lx).pull (.endOf text) = (lx.next.1, .lexer lx.next.2)) ∧
      (∀ t ∈ (lex text).1, t.position.Counted text) ∧
      (∀ d ∈ (lex text).2.diagnostics, d.position.Counted text) ∧
      (lex text).2.next.1 = .endAt (.endOf text) := by
  have hstart := Lexer.placed_ofText text
  obtain ⟨htokens, hdrained⟩ := hstart.tokens
  refine ⟨fun operations => ?_, htokens, hdrained.diagnostics,
    hdrained.next_of_eof (Lexer.next_tokens _)⟩
  obtain ⟨hgiven, hlast⟩ := hstart.perform operations
  exact ⟨hlast.position, hgiven, hlast.diagnostics, hlast.next_of_eof, hlast.pull⟩

end Scriptlet
