import Scriptlet.Token.Lexer

/-!
# Error tokens and lexical diagnostics

A scanned piece is an error token exactly when it comes with a fault, and the fault
of a piece is never a comment that is not closed: those belong to gaps. Hence a
lexer that is drained has found a fault other than such a comment exactly when it
gave an error token.
-/

namespace Scriptlet

/-- Is there a diagnostic of something else than a comment that is never closed? -/
def Faulty (ds : List Diagnostic) : Prop := ∃ d ∈ ds, d.message ≠ "unterminated block comment"

theorem faulty_append (ds es : List Diagnostic) : Faulty (ds ++ es) ↔ Faulty ds ∨ Faulty es := by
  simp [Faulty, or_and_right, exists_or]

/-- A text that starts differently is a different text. -/
theorem append_ne_of_start (start rest : String) {t : String}
    (h : start.toList.isPrefixOf t.toList = false) : start ++ rest ≠ t := by
  rintro rfl
  have hprefix : start.toList.isPrefixOf (start ++ rest).toList = true := by
    rw [String.toList_append, List.isPrefixOf_iff_prefix]
    exact List.prefix_append _ _
  rw [h] at hprefix
  cases hprefix

theorem LexicalFault.message_eq_comment_iff (f : LexicalFault) :
    f.message = "unterminated block comment" ↔ f = .unterminatedComment := by
  constructor
  · intro h
    cases f with
    | unterminatedString => exact absurd h (by decide)
    | malformedNumber => exact absurd h (by decide)
    | invalidCharacter c => exact absurd h (append_ne_of_start _ _ (by decide))
    | unterminatedComment => rfl
  · rintro rfl
    rfl

theorem LexicalFault.message_eq_string_iff (f : LexicalFault) :
    f.message = "unterminated string literal" ↔ f = .unterminatedString := by
  constructor
  · intro h
    cases f with
    | unterminatedString => rfl
    | malformedNumber => exact absurd h (by decide)
    | invalidCharacter c => exact absurd h (append_ne_of_start _ _ (by decide))
    | unterminatedComment => exact absurd h (by decide)
  · rintro rfl
    rfl

namespace Scan

/-- An error token with the fault it is for, or a token of the language without one. -/
def Piece.Sound (p : Piece) : Prop :=
  match p.fault with
  | none => p.kind ∉ [.error, .eof]
  | some f => p.kind = .error ∧ f ≠ .unterminatedComment

theorem Piece.Sound.kind_ne_eof {p : Piece} (h : p.Sound) : p.kind ≠ .eof := by
  rw [Piece.Sound] at h
  split at h
  · exact fun he => h (by simp [he])
  · simp [h.1]

theorem mem_of_lookup {α β : Type} [BEq α] [LawfulBEq α] {table : List (α × β)} {a : α} {b : β}
    (h : table.lookup a = some b) : (a, b) ∈ table := by
  obtain ⟨before, behind, rfl, -⟩ := List.lookup_eq_some_iff.mp h
  simp

theorem wordKind_sound (w : String) : Token.wordKind w ∉ [.error, .eof] := by
  rw [Token.wordKind]
  cases h : Token.keywords.lookup w with
  | none => decide
  | some k =>
    have hall : ∀ e ∈ Token.keywords, e.2 ∉ [.error, .eof] := by decide
    exact hall _ (mem_of_lookup h)

theorem operators_sound {glyph : List Char} {k : Token.Kind}
    (h : Token.operators.lookup glyph = some k) : k ∉ [.error, .eof] := by
  have hall : ∀ e ∈ Token.operators, e.2 ∉ [.error, .eof] := by decide
  exact hall _ (mem_of_lookup h)

theorem word_sound (s : List Char) : (word s).Sound := wordKind_sound _

theorem number_sound (s : List Char) : (number s).Sound := by
  rw [number]
  dsimp only
  split
  · split <;> simp [Piece.Sound]
  · simp [Piece.Sound]

theorem string_sound (s : List Char) : (string s).Sound := by
  rw [string]
  split <;> simp [Piece.Sound]

theorem operator_sound {s : List Char} {p : Piece} (h : operator? s = some p) : p.Sound := by
  rw [operator?] at h
  split at h
  · next k hk =>
    cases h
    exact operators_sound hk
  · obtain ⟨k, hk, rfl⟩ := Option.map_eq_some_iff.mp h
    exact operators_sound hk

theorem token_sound (c : Char) (s : List Char) : (token c s).Sound := by
  rw [token]
  split
  · exact word_sound s
  · split
    · exact number_sound s
    · split
      · exact string_sound s
      · cases h : operator? s with
        | none => simp [Piece.Sound]
        | some p => exact operator_sound h

end Scan

namespace Lexer

theorem take_lexeme (lx : Lexer) (piece : Scan.Piece) :
    (lx.take piece).1.lexeme = String.ofList (lx.cursor.rest.take piece.length) := by
  unfold take
  cases piece.fault <;> rfl

theorem take_position (lx : Lexer) (piece : Scan.Piece) :
    (lx.take piece).1.position = lx.cursor.position := by
  unfold take
  cases piece.fault <;> rfl

theorem take_cursor (lx : Lexer) (piece : Scan.Piece) :
    (lx.take piece).2.cursor = lx.cursor.skip piece.length := by
  unfold take
  cases piece.fault <;> rfl

theorem faulty_record (lx : Lexer) (f : LexicalFault) (p : Position) :
    Faulty (lx.record f p).diagnostics ↔ Faulty lx.diagnostics ∨ f ≠ .unterminatedComment := by
  have hone : Faulty [⟨.lexer, f.message, p⟩] ↔ f ≠ .unterminatedComment := by
    simp [Faulty, LexicalFault.message_eq_comment_iff]
  rw [record, faulty_append, hone]

theorem faulty_skipGap (lx : Lexer) : Faulty lx.skipGap.diagnostics ↔ Faulty lx.diagnostics := by
  unfold skipGap
  dsimp only
  split
  · rfl
  · rw [faulty_record]
    simp [skip]

theorem faulty_take (lx : Lexer) {piece : Scan.Piece} (h : piece.Sound) :
    Faulty (lx.take piece).2.diagnostics ↔
      Faulty lx.diagnostics ∨ (lx.take piece).1.kind = .error := by
  rw [take_kind]
  rw [Scan.Piece.Sound] at h
  simp only [take]
  cases hf : piece.fault with
  | none =>
    rw [hf] at h
    have hk : piece.kind ≠ .error := fun he => h (by simp [he])
    simp [skip, hk]
  | some f =>
    rw [hf] at h
    simp only [faulty_record, h.1, h.2, skip, ne_eq, not_false_eq_true]

theorem faulty_takeToken (lx : Lexer) :
    Faulty lx.takeToken.2.diagnostics ↔ Faulty lx.diagnostics ∨ lx.takeToken.1.kind = .error := by
  rw [takeToken]
  split
  · simp [Token.endAt]
  · exact faulty_take lx (Scan.token_sound _ _)

theorem faulty_next (lx : Lexer) :
    Faulty lx.next.2.diagnostics ↔ Faulty lx.diagnostics ∨ lx.next.1.kind = .error := by
  rw [next, faulty_takeToken, faulty_skipGap]

/-- The tokens from a lexer that stands before the end, and before it. -/
theorem tokens_of_eof {lx : Lexer} (h : lx.next.1.kind = .eof) : lx.tokens = ([], lx.next.2) := by
  rw [tokens]
  simp [h]

theorem tokens_of_ne_eof {lx : Lexer} (h : lx.next.1.kind ≠ .eof) :
    lx.tokens = (lx.next.1 :: lx.next.2.tokens.1, lx.next.2.tokens.2) := by
  rw [tokens]
  simp [h]

theorem faulty_tokens (lx : Lexer) :
    Faulty lx.tokens.2.diagnostics ↔
      Faulty lx.diagnostics ∨ ∃ t ∈ lx.tokens.1, t.kind = .error := by
  induction lx using tokens.induct with
  | case1 lx step h =>
    have hstep : lx.next.1.kind ≠ .error := by
      intro he
      have := h
      simp only [step, he, reduceCtorEq] at this
    simp [tokens_of_eof h, faulty_next, hstep]
  | case2 lx step h ih =>
    rw [tokens_of_ne_eof h]
    simp only [step] at ih
    simp only [ih, faulty_next, List.mem_cons, exists_eq_or_imp, or_assoc]

section Step

variable {lx : Lexer}

/-- A step behind a gap. -/
theorem next_of_rest {c : Char} {r : List Char} (h : lx.skipGap.cursor.rest = c :: r) :
    lx.next = lx.skipGap.take (Scan.token c (c :: r)) := by
  rw [next, takeToken, h]

theorem next_of_rest_nil (h : lx.skipGap.cursor.rest = []) :
    lx.next = (.endAt lx.skipGap.cursor.position, lx.skipGap) := by
  rw [next, takeToken, h]

/-- A token that is not the end token is what is scanned behind a gap. -/
theorem next_of_ne_eof (h : lx.next.1.kind ≠ .eof) : ∃ c r,
    lx.skipGap.cursor.rest = c :: r ∧ lx.next = lx.skipGap.take (Scan.token c (c :: r)) := by
  cases hrest : lx.skipGap.cursor.rest with
  | nil =>
    rw [next_of_rest_nil hrest] at h
    exact absurd rfl h
  | cons c r => exact ⟨c, r, rfl, next_of_rest hrest⟩

/-- The end token is found at the end. -/
theorem skipGap_rest_of_eof (h : lx.next.1.kind = .eof) : lx.skipGap.cursor.rest = [] := by
  cases hrest : lx.skipGap.cursor.rest with
  | nil => rfl
  | cons c r =>
    rw [next_of_rest hrest, take_kind] at h
    exact absurd h (Scan.token_sound c _).kind_ne_eof

theorem rest_of_eof (h : lx.next.1.kind = .eof) : lx.next.2.cursor.rest = [] := by
  rw [next_of_rest_nil (skipGap_rest_of_eof h)]
  exact skipGap_rest_of_eof h

/-- At the end a step changes nothing. -/
theorem next_of_end (h : lx.cursor.rest = []) : lx.next = (.endAt lx.cursor.position, lx) := by
  have hgap : lx.skipGap = lx := by
    rw [skipGap, h, Scan.gap]
    rfl
  rw [next, hgap, takeToken, h]

theorem tokens_of_rest_nil (h : lx.cursor.rest = []) :
    lx.tokens.1 = [] ∧ lx.tokens.2.diagnostics = lx.diagnostics := by
  have hnext := next_of_end h
  rw [tokens_of_eof (by rw [hnext]; rfl), hnext]
  exact ⟨rfl, rfl⟩

end Step

end Lexer

end Scriptlet
