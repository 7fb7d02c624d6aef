import Scriptlet.Proofs.Token.LineEnd
import Scriptlet.Proofs.Token.Placement
import Scriptlet.Proofs.Tree.Placing

/-!
# Lines behind lines

A text that does not end within a string or a comment is lexed in front of more lines as it is
alone. The lines behind it are lexed as a text of their own: only their positions tell that they
are not.
-/

namespace Scriptlet

namespace Position

/-- The position that one in a text has when full lines are put in front of the text. -/
def below (lines : List Char) (p : Position) : Position :=
  ⟨p.index + lines.length, p.line + lines.count '\n', p.column⟩

theorem below_advance (lines : List Char) (p : Position) (c : Char) :
    (p.advance c).below lines = (p.below lines).advance c := by
  rw [advance, advance]
  split <;> simp only [below, Position.mk.injEq, and_true] <;> omega

/-- A map that keeps each step keeps the way over a text. -/
theorem map_after {g : Position → Position} (hg : ∀ p c, g (advance p c) = (g p).advance c)
    (cs : List Char) (p : Position) : g (p.after cs) = (g p).after cs := by
  induction cs generalizing p with
  | nil => rfl
  | cons c cs ih => rw [after_cons, after_cons, ih, hg]

/-- Behind a line feed the columns are counted anew. -/
theorem after_lines (front : List Char) :
    ({} : Position).after (front ++ ['\n']) = ({} : Position).below (front ++ ['\n']) := by
  rw [after_eq_endOf, endOf, below]
  simp only [Position.mk.injEq, List.reverse_append, List.reverse_singleton]
  refine ⟨?_, ?_, ?_⟩
  · omega
  · omega
  · simp

theorem endOf_lines (front t : List Char) :
    endOf (front ++ '\n' :: t) = (endOf t).below (front ++ ['\n']) := by
  have hkept := map_after (below_advance (front ++ ['\n'])) t {}
  rw [List.append_cons front '\n' t, ← after_eq_endOf, ← after_eq_endOf, after_append, after_lines,
    hkept]

end Position

namespace Lexer

variable {lx lx' : Lexer} {g : Position → Position} {t : List Char}

/-- What is to come and what was found is the same for the second lexer, placed anew. -/
structure Corresponds (g : Position → Position) (lx lx' : Lexer) : Prop where
  rest : lx'.cursor.rest = lx.cursor.rest
  position : lx'.cursor.position = g lx.cursor.position
  diagnostics : lx'.diagnostics = lx.diagnostics.map (Diagnostic.place g)

namespace Corresponds

theorem record (h : Corresponds g lx lx') (f : LexicalFault) (p : Position) :
    Corresponds g (lx.record f p) (lx'.record f (g p)) := by
  refine ⟨h.rest, h.position, ?_⟩
  simp only [Lexer.record, h.diagnostics, List.map_append]
  rfl

variable (hg : ∀ p c, g (Position.advance p c) = (g p).advance c)

include hg

theorem skip (h : Corresponds g lx lx') (n : Nat) : Corresponds g (lx.skip n) (lx'.skip n) := by
  refine ⟨?_, ?_, h.diagnostics⟩
  · rw [skip_cursor, skip_cursor, Cursor.skip_rest, Cursor.skip_rest, h.rest]
  · rw [skip_cursor, skip_cursor, Cursor.skip_position, Cursor.skip_position, h.rest, h.position,
      Position.map_after hg]

theorem skipGap (h : Corresponds g lx lx') : Corresponds g lx.skipGap lx'.skipGap := by
  have hmoved := h.skip hg (Scan.gap lx.cursor.rest).length
  cases hunclosed : (Scan.gap lx.cursor.rest).unclosed with
  | none =>
    rwa [skipGap_closed hunclosed, skipGap_closed (h.rest ▸ hunclosed), h.rest]
  | some n =>
    have hcomment := (h.skip hg n).position
    rw [skip_cursor, skip_cursor] at hcomment
    rw [skipGap_open hunclosed, skipGap_open (h.rest ▸ hunclosed), h.rest, hcomment]
    exact hmoved.record _ _

theorem take (h : Corresponds g lx lx') (piece : Scan.Piece) :
    (lx'.take piece).1 = (lx.take piece).1.place g ∧
      Corresponds g (lx.take piece).2 (lx'.take piece).2 := by
  have hmoved := h.skip hg piece.length
  rw [Lexer.take, Lexer.take, h.rest, h.position]
  cases piece.fault with
  | none => exact ⟨rfl, hmoved⟩
  | some f => exact ⟨rfl, hmoved.record _ _⟩

theorem next (h : Corresponds g lx lx') :
    lx'.next.1 = lx.next.1.place g ∧ Corresponds g lx.next.2 lx'.next.2 := by
  have hskipped := h.skipGap hg
  rw [Lexer.next, Lexer.next, takeToken, takeToken, hskipped.rest]
  split
  · exact ⟨by rw [hskipped.position]; rfl, hskipped⟩
  · exact hskipped.take hg _

theorem tokens (lx : Lexer) : ∀ lx' : Lexer, Corresponds g lx lx' →
    lx'.tokens.1 = lx.tokens.1.map (Token.place g) ∧ Corresponds g lx.tokens.2 lx'.tokens.2 := by
  induction lx using tokens.induct with
  | case1 lx step heof =>
    intro lx' h
    obtain ⟨htoken, hnext⟩ := h.next hg
    have heof' : lx'.next.1.kind = .eof := by
      rw [htoken]
      exact heof
    rw [tokens_of_eof heof, tokens_of_eof heof']
    exact ⟨rfl, hnext⟩
  | case2 lx step hne ih =>
    intro lx' h
    obtain ⟨htoken, hnext⟩ := h.next hg
    have hne' : lx'.next.1.kind ≠ .eof := by
      rw [htoken]
      exact hne
    obtain ⟨htokens, hlast⟩ := ih _ hnext
    rw [tokens_of_ne_eof hne, tokens_of_ne_eof hne', htokens, htoken]
    exact ⟨rfl, hlast⟩

end Corresponds

/-- A gap may be skipped in two steps. -/
theorem skipGap_behind {n : Nat}
    (h : Scan.gap lx.cursor.rest = (Scan.gap (lx.cursor.rest.drop n)).behind n) :
    lx.skipGap = (lx.skip n).skipGap := by
  have hskip (m : Nat) : lx.skip (n + m) = (lx.skip n).skip m := by
    simp only [Lexer.skip, Cursor.skip_skip]
  cases hunclosed : (Scan.gap (lx.cursor.rest.drop n)).unclosed with
  | none =>
    rw [skipGap_closed (by rw [h, Scan.Gap.behind, hunclosed]; rfl), h]
    exact (hskip _).trans (skipGap_closed hunclosed).symm
  | some m =>
    rw [skipGap_open (by rw [h, Scan.Gap.behind, hunclosed]; rfl), h]
    refine .trans ?_ (skipGap_open hunclosed).symm
    rw [skip_cursor, Cursor.skip_skip]
    exact congrArg (fun lx => record lx _ _) (hskip _)

/-- Did the text end within a string or within a comment? -/
def BrokenOff (ds : List Diagnostic) : Prop :=
  ∃ d ∈ ds, d.message = "unterminated string literal" ∨ d.message = "unterminated block comment"

theorem not_brokenOff_nil : ¬ BrokenOff [] := by simp [BrokenOff]

theorem brokenOff_record (lx : Lexer) (f : LexicalFault) (p : Position) :
    BrokenOff (lx.record f p).diagnostics ↔
      BrokenOff lx.diagnostics ∨ f = .unterminatedString ∨ f = .unterminatedComment := by
  simp [BrokenOff, record, or_and_right, exists_or, LexicalFault.message_eq_string_iff,
    LexicalFault.message_eq_comment_iff]

theorem brokenOff_skipGap : BrokenOff lx.skipGap.diagnostics ↔
    BrokenOff lx.diagnostics ∨ (Scan.gap lx.cursor.rest).unclosed ≠ none := by
  cases hunclosed : (Scan.gap lx.cursor.rest).unclosed with
  | none => simp [skipGap_closed hunclosed, Lexer.skip]
  | some n => simp [skipGap_open hunclosed, brokenOff_record]

theorem brokenOff_take {piece : Scan.Piece} (hsound : piece.Sound) :
    BrokenOff (lx.take piece).2.diagnostics ↔
      BrokenOff lx.diagnostics ∨ piece.fault = some .unterminatedString := by
  rw [Scan.Piece.Sound] at hsound
  rw [take]
  cases hfault : piece.fault with
  | none => simp [Lexer.skip]
  | some f =>
    rw [hfault] at hsound
    simp [brokenOff_record, Lexer.skip, hsound.2]

/-- A step that breaks nothing off: the gap is closed, and the token behind it is no open string. -/
theorem whole_of_next (h : ¬ BrokenOff lx.next.2.diagnostics) : ¬ BrokenOff lx.diagnostics ∧
    (Scan.gap lx.cursor.rest).unclosed = none ∧
    ∀ c r, lx.skipGap.cursor.rest = c :: r →
      (Scan.token c (c :: r)).fault ≠ some .unterminatedString := by
  have hgap : ¬ BrokenOff lx.skipGap.diagnostics ∧ ∀ c r, lx.skipGap.cursor.rest = c :: r →
      (Scan.token c (c :: r)).fault ≠ some .unterminatedString := by
    cases hrest : lx.skipGap.cursor.rest with
    | nil =>
      rw [next_of_rest_nil hrest] at h
      exact ⟨h, nofun⟩
    | cons c r =>
      rw [next_of_rest hrest, brokenOff_take (Scan.token_sound c _), not_or] at h
      refine ⟨h.1, fun d s heq => ?_⟩
      cases heq
      exact h.2
  rw [brokenOff_skipGap, not_or, not_not] at hgap
  exact ⟨hgap.1.1, hgap.1.2, hgap.2⟩

/-- What was broken off stays so. -/
theorem whole_of_tokens (lx : Lexer) : ¬ BrokenOff lx.tokens.2.diagnostics →
    ¬ BrokenOff lx.next.2.diagnostics := by
  induction lx using tokens.induct with
  | case1 lx step heof =>
    intro h
    rwa [tokens_of_eof heof] at h
  | case2 lx step hne ih =>
    intro h
    rw [tokens_of_ne_eof hne] at h
    exact (whole_of_next (ih h)).1

/-- The lexer as it would be if it had found some faults before. -/
def having (ds : List Diagnostic) (lx : Lexer) : Lexer :=
  { lx with diagnostics := ds ++ lx.diagnostics }

section Having

variable (ds : List Diagnostic)

theorem having_record (lx : Lexer) (f : LexicalFault) (p : Position) :
    (lx.having ds).record f p = (lx.record f p).having ds := by
  simp only [having, record, List.append_assoc]

theorem having_take (piece : Scan.Piece) :
    (lx.having ds).take piece = ((lx.take piece).1, (lx.take piece).2.having ds) := by
  rw [take, take]
  cases piece.fault with
  | none => rfl
  | some f => exact Prod.ext rfl (having_record ds (lx.skip piece.length) f lx.cursor.position)

theorem having_skipGap : (lx.having ds).skipGap = lx.skipGap.having ds := by
  have hrest : (lx.having ds).cursor.rest = lx.cursor.rest := rfl
  cases hunclosed : (Scan.gap lx.cursor.rest).unclosed with
  | none =>
    rw [skipGap_closed hunclosed, skipGap_closed (hrest ▸ hunclosed)]
    rfl
  | some n =>
    rw [skipGap_open hunclosed, skipGap_open (hrest ▸ hunclosed)]
    exact having_record ds (lx.skip (Scan.gap lx.cursor.rest).length) _ _

theorem having_next (lx : Lexer) : (lx.having ds).next = (lx.next.1, lx.next.2.having ds) := by
  rw [next, next, having_skipGap, takeToken, takeToken, having]
  dsimp only
  split
  · rfl
  · exact having_take ds _

/-- Earlier faults change nothing about what is still found. -/
theorem having_tokens (lx : Lexer) :
    (lx.having ds).tokens = (lx.tokens.1, lx.tokens.2.having ds) := by
  induction lx using tokens.induct with
  | case1 lx step heof =>
    have hnext := having_next ds lx
    rw [tokens_of_eof heof, tokens_of_eof (by rw [hnext]; exact heof), hnext]
  | case2 lx step hne ih =>
    have hnext := having_next ds lx
    rw [tokens_of_ne_eof hne, tokens_of_ne_eof (by rw [hnext]; exact hne), hnext, ih]

end Having

/-- The second lexer has more lines before it, behind those of the first one. -/
structure Continued (t : List Char) (lx lx' : Lexer) : Prop where
  rest : lx'.cursor.rest = lx.cursor.rest ++ '\n' :: t
  position : lx'.cursor.position = lx.cursor.position
  diagnostics : lx'.diagnostics = lx.diagnostics

namespace Continued

theorem skip (h : Continued t lx lx') {n : Nat} (hn : n ≤ lx.cursor.rest.length) :
    Continued t (lx.skip n) (lx'.skip n) := by
  refine ⟨?_, ?_, h.diagnostics⟩
  · rw [skip_cursor, skip_cursor, Cursor.skip_rest, Cursor.skip_rest, h.rest,
      List.drop_append_of_le_length hn]
  · rw [skip_cursor, skip_cursor, Cursor.skip_position, Cursor.skip_position, h.rest, h.position,
      List.take_append_of_le_length hn]

theorem skipGap (h : Continued t lx lx') (hclosed : (Scan.gap lx.cursor.rest).unclosed = none)
    (hne : lx.skipGap.cursor.rest ≠ []) : Continued t lx.skipGap lx'.skipGap := by
  have hlt : (Scan.gap lx.cursor.rest).length < lx.cursor.rest.length := by
    rwa [skipGap_rest, ne_eq, List.drop_eq_nil_iff, Nat.not_le] at hne
  have hgap : Scan.gap lx'.cursor.rest = Scan.gap lx.cursor.rest := by
    rw [h.rest, Scan.gap_line t hclosed, if_neg (Nat.not_le.mpr hlt)]
  rw [skipGap_closed hclosed, skipGap_closed (hgap ▸ hclosed), hgap]
  exact h.skip (Nat.le_of_lt hlt)

theorem take (h : Continued t lx lx') {piece : Scan.Piece}
    (hlength : piece.length ≤ lx.cursor.rest.length) :
    (lx'.take piece).1 = (lx.take piece).1 ∧ Continued t (lx.take piece).2 (lx'.take piece).2 := by
  have hmoved := h.skip hlength
  rw [Lexer.take, Lexer.take, h.rest, h.position, List.take_append_of_le_length hlength]
  cases piece.fault with
  | none => exact ⟨rfl, hmoved⟩
  | some f =>
    refine ⟨rfl, hmoved.rest, hmoved.position, ?_⟩
    simp only [record, hmoved.diagnostics]

/-- A token that is not broken off is taken as it is at the end of the text. -/
theorem next (h : Continued t lx lx') (hwhole : ¬ BrokenOff lx.next.2.diagnostics)
    (hne : lx.next.1.kind ≠ .eof) :
    lx'.next.1 = lx.next.1 ∧ Continued t lx.next.2 lx'.next.2 := by
  obtain ⟨-, hclosed, htoken⟩ := whole_of_next hwhole
  obtain ⟨c, r, hrest, hnext⟩ := next_of_ne_eof hne
  have hgap := h.skipGap hclosed (by rw [hrest]; exact List.cons_ne_nil c r)
  have hrest' : lx'.skipGap.cursor.rest = c :: (r ++ '\n' :: t) := by
    rw [hgap.rest, hrest, List.cons_append]
  have hlength : (Scan.token c (c :: r)).length ≤ lx.skipGap.cursor.rest.length := by
    rw [hrest]
    exact Scan.token_length_le c r
  rw [hnext, next_of_rest hrest', ← List.cons_append, Scan.token_line t (htoken c r hrest)]
  exact hgap.take hlength

theorem drop_rest (h : Continued t lx lx') :
    lx'.cursor.rest.drop (lx.cursor.rest.length + 1) = t := by
  rw [h.rest, ← List.drop_drop, List.drop_left]
  rfl

/-- Behind its last gap the second lexer goes on in the next line. -/
theorem next_of_eof (h : Continued t lx lx') (hwhole : ¬ BrokenOff lx.next.2.diagnostics)
    (heof : lx.next.1.kind = .eof) :
    lx'.next = (lx'.skip (lx.cursor.rest.length + 1)).next := by
  obtain ⟨-, hclosed, -⟩ := whole_of_next hwhole
  have hle : lx.cursor.rest.length ≤ (Scan.gap lx.cursor.rest).length := by
    rw [← List.drop_eq_nil_iff, ← skipGap_rest]
    exact skipGap_rest_of_eof heof
  have hgap : Scan.gap lx'.cursor.rest =
      (Scan.gap (lx'.cursor.rest.drop (lx.cursor.rest.length + 1))).behind
        (lx.cursor.rest.length + 1) := by
    rw [h.drop_rest, h.rest, Scan.gap_line t hclosed, if_pos hle]
  rw [Lexer.next, Lexer.next, skipGap_behind hgap]

/-- The tokens of the first lexer come first, and then those of the lines behind. -/
theorem tokens {text : List Char} (lx : Lexer) : ∀ lx' : Lexer, Continued t lx lx' →
    Placed text lx' → ¬ BrokenOff lx.tokens.2.diagnostics →
    ∃ last : Lexer, lx'.tokens = (lx.tokens.1 ++ last.tokens.1, last.tokens.2) ∧
      Placed text last ∧ last.cursor.rest = t ∧ last.diagnostics = lx.tokens.2.diagnostics := by
  induction lx using tokens.induct with
  | case1 lx step heof =>
    intro lx' h hplaced hwhole
    have hnext := whole_of_tokens lx hwhole
    obtain ⟨-, hclosed, -⟩ := whole_of_next hnext
    refine ⟨lx'.skip (lx.cursor.rest.length + 1), ?_, hplaced.skip _, h.drop_rest, ?_⟩
    · rw [tokens_of_eof heof, List.nil_append, Lexer.tokens, h.next_of_eof hnext heof]
      exact (Lexer.tokens.eq_def _).symm
    · rw [tokens_of_eof heof, next_of_rest_nil (skipGap_rest_of_eof heof), skipGap_closed hclosed]
      exact h.diagnostics
  | case2 lx step hne ih =>
    intro lx' h hplaced hwhole
    obtain ⟨htoken, hmoved⟩ := h.next (whole_of_tokens lx hwhole) hne
    have hne' : lx'.next.1.kind ≠ .eof := by
      rw [htoken]
      exact hne
    rw [tokens_of_ne_eof hne] at hwhole ⊢
    obtain ⟨last, htokens, hlast⟩ := ih _ hmoved hplaced.next.2 hwhole
    refine ⟨last, ?_, hlast⟩
    rw [tokens_of_ne_eof hne', htokens, htoken, List.cons_append]

/-- Where there is nothing but a semicolon in the next line, the second lexer is broken off where
the first one is. -/
theorem whole_next (h : Continued [';'] lx lx') (hwhole : ¬ BrokenOff lx'.next.2.diagnostics) :
    ¬ BrokenOff lx.next.2.diagnostics := by
  obtain ⟨hbefore, hclosed, htoken⟩ := whole_of_next hwhole
  rw [h.diagnostics] at hbefore
  rw [h.rest] at hclosed
  have hclosed := Scan.closed_semicolon hclosed
  have hskipped : ¬ BrokenOff lx.skipGap.diagnostics := by
    rw [brokenOff_skipGap, not_or, not_not]
    exact ⟨hbefore, hclosed⟩
  cases hrest : lx.skipGap.cursor.rest with
  | nil => rwa [next_of_rest_nil hrest]
  | cons c r =>
    have hgap := h.skipGap hclosed (by rw [hrest]; exact List.cons_ne_nil c r)
    have hrest' : lx'.skipGap.cursor.rest = c :: (r ++ ['\n', ';']) := by
      rw [hgap.rest, hrest, List.cons_append]
    rw [next_of_rest hrest, brokenOff_take (Scan.token_sound c _), not_or]
    exact ⟨hskipped, Scan.fault_semicolon (htoken c _ hrest')⟩

theorem whole (lx : Lexer) : ∀ lx' : Lexer, Continued [';'] lx lx' →
    ¬ BrokenOff lx'.tokens.2.diagnostics → ¬ BrokenOff lx.tokens.2.diagnostics := by
  induction lx using tokens.induct with
  | case1 lx step heof =>
    intro lx' h hwhole
    rw [tokens_of_eof heof]
    exact h.whole_next (whole_of_tokens lx' hwhole)
  | case2 lx step hne ih =>
    intro lx' h hwhole
    have hnext := h.whole_next (whole_of_tokens lx' hwhole)
    obtain ⟨htoken, hmoved⟩ := h.next hnext hne
    have hne' : lx'.next.1.kind ≠ .eof := by
      rw [htoken]
      exact hne
    rw [tokens_of_ne_eof hne'] at hwhole
    rw [tokens_of_ne_eof hne]
    exact ih _ hmoved hwhole

end Continued

end Lexer

/-- A text that is not broken off and the lines behind it are lexed one after the other. -/
theorem lex_lines {front : List Char} (hwhole : ¬ Lexer.BrokenOff (lex front).2.diagnostics)
    (t : List Char) :
    let g := Position.below (front ++ ['\n'])
    (lex (front ++ '\n' :: t)).1 = (lex front).1 ++ (lex t).1.map (Token.place g) ∧
      (lex (front ++ '\n' :: t)).2.diagnostics =
        (lex front).2.diagnostics ++ (lex t).2.diagnostics.map (Diagnostic.place g) := by
  intro g
  obtain ⟨last, htokens, hplaced, hrest, hdiagnostics⟩ :=
    Lexer.Continued.tokens (.ofText front) (.ofText (front ++ '\n' :: t)) ⟨rfl, rfl, rfl⟩
      (Lexer.placed_ofText _) hwhole
  obtain ⟨i, hi⟩ := hplaced.standing
  have hcut : (front ++ '\n' :: t).take i = front ++ ['\n'] := by
    have hdrop : (front ++ '\n' :: t).drop i = t := hi.rest.symm.trans hrest
    have hlength := congrArg List.length hdrop
    have hle := hi.le
    simp only [List.length_drop, List.length_append, List.length_cons] at hlength hle
    obtain rfl : i = (front ++ ['\n']).length := by
      rw [List.length_append, List.length_singleton]
      omega
    rw [List.append_cons front '\n' t, List.take_left]
  -- Behind the first lines the lexer stands where a fresh one would, but for what it has found.
  let fresh : Lexer := ⟨last.cursor, []⟩
  have hfresh : last = fresh.having (lex front).2.diagnostics := by
    rw [Lexer.having, List.append_nil]
    exact congrArg (Lexer.mk last.cursor) hdiagnostics
  have hcorresponds : Lexer.Corresponds g (.ofText t) fresh := by
    refine ⟨hrest, ?_, rfl⟩
    rw [hi.position, hcut, Position.after_lines]
    rfl
  obtain ⟨hmoved, hlast⟩ :=
    Lexer.Corresponds.tokens (Position.below_advance (front ++ ['\n'])) _ _ hcorresponds
  have hlexed : lex (front ++ '\n' :: t) = ((lex front).1 ++ last.tokens.1, last.tokens.2) :=
    htokens
  rw [hlexed, hfresh, Lexer.having_tokens, hmoved]
  exact ⟨rfl, congrArg _ hlast.diagnostics⟩

/-- A semicolon on a last line of its own is the last token, if the text is not broken off. -/
theorem lex_semicolon {front : List Char}
    (hwhole : ¬ Lexer.BrokenOff (lex (front ++ ['\n', ';'])).2.diagnostics) :
    ∃ semicolon : Token, semicolon.kind = .semicolon ∧
      (lex (front ++ ['\n', ';'])).1 = (lex front).1 ++ [semicolon] := by
  have hfront : ¬ Lexer.BrokenOff (lex front).2.diagnostics :=
    Lexer.Continued.whole (.ofText front) (.ofText (front ++ ['\n', ';'])) ⟨rfl, rfl, rfl⟩ hwhole
  have hsemicolon : (lex [';']).1 = [⟨.semicolon, ";", {}, 1⟩] := by decide +kernel
  refine ⟨_, ?_, by rw [(lex_lines hfront [';']).1, hsemicolon]; rfl⟩
  rfl

/-- Behind the end of a line lexing starts anew: unless the lines in front of it end within a string
or within a comment, they are lexed as they are alone, and so is the text behind them, only further
down. -/
theorem lexing_splits_at_line_ends {front : List Char}
    (hstring : ∀ d ∈ (lex front).2.diagnostics, d.message ≠ "unterminated string literal")
    (hcomment : ∀ d ∈ (lex front).2.diagnostics, d.message ≠ "unterminated block comment")
    (t : List Char) :
    let further (p : Position) : Position :=
      ⟨p.index + (front.length + 1), p.line + (1 + front.count '\n'), p.column⟩
    (lex (front ++ '\n' :: t)).1 = (lex front).1 ++ (lex t).1.map (Token.place further) ∧
      (lex (front ++ '\n' :: t)).2.diagnostics =
        (lex front).2.diagnostics ++ (lex t).2.diagnostics.map (Diagnostic.place further) := by
  intro further
  have hwhole : ¬ Lexer.BrokenOff (lex front).2.diagnostics := by
    rintro ⟨d, hd, hmessage | hmessage⟩
    · exact hstring d hd hmessage
    · exact hcomment d hd hmessage
  have hfurther : further = Position.below (front ++ ['\n']) := by
    funext p
    simp only [further, Position.below, Position.mk.injEq, and_true]
    constructor
    · simp
    · simp
      omega
  rw [hfurther]
  exact lex_lines hwhole t

/-- Faults that are complete where the line ends do no harm: they are reported in their place. -/
theorem lexing_splits_behind_second_point :
    (∀ d ∈ (lex "@ /* \n */ 1.2.".toList).2.diagnostics,
        d.message ≠ "unterminated string literal") ∧
      (∀ d ∈ (lex "@ /* \n */ 1.2.".toList).2.diagnostics,
        d.message ≠ "unterminated block comment") ∧
      (lex "@ /* \n */ 1.2.\n3 \"a".toList).1 =
        (lex "@ /* \n */ 1.2.".toList).1 ++ (lex "3 \"a".toList).1.map
          (Token.place fun p => ⟨p.index + 15, p.line + 2, p.column⟩) ∧
      (lex "@ /* \n */ 1.2.\n3 \"a".toList).2.diagnostics =
        (lex "@ /* \n */ 1.2.".toList).2.diagnostics ++ (lex "3 \"a".toList).2.diagnostics.map
          (Diagnostic.place fun p => ⟨p.index + 15, p.line + 2, p.column⟩) := by
  have hstring : ∀ d ∈ (lex "@ /* \n */ 1.2.".toList).2.diagnostics,
      d.message ≠ "unterminated string literal" := by
    decide +kernel
  have hcomment : ∀ d ∈ (lex "@ /* \n */ 1.2.".toList).2.diagnostics,
      d.message ≠ "unterminated block comment" := by
    decide +kernel
  exact ⟨hstring, hcomment, lexing_splits_at_line_ends hstring hcomment "3 \"a".toList⟩

end Scriptlet
