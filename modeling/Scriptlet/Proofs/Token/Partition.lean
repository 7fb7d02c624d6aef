import Scriptlet.Proofs.Token.Diagnosis
import Scriptlet.Proofs.Token.Extent
import Scriptlet.Proofs.Token.Gap

/-!
# Texts as tokens and gaps

The tokens of a text lie one behind the other, and with the gaps around them they make up
the text. A token is a stretch of the text itself, also where it is malformed. Only the
last gap may end in an open comment; then, and only then, one is reported.

The lexer is followed by the offset at which it stands. What a step gives is stated with
the offsets before and behind it (`Laid`), the facts about the whole list are drawn from
that.
-/

namespace Scriptlet

namespace Token

/-- The offset at which a token starts. -/
def start (t : Token) : Int := t.position.index

/-- The offset just behind a token. -/
def stop (t : Token) : Int := t.position.index + t.length

/-- The stretches of the text in front of each of the tokens, of which the first one is
looked for from the offset `i` on, and the stretch behind the last one. -/
def gaps (text : List Char) : Int → List Token → List (List Char)
  | i, [] => [slice text i text.length]
  | i, t :: ts => slice text i t.start :: gaps text t.stop ts

/-- Gaps and tokens by turns. -/
def interleave : List (List Char) → List Token → List Char
  | gap :: gaps, t :: ts => gap ++ t.lexeme.toList ++ interleave gaps ts
  | gaps, _ => gaps.flatten

end Token

/-- A text as tokens and the gaps around them. `reported` says that there is a complaint
about a comment that is never closed. -/
structure Partition (text : List Char) (tokens : List Token) (reported : Prop) : Prop where
  length_pos : ∀ t ∈ tokens, 0 < t.length
  length_eq : ∀ t ∈ tokens, t.length = t.lexeme.length
  span_eq : ∀ t ∈ tokens, t.span text = t.lexeme.toList
  inside : ∀ t ∈ tokens, 0 ≤ t.start ∧ t.stop ≤ text.length
  ordered : tokens.Pairwise fun s t => s.stop ≤ t.start
  closed : ∀ p ∈ (Token.gaps text 0 tokens).zip tokens,
    IsGap (text.drop p.2.start.toNat) p.1
  count : (Token.gaps text 0 tokens).length = tokens.length + 1
  last : ∃ g, (Token.gaps text 0 tokens).getLast? = some g ∧
    (reported ↔ EndsOpen g) ∧ (IsGap [] g ∨ EndsOpen g)
  whole : Token.interleave (Token.gaps text 0 tokens) tokens = text

theorem Position.index_after (p : Position) (cs : List Char) :
    (p.after cs).index = p.index + cs.length := by
  induction cs generalizing p with
  | nil => simp
  | cons c cs ih =>
    rw [after_cons, ih, advance]
    split <;> simp only [List.length_cons] <;> omega

namespace Lexer

/-- The lexer stands at the offset `i` of the text. -/
structure IsAt (text : List Char) (i : Nat) (lx : Lexer) : Prop where
  le : i ≤ text.length
  rest : lx.cursor.rest = text.drop i
  position : lx.cursor.position = ({} : Position).after (text.take i)

theorem isAt_ofText (text : List Char) : IsAt text 0 (ofText text) :=
  ⟨Nat.zero_le _, rfl, rfl⟩

variable {text : List Char} {i : Nat} {lx : Lexer}

theorem IsAt.index (h : IsAt text i lx) : lx.cursor.position.index = i := by
  rw [h.position, Position.index_after, List.length_take_of_le h.le]
  simp

theorem IsAt.skip (h : IsAt text i lx) {n : Nat} (hn : n ≤ (text.drop i).length) :
    IsAt text (i + n) (lx.skip n) := by
  rw [List.length_drop] at hn
  have hle := h.le
  refine ⟨by omega, ?_, ?_⟩
  · rw [skip_cursor, Cursor.skip_rest, h.rest, List.drop_drop]
  · rw [skip_cursor, Cursor.skip_position, h.position, h.rest, ← Position.after_append,
      ← List.take_add]

theorem IsAt.record (h : IsAt text i lx) (f : LexicalFault) (p : Position) :
    IsAt text i (lx.record f p) := ⟨h.le, h.rest, h.position⟩

/-- Is there a complaint about a comment that is never closed? -/
def Unclosed (ds : List Diagnostic) : Prop :=
  ∃ d ∈ ds, d.message = "unterminated block comment"

theorem unclosed_record (lx : Lexer) (f : LexicalFault) (p : Position) :
    Unclosed (lx.record f p).diagnostics ↔ Unclosed lx.diagnostics ∨ f = .unterminatedComment := by
  simp [Unclosed, record, or_and_right, exists_or, LexicalFault.message_eq_comment_iff]

end Lexer

/-- The tokens stand in the text from the offset `i` on, with gaps between them. -/
inductive Laid (text : List Char) (reported : Prop) : Nat → List Token → Prop where
  | behind {i : Nat} : i ≤ text.length → (reported ↔ EndsOpen (text.drop i)) →
      (IsGap [] (text.drop i) ∨ EndsOpen (text.drop i)) → Laid text reported i []
  | token {i : Nat} {gap rest : List Char} {t : Token} {ts : List Token} :
      text.drop i = gap ++ (t.lexeme.toList ++ rest) → IsGap (t.lexeme.toList ++ rest) gap →
      t.lexeme.toList ≠ [] → t.position.index = (i + gap.length : Nat) →
      t.length = t.lexeme.toList.length →
      Laid text reported (i + gap.length + t.lexeme.toList.length) ts →
      Laid text reported i (t :: ts)

namespace Lexer

variable {text : List Char} {i : Nat} {lx : Lexer}

theorem skipGap_closed (h : (Scan.gap lx.cursor.rest).unclosed = none) :
    lx.skipGap = lx.skip (Scan.gap lx.cursor.rest).length := by
  simp only [skipGap, h]

theorem skipGap_open {n : Nat} (h : (Scan.gap lx.cursor.rest).unclosed = some n) :
    lx.skipGap = (lx.skip (Scan.gap lx.cursor.rest).length).record .unterminatedComment
      (lx.cursor.skip n).position := by
  simp only [skipGap, h]

/-- A piece at the front of what remains is taken as it stands there. -/
theorem take_piece (h : IsAt text i lx) {piece : Scan.Piece} {lexeme rest : List Char}
    (hrest : text.drop i = lexeme ++ rest) (hlength : piece.length = lexeme.length) :
    (lx.take piece).1 = ⟨piece.kind, String.ofList lexeme, lx.cursor.position, lexeme.length⟩ ∧
      IsAt text (i + lexeme.length) (lx.take piece).2 := by
  have htake : lx.cursor.rest.take piece.length = lexeme := by
    rw [h.rest, hrest, hlength, List.take_left]
  have hmoved : IsAt text (i + lexeme.length) (lx.skip piece.length) := by
    rw [hlength]
    exact h.skip (by simp [hrest])
  rw [take, htake]
  cases piece.fault with
  | none => exact ⟨rfl, hmoved⟩
  | some f => exact ⟨rfl, hmoved.record _ _⟩

theorem unclosed_take {piece : Scan.Piece} (hsound : piece.Sound)
    (hclosed : ¬ Unclosed lx.diagnostics) : ¬ Unclosed (lx.take piece).2.diagnostics := by
  rw [Scan.Piece.Sound] at hsound
  rw [take]
  cases hf : piece.fault with
  | none => exact hclosed
  | some f =>
    rw [hf] at hsound
    rw [unclosed_record]
    rintro (hunclosed | hcomment)
    · exact hclosed hunclosed
    · exact hsound.2 hcomment

/-- What one step of the lexer comes to: it finds the last gap, or one token behind a
gap that is closed. -/
theorem next_cases (h : IsAt text i lx) (hclosed : ¬ Unclosed lx.diagnostics) :
    (lx.next.1.kind = .eof ∧
        (Unclosed lx.next.2.diagnostics ↔ EndsOpen (text.drop i)) ∧
        (IsGap [] (text.drop i) ∨ EndsOpen (text.drop i))) ∨
      ∃ gap rest, lx.next.1.kind ≠ .eof ∧
        text.drop i = gap ++ (lx.next.1.lexeme.toList ++ rest) ∧
        IsGap (lx.next.1.lexeme.toList ++ rest) gap ∧
        lx.next.1.lexeme.toList ≠ [] ∧
        lx.next.1.position.index = (i + gap.length : Nat) ∧
        lx.next.1.length = lx.next.1.lexeme.toList.length ∧
        IsAt text (i + gap.length + lx.next.1.lexeme.toList.length) lx.next.2 ∧
        ¬ Unclosed lx.next.2.diagnostics := by
  have hfound := Scan.gap_found lx.cursor.rest
  have hends := Scan.endsOpen_iff (s := lx.cursor.rest)
  rw [Scan.Gap.Found] at hfound
  cases hunclosed : (Scan.gap lx.cursor.rest).unclosed with
  | some n =>
    rw [hunclosed] at hfound
    obtain ⟨front, comment, -, hlength, -, -, -⟩ := hfound
    have hopen : EndsOpen (text.drop i) := by
      rw [← h.rest, hends, hunclosed]
      exact Option.some_ne_none n
    have hnone : lx.skipGap.cursor.rest = [] := by
      rw [skipGap_rest, hlength, List.drop_length]
    refine .inl ⟨?_, ?_, .inr hopen⟩
    · rw [next, takeToken, hnone]
      rfl
    · rw [next, takeToken, hnone, skipGap_open hunclosed, unclosed_record]
      simp [hopen]
  | none =>
    rw [hunclosed] at hfound
    obtain ⟨front, behind, hs, hlength, hgap⟩ := hfound
    have hskip : IsAt text (i + front.length) lx.skipGap := by
      rw [skipGap_closed hunclosed, hlength]
      refine h.skip ?_
      rw [← h.rest, hs]
      simp
    have hdiagnostics : lx.skipGap.diagnostics = lx.diagnostics := by
      rw [skipGap_closed hunclosed]
      rfl
    have hbehind : text.drop (i + front.length) = behind := by
      rw [← List.drop_drop, ← h.rest, hs, List.drop_left]
    rw [h.rest] at hs hunclosed hends
    cases behind with
    | nil =>
      have hnone : lx.skipGap.cursor.rest = [] := by rw [hskip.rest, hbehind]
      rw [List.append_nil] at hs
      refine .inl ⟨?_, ?_, .inl (hs ▸ hgap)⟩
      · rw [next, takeToken, hnone]
        rfl
      · rw [next, takeToken, hnone]
        simp [hdiagnostics, hclosed, hends, hunclosed]
    | cons c r =>
      have hpos := token_length_pos c r
      have hle := Scan.token_length_le c r
      have hsound := Scan.token_sound c (c :: r)
      have hnext : lx.next = lx.skipGap.take (Scan.token c (c :: r)) := by
        simp only [next, takeToken, hskip.rest, hbehind]
      generalize Scan.token c (c :: r) = piece at hpos hle hsound hnext
      obtain ⟨lexeme, rest, hcut, hpiece⟩ :
          ∃ lexeme rest, c :: r = lexeme ++ rest ∧ piece.length = lexeme.length :=
        ⟨_, _, (List.take_append_drop piece.length _).symm, (List.length_take_of_le hle).symm⟩
      obtain ⟨htoken, hmoved⟩ := take_piece hskip (hbehind.trans hcut) hpiece
      have hlexeme : lx.next.1.lexeme.toList = lexeme := by rw [hnext, htoken, String.toList_ofList]
      refine .inr ⟨front, rest, ?_, ?_, ?_, ?_, ?_, ?_, ?_, ?_⟩
      · rw [hnext, htoken]
        exact hsound.kind_ne_eof
      · rw [hlexeme, ← hcut, hs]
      · rw [hlexeme, ← hcut]
        exact hgap
      · rw [hlexeme]
        rintro rfl
        simp only [List.length_nil] at hpiece
        omega
      · rw [hnext, htoken]
        exact hskip.index
      · rw [hlexeme, hnext, htoken]
      · rw [hlexeme, hnext]
        exact hmoved
      · rw [hnext]
        exact unclosed_take hsound (hdiagnostics ▸ hclosed)

/-- What a lexer still gives stands in the text from where it stands. -/
theorem laid_tokens (lx : Lexer) : ∀ i, IsAt text i lx → ¬ Unclosed lx.diagnostics →
    Laid text (Unclosed lx.tokens.2.diagnostics) i lx.tokens.1 := by
  induction lx using tokens.induct with
  | case1 lx step heof =>
    intro i h hclosed
    rw [tokens_of_eof heof]
    obtain ⟨-, hreported, hlast⟩ | ⟨gap, rest, hne, -⟩ := next_cases h hclosed
    · exact .behind h.le hreported hlast
    · exact absurd heof hne
  | case2 lx step hne ih =>
    intro i h hclosed
    rw [tokens_of_ne_eof hne]
    obtain ⟨heof, -⟩ | ⟨gap, rest, -, hcut, hgap, hlexeme, hindex, hlength, hnext, hstill⟩ :=
      next_cases h hclosed
    · exact absurd heof hne
    · exact .token hcut hgap hlexeme hindex hlength (ih _ hnext hstill)

end Lexer

namespace Laid

variable {text : List Char} {reported : Prop} {i : Nat} {ts : List Token}

theorem slice_natCast (text : List Char) (i j : Nat) :
    Token.slice text i j = (text.drop i).take (j - i) := by
  have place (n : Nat) : ((if (n : Int) < 0 then n + text.length else n : Int)).toNat = n := by
    rw [if_neg (by omega), Int.toNat_natCast]
  rw [Token.slice]
  dsimp only
  rw [place, place]

theorem le (h : Laid text reported i ts) : i ≤ text.length := by
  induction h with
  | behind hle => exact hle
  | token _ _ _ _ _ _ ih => omega

/-- The offsets of a token and the stretches of the text that go with it. -/
theorem stretches {gap rest : List Char} {t : Token}
    (hcut : text.drop i = gap ++ (t.lexeme.toList ++ rest))
    (hindex : t.position.index = (i + gap.length : Nat))
    (hlength : t.length = t.lexeme.toList.length) :
    t.start = (i + gap.length : Nat) ∧ t.stop = (i + gap.length + t.lexeme.toList.length : Nat) ∧
      Token.slice text i t.start = gap ∧ text.drop t.start.toNat = t.lexeme.toList ++ rest ∧
      t.span text = t.lexeme.toList := by
  have hstart : t.start = (i + gap.length : Nat) := hindex
  have hstop : t.stop = (i + gap.length + t.lexeme.toList.length : Nat) := by
    rw [Token.stop, hindex, hlength]
    omega
  have hdrop : text.drop (i + gap.length) = t.lexeme.toList ++ rest := by
    rw [← List.drop_drop, hcut, List.drop_left]
  refine ⟨hstart, hstop, ?_, ?_, ?_⟩
  · rw [hstart, slice_natCast, hcut, Nat.add_sub_cancel_left, List.take_left]
  · rw [hstart, Int.toNat_natCast, hdrop]
  · change Token.slice text t.start t.stop = _
    rw [hstart, hstop, slice_natCast, hdrop, Nat.add_sub_cancel_left, List.take_left]

theorem slice_behind (text : List Char) (i : Nat) : Token.slice text i text.length = text.drop i := by
  rw [slice_natCast, List.take_of_length_le]
  rw [List.length_drop]

theorem le_start (h : Laid text reported i ts) : ∀ t ∈ ts, (i : Int) ≤ t.start := by
  induction h with
  | behind => simp
  | token hcut _ _ hindex hlength _ ih =>
    obtain ⟨hstart, -⟩ := stretches hcut hindex hlength
    intro t ht
    rcases List.mem_cons.mp ht with rfl | ht
    · omega
    · have := ih t ht
      omega

theorem pairwise (h : Laid text reported i ts) :
    ts.Pairwise fun s t => s.stop ≤ t.start := by
  induction h with
  | behind => exact .nil
  | token hcut _ _ hindex hlength hrest ih =>
    obtain ⟨-, hstop, -⟩ := stretches hcut hindex hlength
    refine .cons (fun t ht => ?_) ih
    rw [hstop]
    exact hrest.le_start t ht

theorem token_facts (h : Laid text reported i ts) : ∀ t ∈ ts,
    0 < t.length ∧ t.length = t.lexeme.length ∧ t.span text = t.lexeme.toList ∧
      0 ≤ t.start ∧ t.stop ≤ text.length := by
  induction h with
  | behind => simp
  | token hcut _ hlexeme hindex hlength hrest ih =>
    obtain ⟨hstart, hstop, -, -, hspan⟩ := stretches hcut hindex hlength
    have hle := hrest.le
    have hpos := List.length_pos_iff.mpr hlexeme
    intro t ht
    rcases List.mem_cons.mp ht with rfl | ht
    · rw [String.length_toList] at *
      exact ⟨by omega, hlength, hspan, by omega, by omega⟩
    · exact ih t ht

theorem length_gaps (text : List Char) (j : Int) (ts : List Token) :
    (Token.gaps text j ts).length = ts.length + 1 := by
  induction ts generalizing j with
  | nil => rfl
  | cons t ts ih => rw [Token.gaps, List.length_cons, ih, List.length_cons]

theorem gap_facts (h : Laid text reported i ts) :
    (∀ p ∈ (Token.gaps text i ts).zip ts, IsGap (text.drop p.2.start.toNat) p.1) ∧
      (∃ g, (Token.gaps text i ts).getLast? = some g ∧
        (reported ↔ EndsOpen g) ∧ (IsGap [] g ∨ EndsOpen g)) ∧
      Token.interleave (Token.gaps text i ts) ts = text.drop i := by
  induction h with
  | behind _ hreported hlast =>
    rw [Token.gaps, slice_behind]
    exact ⟨by simp, ⟨_, rfl, hreported, hlast⟩, by simp [Token.interleave]⟩
  | @token i gap rest t ts hcut hgap _ hindex hlength hrest ih =>
    obtain ⟨-, hstop, hslice, hdrop, -⟩ := stretches hcut hindex hlength
    obtain ⟨hclosed, ⟨g, hg, hlast⟩, hwhole⟩ := ih
    rw [Token.gaps, hslice, hstop]
    refine ⟨?_, ⟨g, ?_, hlast⟩, ?_⟩
    · intro p hp
      rcases List.mem_cons.mp hp with rfl | hp
      · dsimp only
        rw [hdrop]
        exact hgap
      · exact hclosed p hp
    · rw [List.getLast?_cons, hg]
      rfl
    · have hbehind : text.drop (i + gap.length + t.lexeme.toList.length) = rest := by
        rw [Nat.add_assoc, ← List.drop_drop, hcut, ← List.length_append, ← List.append_assoc,
          List.drop_left]
      rw [Token.interleave, hwhole, hbehind, hcut, List.append_assoc]

end Laid

/-- Every text is made up of its tokens and the gaps around them, with nothing left out
and nothing twice. The last gap ends in an open comment exactly if one is reported. -/
theorem lexed_text_is_partitioned (text : List Char) :
    Partition text (lex text).1 (Lexer.Unclosed (lex text).2.diagnostics) := by
  have hstart : ¬ Lexer.Unclosed (Lexer.ofText text).diagnostics := by
    simp [Lexer.Unclosed, Lexer.ofText]
  have hlaid : Laid text (Lexer.Unclosed (lex text).2.diagnostics) 0 (lex text).1 :=
    Lexer.laid_tokens _ 0 (Lexer.isAt_ofText text) hstart
  have htokens := hlaid.token_facts
  obtain ⟨hclosed, hlast, hwhole⟩ := hlaid.gap_facts
  exact {
    length_pos := fun t ht => (htokens t ht).1
    length_eq := fun t ht => (htokens t ht).2.1
    span_eq := fun t ht => (htokens t ht).2.2.1
    inside := fun t ht => (htokens t ht).2.2.2
    ordered := hlaid.pairwise
    closed := hclosed
    count := Laid.length_gaps text 0 _
    last := hlast
    whole := hwhole }

/-- The second comment is open: its end may not share a character with its beginning. -/
example : Token.gaps "a//b\n+/**/1 /*/ c".toList 0 (lex "a//b\n+/**/1 /*/ c".toList).1 =
    [[], "//b\n".toList, "/**/".toList, " /*/ c".toList] := by decide +kernel

end Scriptlet
