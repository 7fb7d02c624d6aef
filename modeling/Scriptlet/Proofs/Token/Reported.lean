import Scriptlet.Proofs.Token.Lines

/-!
# What the lexer reports

Each error token is reported once, in the order of the tokens and where the token starts. Its
first character tells what is wrong with it. Behind these reports there is at most one more, of a
comment that is never closed, and none if the last token is a string that is never closed.

`Reported i ts ds` follows the tokens from the offset `i` on with the diagnostics that belong to
them; the facts about the whole list are drawn from that. A lexer that came to the end stays
there: it gives the same end token over and over, and reports nothing more.
-/

namespace Scriptlet

open Decimal (isDigit)

/-- The diagnostic that belongs to an error token. -/
inductive Token.ReportedBy (t : Token) : Diagnostic → Prop where
  | openString {rest : List Char} : t.lexeme.toList = '"' :: rest →
      ReportedBy t ⟨.lexer, "unterminated string literal", t.position⟩
  | secondPoint {c : Char} {rest : List Char} : t.lexeme.toList = c :: rest → isDigit c = true →
      ReportedBy t ⟨.lexer, "malformed number literal", t.position⟩
  | stray {c : Char} : t.lexeme.toList = [c] → c ≠ '"' → isDigit c = false →
      ReportedBy t ⟨.lexer, "invalid character " ++ Text.quoted (String.singleton c), t.position⟩

namespace Token.ReportedBy

variable {t : Token} {d : Diagnostic}

theorem phase (h : t.ReportedBy d) : d.phase = .lexer := by
  cases h <;> rfl

theorem position (h : t.ReportedBy d) : d.position = t.position := by
  cases h <;> rfl

theorem message_ne_comment (h : t.ReportedBy d) : d.message ≠ "unterminated block comment" := by
  cases h with
  | openString => simp
  | secondPoint => simp
  | stray => exact append_ne_of_start _ _ (by decide)

end Token.ReportedBy

/-- The diagnostics that belong to the tokens from the offset `i` on and to the gap behind them. -/
inductive Reported : Int → List Token → List Diagnostic → Prop where
  | nothing {i : Int} : Reported i [] []
  | openComment {i : Int} {p : Position} : i ≤ p.index →
      Reported i [] [⟨.lexer, "unterminated block comment", p⟩]
  | openString {i : Int} {t : Token} {d : Diagnostic} : t.kind = .error → i ≤ t.start →
      t.ReportedBy d → Reported i [t] [d]
  | error {i j : Int} {t : Token} {ts : List Token} {d : Diagnostic} {ds : List Diagnostic} :
      t.kind = .error → i ≤ t.start → t.start < j → t.ReportedBy d →
      d.message ≠ "unterminated string literal" → Reported j ts ds →
      Reported i (t :: ts) (d :: ds)
  | sound {i j : Int} {t : Token} {ts : List Token} {ds : List Diagnostic} :
      t.kind ≠ .error → i ≤ j → Reported j ts ds → Reported i (t :: ts) ds

namespace Reported

variable {i : Int} {ts : List Token} {ds : List Diagnostic}

/-- One diagnostic for each error token, in their order, and perhaps one behind them. -/
theorem matched (h : Reported i ts ds) : ∃ (reports : List Diagnostic) (opened : Option Diagnostic),
    ds = reports ++ opened.toList ∧
      List.Forall₂ Token.ReportedBy (ts.filter (·.kind = .error)) reports ∧
      ∀ d ∈ opened, d.phase = .lexer ∧ d.message = "unterminated block comment" := by
  induction h with
  | nothing => exact ⟨[], none, rfl, .nil, nofun⟩
  | openComment _ =>
    refine ⟨[], some _, rfl, .nil, ?_⟩
    rintro d ⟨⟩
    exact ⟨rfl, rfl⟩
  | openString hkind _ hreported =>
    refine ⟨[_], none, rfl, ?_, nofun⟩
    rw [List.filter_cons_of_pos (by simpa using hkind)]
    exact .cons hreported .nil
  | error hkind _ _ hreported _ _ ih =>
    obtain ⟨reports, opened, rfl, hmatched, hopened⟩ := ih
    refine ⟨_ :: reports, opened, rfl, ?_, hopened⟩
    rw [List.filter_cons_of_pos (by simpa using hkind)]
    exact .cons hreported hmatched
  | sound hkind _ _ ih =>
    rw [List.filter_cons_of_neg (by simpa using hkind)]
    exact ih

/-- No error token is passed over. -/
theorem of_error (h : Reported i ts ds) {t : Token} (ht : t ∈ ts) (hk : t.kind = .error) :
    ∃ d ∈ ds, t.ReportedBy d := by
  induction h with
  | nothing => cases ht
  | openComment => cases ht
  | openString _ _ hreported =>
    rw [List.mem_singleton.mp ht]
    exact ⟨_, List.mem_cons_self, hreported⟩
  | error _ _ _ hreported _ _ ih =>
    rcases List.mem_cons.mp ht with rfl | ht
    · exact ⟨_, List.mem_cons_self, hreported⟩
    · obtain ⟨d, hd, hreport⟩ := ih ht
      exact ⟨d, List.mem_cons_of_mem _ hd, hreport⟩
  | sound hkind _ _ ih =>
    rcases List.mem_cons.mp ht with rfl | ht
    · exact absurd hk hkind
    · exact ih ht

theorem phase (h : Reported i ts ds) : ∀ d ∈ ds, d.phase = .lexer := by
  induction h with
  | nothing => simp
  | openComment => simp
  | openString _ _ hreported => simpa using hreported.phase
  | error _ _ _ hreported _ _ ih => exact List.forall_mem_cons.mpr ⟨hreported.phase, ih⟩
  | sound _ _ _ ih => exact ih

theorem le (h : Reported i ts ds) : ∀ d ∈ ds, i ≤ d.position.index := by
  induction h with
  | nothing => simp
  | openComment hle => simpa using hle
  | openString _ hle hreported =>
    rw [List.forall_mem_singleton, hreported.position]
    exact hle
  | error _ hle hlt hreported _ _ ih =>
    rw [List.forall_mem_cons, hreported.position]
    refine ⟨hle, fun d hd => ?_⟩
    have := ih d hd
    omega
  | sound _ hle _ ih =>
    intro d hd
    have := ih d hd
    omega

theorem rising (h : Reported i ts ds) :
    ds.Pairwise fun d e => d.position.index < e.position.index := by
  induction h with
  | nothing => exact .nil
  | openComment _ => exact List.pairwise_singleton ..
  | openString => exact List.pairwise_singleton ..
  | error _ _ hlt hreported _ hrest ih =>
    refine .cons (fun e he => ?_) ih
    have hle := hrest.le e he
    rw [hreported.position]
    exact Int.lt_of_lt_of_le hlt hle
  | sound _ _ _ ih => exact ih

/-- An open string and an open comment go both to the end of the text. -/
theorem not_both (h : Reported i ts ds) :
    ¬ ((∃ d ∈ ds, d.message = "unterminated string literal") ∧
      ∃ d ∈ ds, d.message = "unterminated block comment") := by
  induction h with
  | nothing => simp
  | openComment _ => simp
  | openString _ _ hreported =>
    rintro ⟨-, d, hd, hcomment⟩
    rw [List.mem_singleton.mp hd] at hcomment
    exact hreported.message_ne_comment hcomment
  | error _ _ _ hreported hstring _ ih =>
    rintro ⟨⟨d, hd, hopen⟩, e, he, hcomment⟩
    apply ih
    constructor
    · rcases List.mem_cons.mp hd with rfl | hd
      · exact absurd hopen hstring
      · exact ⟨d, hd, hopen⟩
    · rcases List.mem_cons.mp he with rfl | he
      · exact absurd hcomment hreported.message_ne_comment
      · exact ⟨e, he, hcomment⟩
  | sound _ _ _ ih => exact ih

end Reported

namespace Scan

variable {c : Char} {r : List Char}

theorem operator_fault {s : List Char} {p : Piece} (h : operator? s = some p) : p.fault = none := by
  rw [operator?] at h
  split at h
  · cases h
    rfl
  · obtain ⟨kind, -, rfl⟩ := Option.map_eq_some_iff.mp h
    rfl

theorem number_fault {s : List Char} {f : LexicalFault} (h : (number s).fault = some f) :
    f = .malformedNumber := by
  rw [number] at h
  dsimp only at h
  split at h
  · split at h
    · exact (Option.some.inj h).symm
    · cases h
  · cases h

/-- The first character tells what is wrong. An open string goes to the end of the text, and of
anything else than a number only one character is wrong. -/
theorem token_fault {f : LexicalFault} (h : (token c (c :: r)).fault = some f) :
    (c = '"' ∧ f = .unterminatedString ∧ (token c (c :: r)).length = (c :: r).length) ∨
      (isDigit c = true ∧ f = .malformedNumber) ∨
      (c ≠ '"' ∧ isDigit c = false ∧ f = .invalidCharacter c ∧
        (token c (c :: r)).length = 1) := by
  unfold token at h ⊢
  split at h
  · cases h
  next hstart =>
  split at h
  · next hdigit => exact .inr (.inl ⟨hdigit, number_fault h⟩)
  next hdigit =>
  split at h
  · next hquote =>
    rw [if_neg hstart, if_neg hdigit, if_pos hquote]
    rw [string] at h ⊢
    split at h
    · cases h
    · exact .inl ⟨hquote, (Option.some.inj h).symm, rfl⟩
  next hquote =>
  rw [if_neg hstart, if_neg hdigit, if_neg hquote]
  cases hop : operator? (c :: r) with
  | some p =>
    rw [hop, Option.getD_some, operator_fault hop] at h
    cases h
  | none =>
    rw [hop, Option.getD_none] at h
    exact .inr (.inr ⟨hquote, eq_false_of_ne_true hdigit, (Option.some.inj h).symm, rfl⟩)

end Scan

namespace Lexer

variable {lx : Lexer}

/-- A gap with a token behind it is closed. -/
theorem closed_of_rest {c : Char} {r : List Char} (h : lx.skipGap.cursor.rest = c :: r) :
    (Scan.gap lx.cursor.rest).unclosed = none := by
  by_contra hopen
  obtain ⟨n, hn⟩ := Option.ne_none_iff_exists'.mp hopen
  have hfound := Scan.gap_found lx.cursor.rest
  rw [Scan.Gap.Found, hn] at hfound
  obtain ⟨-, -, -, hlength, -⟩ := hfound
  rw [skipGap_rest, hlength, List.drop_length] at h
  cases h

/-- An error token is reported as it is taken. -/
theorem reportedBy_take {c : Char} {r : List Char} {f : LexicalFault}
    (hrest : lx.cursor.rest = c :: r) (hfault : (Scan.token c (c :: r)).fault = some f) :
    (lx.take (Scan.token c (c :: r))).1.ReportedBy ⟨.lexer, f.message, lx.cursor.position⟩ := by
  have hlexeme := take_lexeme lx (Scan.token c (c :: r))
  have hpos := token_length_pos c r
  have hreason := Scan.token_fault hfault
  rw [hrest] at hlexeme
  generalize Scan.token c (c :: r) = piece at *
  obtain ⟨n, hn⟩ : ∃ n, piece.length = n + 1 := ⟨piece.length - 1, by omega⟩
  have hlexeme : (lx.take piece).1.lexeme.toList = c :: r.take n := by
    rw [hlexeme, hn, String.toList_ofList, List.take_succ_cons]
  rw [← take_position lx piece]
  rcases hreason with ⟨rfl, rfl, -⟩ | ⟨hdigit, rfl⟩ | ⟨hquote, hdigit, rfl, hone⟩
  · exact .openString hlexeme
  · exact .secondPoint hlexeme hdigit
  · obtain rfl : n = 0 := by omega
    exact .stray hlexeme hquote hdigit

/-- A token is taken in silence, or it is an error token and reported. -/
theorem reported_take {c : Char} {r : List Char} (hrest : lx.cursor.rest = c :: r) :
    let next := lx.take (Scan.token c (c :: r))
    (next.1.kind ≠ .error ∧ next.2.diagnostics = lx.diagnostics) ∨
      (next.1.kind = .error ∧ ∃ d, next.1.ReportedBy d ∧
        next.2.diagnostics = lx.diagnostics ++ [d] ∧
        (d.message = "unterminated string literal" → next.2.cursor.rest = [])) := by
  intro next
  have hkind : next.1.kind = (Scan.token c (c :: r)).kind := take_kind ..
  have hsound := Scan.token_sound c (c :: r)
  rw [Scan.Piece.Sound] at hsound
  cases hfault : (Scan.token c (c :: r)).fault with
  | none =>
    left
    rw [hfault] at hsound
    constructor
    · intro herror
      exact hsound (by simp [← hkind, herror])
    · simp only [next, take, hfault, Lexer.skip]
  | some f =>
    right
    rw [hfault] at hsound
    refine ⟨hkind.trans hsound.1, _, reportedBy_take hrest hfault, ?_, fun hmessage => ?_⟩
    · simp only [next, take, hfault, record, Lexer.skip]
    · obtain rfl := f.message_eq_string_iff.mp hmessage
      rcases Scan.token_fault hfault with ⟨-, -, hlength⟩ | ⟨-, hf⟩ | ⟨-, -, hf, -⟩
      · rw [take_rest, hrest, hlength, List.drop_length]
      · cases hf
      · cases hf

/-- One step: the gap is passed in silence, and so is the token, or it is an error token and
reported. -/
theorem reported_next (hk : lx.next.1.kind ≠ .eof) :
    lx.cursor.position.index ≤ lx.next.1.start ∧
      lx.next.1.start < lx.next.2.cursor.position.index ∧
      ((lx.next.1.kind ≠ .error ∧ lx.next.2.diagnostics = lx.diagnostics) ∨
        (lx.next.1.kind = .error ∧ ∃ d, lx.next.1.ReportedBy d ∧
          lx.next.2.diagnostics = lx.diagnostics ++ [d] ∧
          (d.message = "unterminated string literal" → lx.next.2.cursor.rest = []))) := by
  obtain ⟨c, r, hrest, hnext⟩ := next_of_ne_eof hk
  have hskip := skipGap_closed (closed_of_rest hrest)
  have hgap : lx.skipGap.diagnostics = lx.diagnostics := by
    rw [hskip, Lexer.skip]
  have hpos := token_length_pos c r
  have htaken := reported_take hrest
  rw [hgap, ← hnext] at htaken
  have hstart : lx.next.1.start = lx.skipGap.cursor.position.index := by
    rw [hnext, Token.start, take_position]
  refine ⟨?_, ?_, htaken⟩
  · rw [hstart, hskip, skip_cursor, Cursor.skip_position, Position.index_after]
    omega
  · rw [hstart, hnext, take_cursor, Cursor.skip_position, Position.index_after, List.length_take,
      hrest, List.length_cons]
    omega

/-- What a lexer still reports belongs to the tokens that it still gives. -/
theorem reported_tokens (lx : Lexer) : ∃ ds, lx.tokens.2.diagnostics = lx.diagnostics ++ ds ∧
    Reported lx.cursor.position.index lx.tokens.1 ds := by
  induction lx using tokens.induct with
  | case1 lx step heof =>
    rw [tokens_of_eof heof, next_of_rest_nil (skipGap_rest_of_eof heof)]
    cases hopen : (Scan.gap lx.cursor.rest).unclosed with
    | none =>
      rw [skipGap_closed hopen]
      exact ⟨[], (List.append_nil _).symm, .nothing⟩
    | some n =>
      rw [skipGap_open hopen]
      refine ⟨_, rfl, .openComment ?_⟩
      rw [Cursor.skip_position, Position.index_after]
      omega
  | case2 lx step hne ih =>
    simp only [step] at ih
    obtain ⟨ds, hds, hreported⟩ := ih
    obtain ⟨hle, hlt, ⟨hkind, hsilent⟩ | ⟨hkind, d, hd, hreport, hend⟩⟩ := reported_next hne
    · rw [tokens_of_ne_eof hne]
      refine ⟨ds, hds.trans (by rw [hsilent]), ?_⟩
      exact .sound hkind (by omega) hreported
    · rw [tokens_of_ne_eof hne]
      by_cases hstring : d.message = "unterminated string literal"
      · obtain ⟨hnone, hsame⟩ := tokens_of_rest_nil (hend hstring)
        refine ⟨[d], hsame.trans hreport, ?_⟩
        rw [hnone]
        exact .openString hkind hle hd
      · refine ⟨d :: ds, hds.trans ?_, .error hkind hle hlt hd hstring hreported⟩
        rw [hreport, List.append_assoc, List.singleton_append]

theorem reported_lex (text : List Char) : Reported 0 (lex text).1 (lex text).2.diagnostics := by
  obtain ⟨ds, hds, hreported⟩ := reported_tokens (ofText text)
  have hall : (lex text).2.diagnostics = ds := hds
  rw [hall]
  exact hreported

theorem perform_of_end (h : lx.cursor.rest = []) (n : Nat) :
    lx.perform (List.replicate n .next) = (List.replicate n (.endAt lx.cursor.position), lx) := by
  induction n with
  | zero => rfl
  | succ n ih =>
    rw [List.replicate_succ, perform, step, next_of_end h]
    dsimp only
    rw [ih]
    rfl

/-- Asked for more tokens than there are, a lexer gives its tokens and then always the same end. -/
theorem perform_next (n : Nat) (lx : Lexer) :
    lx.perform (List.replicate (lx.tokens.1.length + (n + 1)) .next) =
      (lx.tokens.1 ++ List.replicate (n + 1) lx.tokens.2.next.1, lx.tokens.2) := by
  induction lx using tokens.induct with
  | case1 lx step heof =>
    have hend := rest_of_eof heof
    have htoken : lx.next.1 = .endAt lx.next.2.cursor.position := by
      rw [next_of_rest_nil (skipGap_rest_of_eof heof)]
    rw [tokens_of_eof heof, List.length_nil, Nat.zero_add, List.replicate_succ, perform, Lexer.step]
    dsimp only
    rw [perform_of_end hend, next_of_end hend, htoken]
    rfl
  | case2 lx step hne ih =>
    rw [tokens_of_ne_eof hne, List.length_cons, Nat.add_right_comm, List.replicate_succ, perform,
      Lexer.step]
    dsimp only
    rw [ih]
    rfl

end Lexer

/-- The lexer reports each error token once, in order and in its place, and at most an open comment
behind them. Its reports lie one behind the other, and only one thing can be open at the end. It
may be asked for tokens any number of times behind the last one: it gives the same end token each
time, and nothing more is reported. -/
theorem error_tokens_are_reported (text : List Char) :
    let tokens := (lex text).1
    let lx := (lex text).2
    (∃ (reports : List Diagnostic) (opened : Option Diagnostic),
        lx.diagnostics = reports ++ opened.toList ∧
        List.Forall₂ Token.ReportedBy (tokens.filter (·.kind = .error)) reports ∧
        ∀ d ∈ opened, d.phase = .lexer ∧ d.message = "unterminated block comment") ∧
      (lx.diagnostics.Pairwise fun d e => d.position.index < e.position.index) ∧
      ¬ ((∃ d ∈ lx.diagnostics, d.message = "unterminated string literal") ∧
        ∃ d ∈ lx.diagnostics, d.message = "unterminated block comment") ∧
      ∀ n, (Lexer.ofText text).perform (List.replicate (tokens.length + (n + 1)) .next) =
        (tokens ++ List.replicate (n + 1) (.endAt (.endOf text)), lx) := by
  intro tokens lx
  have hreported := Lexer.reported_lex text
  refine ⟨hreported.matched, hreported.rising, hreported.not_both, fun n => ?_⟩
  have hplaced := ((Lexer.placed_ofText text).tokens).2
  have hend := hplaced.next_of_eof (Lexer.next_tokens (Lexer.ofText text))
  have hperform := Lexer.perform_next n (Lexer.ofText text)
  rw [hend] at hperform
  exact hperform

/-- The digits behind a second point are a token of their own; the comment is open, as its end is
looked for behind its two opening characters. -/
example : (lex "1.2.3 /*/".toList).2.diagnostics =
    [⟨.lexer, "malformed number literal", ⟨0, 1, 1⟩⟩,
      ⟨.lexer, "unterminated block comment", ⟨6, 1, 7⟩⟩] := by decide +kernel

end Scriptlet
