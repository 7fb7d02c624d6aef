import Scriptlet.Proofs.Token.Numeral
import Scriptlet.Proofs.Token.Placement

/-!
# What each kind of token looks like

`Munch kind lexeme behind` says what a token is without saying how it is found: the shape
of its lexeme for its kind, and what may not stand behind it. A word, a number or an
operator goes on as far as it can; a string ends at the first quote that no backslash
hides. Every token of a text is of that form, also where it is malformed.
-/

namespace Scriptlet

open Decimal

/-- A letter or an underscore, then any number of letters, underscores and digits. -/
def IsName (cs : List Char) : Prop :=
  ∃ c rest, cs = c :: rest ∧ Scan.isWordStart c = true ∧ ∀ d ∈ rest, Scan.isWordPart d = true

/-- The inside of a string: each backslash hides the character behind it, and no quote is
left unhidden. -/
inductive StringBody : List Char → Prop where
  | nil : StringBody []
  | plain {c : Char} {s : List Char} : c ≠ '"' → c ≠ '\\' → StringBody s → StringBody (c :: s)
  | hidden {c : Char} {s : List Char} : StringBody s → StringBody ('\\' :: c :: s)

/-- A comment starts here, whether or not it ends. -/
def StartsComment (s : List Char) : Prop := ['/', '/'] <+: s ∨ ['/', '*'] <+: s

/-- The character could start a token, or stands between tokens. -/
def Known (c : Char) : Prop :=
  Text.isGap c = true ∨ Scan.isWordStart c = true ∨ isDigit c = true ∨ c = '"' ∨
    ∃ e ∈ Token.operators, e.1.head? = some c

/-- A token of the kind, with its lexeme, in front of the text `behind`. -/
inductive Munch : Token.Kind → List Char → List Char → Prop where
  | identifier {w : String} {behind : List Char} : IsName w.toList →
      (∀ c ∈ behind.head?, Scan.isWordPart c = false) → (∀ e ∈ Token.keywords, e.1 ≠ w) →
      Munch .identifier w.toList behind
  | keyword {w : String} {kind : Token.Kind} {behind : List Char} : IsName w.toList →
      (∀ c ∈ behind.head?, Scan.isWordPart c = false) → (w, kind) ∈ Token.keywords →
      Munch kind w.toList behind
  | integer {digits behind : List Char} : Digits digits →
      (∀ c ∈ behind.head?, isDigit c = false ∧ c ≠ '.') → Munch .integer digits behind
  | float {whole fraction behind : List Char} : Digits whole →
      (∀ c ∈ fraction, isDigit c = true) → (∀ c ∈ behind.head?, isDigit c = false ∧ c ≠ '.') →
      Munch .float (whole ++ '.' :: fraction) behind
  | string {body behind : List Char} : StringBody body →
      Munch .string ('"' :: (body ++ ['"'])) behind
  | operator {glyph behind : List Char} {kind : Token.Kind} : (glyph, kind) ∈ Token.operators →
      (∀ e ∈ Token.operators, e.1 <+: glyph ++ behind → e.1.length ≤ glyph.length) →
      ¬ StartsComment (glyph ++ behind) → Munch kind glyph behind
  | openString {body : List Char} : StringBody body → Munch .error ('"' :: body) []
  | openEscape {body : List Char} : StringBody body → Munch .error ('"' :: (body ++ ['\\'])) []
  | secondPoint {whole fraction behind : List Char} : Digits whole →
      (∀ c ∈ fraction, isDigit c = true) →
      Munch .error (whole ++ '.' :: (fraction ++ ['.'])) behind
  | stray {c : Char} {behind : List Char} : ¬ Known c → Munch .error [c] behind

namespace Scan

/-- A closing quote is found behind the inside of a string. Where none is found, the inside
goes on to the end, or to a backslash with nothing behind it. -/
theorem closingQuote?_cases (s : List Char) :
    (∃ body rest, s = body ++ '"' :: rest ∧ closingQuote? s = some (body.length + 1) ∧
        StringBody body) ∨
      ∃ body, StringBody body ∧ (s = body ∨ s = body ++ ['\\']) ∧ closingQuote? s = none := by
  induction s using closingQuote?.induct with
  | case1 => exact .inr ⟨[], .nil, .inl rfl, rfl⟩
  | case2 rest => exact .inl ⟨[], rest, rfl, closingQuote?_quote rest, .nil⟩
  | case3 => exact .inr ⟨[], .nil, .inr rfl, rfl⟩
  | case4 c rest hquote ih =>
    rw [closingQuote?_escape]
    obtain ⟨body, behind, rfl, hfound, hbody⟩ | ⟨body, hbody, hend, hnone⟩ := ih
    · exact .inl ⟨'\\' :: c :: body, behind, rfl, by rw [hfound]; rfl, .hidden hbody⟩
    · refine .inr ⟨'\\' :: c :: body, .hidden hbody, ?_, by rw [hnone]; rfl⟩
      exact hend.imp (congrArg ('\\' :: c :: ·)) (congrArg ('\\' :: c :: ·))
  | case5 c rest hquote hslash ih =>
    rw [closingQuote?_plain hquote hslash]
    obtain ⟨body, behind, rfl, hfound, hbody⟩ | ⟨body, hbody, hend, hnone⟩ := ih
    · exact .inl ⟨c :: body, behind, rfl, by rw [hfound]; rfl, .plain hquote hslash hbody⟩
    · refine .inr ⟨c :: body, .plain hquote hslash hbody, ?_, by rw [hnone]; rfl⟩
      exact hend.imp (congrArg (c :: ·)) (congrArg (c :: ·))

/-- Behind a gap stands no further one. -/
theorem gap_behind_gap (s : List Char) : (gap (s.drop (gap s).length)).length = 0 := by
  have hfound := gap_found s
  rw [Gap.Found] at hfound
  cases hunclosed : (gap s).unclosed with
  | none =>
    rw [hunclosed] at hfound
    obtain ⟨front, rest, hs, hlength, hgap⟩ := hfound
    have hwhole := congrArg Gap.length (gap_append hgap)
    rw [← hs, hlength, Gap.behind] at hwhole
    rw [hlength, hs, List.drop_left]
    dsimp only at hwhole
    omega
  | some n =>
    rw [hunclosed] at hfound
    obtain ⟨front, comment, -, hlength, -⟩ := hfound
    rw [hlength, List.drop_length, gap]

/-- Where there is no gap, there is neither a blank nor the start of a comment. -/
theorem gap_length_eq_zero {c : Char} {rest : List Char} (h : (gap (c :: rest)).length = 0) :
    Text.isGap c = false ∧ ¬ StartsComment (c :: rest) := by
  rw [gap] at h
  split at h
  · simp only [Gap.behind] at h
    omega
  next hblank =>
  split at h
  · simp only [Gap.behind] at h
    omega
  next hline =>
  split at h
  · split at h
    · simp only [Gap.behind] at h
      omega
    · simp only at h
      omega
  next hblock =>
  refine ⟨eq_false_of_ne_true hblank, ?_⟩
  rintro (⟨more, hmore⟩ | ⟨more, hmore⟩)
  · obtain ⟨rfl, rfl⟩ := List.cons.inj hmore
    exact hline ⟨rfl, rfl⟩
  · obtain ⟨rfl, rfl⟩ := List.cons.inj hmore
    exact hblock ⟨rfl, rfl⟩

/-- A list of characters as the run at its front and what stands behind it. -/
theorem exists_run (p : Char → Bool) (s : List Char) :
    ∃ run behind, s = run ++ behind ∧ s.takeWhile p = run ∧ (∀ c ∈ run, p c = true) ∧
      ∀ c ∈ behind.head?, p c = false := by
  refine ⟨s.takeWhile p, s.dropWhile p, List.takeWhile_append_dropWhile.symm, rfl,
    List.all_eq_true.mp List.all_takeWhile, fun c hc => ?_⟩
  have hhead := List.head?_dropWhile_not p s
  rw [Option.mem_def.mp hc] at hhead
  exact hhead

/-- What a scanned piece is at the front of `s`. -/
def Piece.Munches (p : Piece) (s : List Char) : Prop :=
  Munch p.kind (s.take p.length) (s.drop p.length)

theorem Piece.Munches.of_append {p : Piece} {lexeme behind : List Char}
    (hlength : p.length = lexeme.length) (h : Munch p.kind lexeme behind) :
    p.Munches (lexeme ++ behind) := by
  rw [Munches, hlength, List.take_left, List.drop_left]
  exact h

variable {c : Char} {rest : List Char}

theorem word_munches (hc : isWordStart c = true) : (word (c :: rest)).Munches (c :: rest) := by
  obtain ⟨run, behind, hcut, htake, hrun, hbehind⟩ := exists_run isWordPart (c :: rest)
  have hpart : isWordPart c = true := by rw [isWordPart, hc, Bool.true_or]
  have hname : IsName run := by
    rw [List.takeWhile_cons_of_pos hpart] at htake
    subst htake
    exact ⟨c, _, rfl, hc, fun d hd => hrun d (List.mem_cons_of_mem _ hd)⟩
  rw [word, htake, hcut]
  refine .of_append rfl ?_
  rw [← String.toList_ofList (l := run)] at hname ⊢
  dsimp only
  rw [String.ofList_toList, Token.wordKind]
  cases hlookup : Token.keywords.lookup (String.ofList run) with
  | none =>
    refine .identifier hname hbehind fun e he heq => ?_
    exact bne_iff_ne.mp (List.lookup_eq_none_iff.mp hlookup e he) heq.symm
  | some kind => exact .keyword hname hbehind (mem_of_lookup hlookup)

theorem number_munches (hc : isDigit c = true) : (number (c :: rest)).Munches (c :: rest) := by
  obtain ⟨whole, behind, hcut, htake, hwhole, hbehind⟩ := exists_run isDigit (c :: rest)
  have hdigits : Digits whole := by
    rw [List.takeWhile_cons_of_pos hc] at htake
    exact ⟨htake ▸ List.cons_ne_nil _ _, hwhole⟩
  rw [number, htake, hcut, List.drop_left]
  split
  · next more =>
    obtain ⟨fraction, behind, rfl, htake, hfraction, hbehind⟩ := exists_run isDigit more
    dsimp only
    rw [htake, List.drop_left]
    split
    · next hpoint =>
      obtain ⟨behind, rfl⟩ := List.head?_eq_some_iff.mp hpoint
      have hsplit : whole ++ '.' :: (fraction ++ '.' :: behind) =
          whole ++ '.' :: (fraction ++ ['.']) ++ behind := by simp
      rw [hsplit]
      exact .of_append (by simp; omega) (.secondPoint hdigits hfraction)
    · next hpoint =>
      rw [← List.cons_append, ← List.append_assoc]
      refine .of_append (by simp; omega) (.float hdigits hfraction fun d hd => ⟨hbehind d hd, ?_⟩)
      rintro rfl
      exact hpoint hd
  · next hpoint =>
    refine .of_append rfl (.integer hdigits fun d hd => ⟨hbehind d hd, ?_⟩)
    rintro rfl
    obtain ⟨more, rfl⟩ := List.head?_eq_some_iff.mp hd
    exact hpoint more rfl

theorem string_munches (rest : List Char) : (string ('"' :: rest)).Munches ('"' :: rest) := by
  rw [string, List.drop_succ_cons, List.drop_zero]
  obtain ⟨body, behind, rfl, hfound, hbody⟩ | ⟨body, hbody, hend, hnone⟩ :=
    closingQuote?_cases rest
  · have hsplit : '"' :: (body ++ '"' :: behind) = '"' :: (body ++ ['"']) ++ behind := by simp
    rw [hfound, hsplit]
    exact .of_append (by simp) (.string hbody)
  · rw [hnone, ← List.append_nil ('"' :: rest)]
    refine .of_append (by simp) ?_
    obtain rfl | rfl := hend
    · exact .openString hbody
    · exact .openEscape hbody

/-- A glyph that is found in the table, with no longer one in front of the text. -/
theorem glyph_munches {s : List Char} {n : Nat} {kind : Token.Kind}
    (h : Token.operators.lookup (s.take n) = some kind)
    (hlongest : ∀ e ∈ Token.operators, e.1 <+: s → e.1.length ≤ (s.take n).length)
    (hcomment : ¬ StartsComment s) :
    Piece.Munches ⟨kind, (s.take n).length, none⟩ s := by
  obtain ⟨glyph, behind, rfl, hglyph⟩ : ∃ glyph behind, s = glyph ++ behind ∧ s.take n = glyph :=
    ⟨_, _, (List.take_append_drop n s).symm, rfl⟩
  rw [hglyph] at h hlongest ⊢
  exact .of_append rfl (.operator (mem_of_lookup h) hlongest hcomment)

/-- The operator that is found is the longest one. -/
theorem operator_munches {p : Piece} (h : operator? (c :: rest) = some p)
    (hcomment : ¬ StartsComment (c :: rest)) : p.Munches (c :: rest) := by
  have hshort : ∀ e ∈ Token.operators, e.1.length ≤ 2 := by decide
  rw [operator?] at h
  cases htwo : Token.operators.lookup ((c :: rest).take 2) with
  | some kind =>
    rw [htwo] at h
    obtain rfl := Option.some.inj h
    refine glyph_munches htwo (fun e he hprefix => ?_) hcomment
    rw [List.length_take]
    exact Nat.le_min.mpr ⟨hshort e he, hprefix.length_le⟩
  | none =>
    rw [htwo] at h
    obtain ⟨kind, hone, rfl⟩ := Option.map_eq_some_iff.mp h
    refine glyph_munches (n := 1) hone (fun e he hprefix => ?_) hcomment
    have hne : e.1 ≠ (c :: rest).take 2 := fun heq =>
      bne_iff_ne.mp (List.lookup_eq_none_iff.mp htwo e he) heq.symm
    have hlength : e.1.length ≠ 2 := fun htwo => hne (htwo ▸ List.prefix_iff_eq_take.mp hprefix)
    have hle := hshort e he
    simp only [List.take_succ_cons, List.take_zero, List.length_singleton]
    omega

theorem not_known (hblank : Text.isGap c = false) (hstart : isWordStart c = false)
    (hdigit : isDigit c = false) (hquote : c ≠ '"') (h : operator? (c :: rest) = none) :
    ¬ Known c := by
  have hall : ∀ e ∈ Token.operators, e.1.head?.all fun d =>
      (Token.operators.lookup [d]).isSome := by
    decide
  have hnone : Token.operators.lookup [c] = none := by
    rw [operator?] at h
    split at h
    · cases h
    · simpa using h
  rintro (hc | hc | hc | hc | ⟨e, he, hc⟩)
  · rw [hblank] at hc
    cases hc
  · rw [hstart] at hc
    cases hc
  · rw [hdigit] at hc
    cases hc
  · exact hquote hc
  · have hsome := hall e he
    rw [hc, Option.all_some, hnone] at hsome
    cases hsome

/-- Where no gap stands in front, the token that is scanned is one of its kind. -/
theorem token_munches (hgap : (gap (c :: rest)).length = 0) :
    (token c (c :: rest)).Munches (c :: rest) := by
  obtain ⟨hblank, hcomment⟩ := gap_length_eq_zero hgap
  rw [token]
  split
  · next hstart => exact word_munches hstart
  next hstart =>
  split
  · next hdigit => exact number_munches hdigit
  next hdigit =>
  split
  · next hquote =>
    subst hquote
    exact string_munches rest
  next hquote =>
  cases h : operator? (c :: rest) with
  | some p => exact operator_munches h hcomment
  | none =>
    have hknown := not_known hblank (eq_false_of_ne_true hstart) (eq_false_of_ne_true hdigit) hquote h
    exact .stray hknown

end Scan

namespace Lexer

variable {text : List Char} {lx : Lexer}

/-- The token that a lexer takes is one of its kind, in front of what the lexer leaves. -/
theorem munch_rest (hne : lx.next.1.kind ≠ .eof) :
    Munch lx.next.1.kind lx.next.1.lexeme.toList lx.next.2.cursor.rest := by
  obtain ⟨c, r, hrest, hnext⟩ := next_of_ne_eof hne
  have hgap := Scan.gap_behind_gap lx.cursor.rest
  rw [← skipGap_rest, hrest] at hgap
  rw [hnext, take_kind, take_lexeme, take_rest, hrest, String.toList_ofList]
  exact Scan.token_munches hgap

/-- It stands in the text where it says. -/
theorem munch_next (h : Placed text lx) (hne : lx.next.1.kind ≠ .eof) :
    ∃ front behind, text = front ++ (lx.next.1.lexeme.toList ++ behind) ∧
      lx.next.1.position.index = front.length ∧
      Munch lx.next.1.kind lx.next.1.lexeme.toList behind := by
  obtain ⟨i, hi⟩ := h.skipGap.standing
  obtain ⟨c, r, -, hnext⟩ := next_of_ne_eof hne
  refine ⟨text.take i, lx.next.2.cursor.rest, ?_, ?_, munch_rest hne⟩
  · rw [hnext, take_lexeme, take_rest, String.toList_ofList, List.take_append_drop, hi.rest,
      List.take_append_drop]
  · rw [hnext, take_position, List.length_take_of_le hi.le]
    exact hi.index

theorem munch_tokens (lx : Lexer) : Placed text lx → ∀ t ∈ lx.tokens.1,
    ∃ front behind, text = front ++ (t.lexeme.toList ++ behind) ∧
      t.position.index = front.length ∧ Munch t.kind t.lexeme.toList behind := by
  induction lx using tokens.induct with
  | case1 lx step heof => simp [tokens_of_eof heof]
  | case2 lx step hne ih =>
    intro h
    rw [tokens_of_ne_eof hne]
    exact List.forall_mem_cons.mpr ⟨munch_next h hne, ih h.next.2⟩

end Lexer

/-- Every token of a text stands in it where it says, looks as its kind demands, and goes on
as far as it can: the text behind it holds nothing that would belong to it. -/
theorem tokens_are_maximal (text : List Char) : ∀ t ∈ (lex text).1,
    ∃ front behind, text = front ++ (t.lexeme.toList ++ behind) ∧
      t.position.index = front.length ∧ Munch t.kind t.lexeme.toList behind :=
  Lexer.munch_tokens _ (Lexer.placed_ofText text)

/-- A second point ends a number and spoils it, whatever stands behind. -/
theorem second_point_token_is_maximal :
    (lex "if x1/=2.5 1.2.3 @ \"a\\\"".toList).1.map (fun t => (t.kind, t.lexeme)) =
        [(.kwIf, "if"), (.identifier, "x1"), (.divideAssign, "/="), (.float, "2.5"),
          (.error, "1.2."), (.integer, "3"), (.error, "@"), (.error, "\"a\\\"")] ∧
      ∃ front behind,
        "if x1/=2.5 1.2.3 @ \"a\\\"".toList = front ++ (['1', '.', '2', '.'] ++ behind) ∧
        (11 : Int) = front.length ∧ Munch .error ['1', '.', '2', '.'] behind := by
  refine ⟨by decide +kernel, ?_⟩
  exact tokens_are_maximal _ ⟨.error, "1.2.", ⟨11, 1, 12⟩, 4⟩ (by decide +kernel)

end Scriptlet
