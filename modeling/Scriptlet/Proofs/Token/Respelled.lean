import Scriptlet.Proofs.Token.Munch
import Scriptlet.Proofs.Token.Words

/-!
# Texts that are written anew

What looks like a token of its kind is scanned as one, wherever it stands: `Munch` says exactly
what is found (`found_iff`). So the lexemes of a text can be taken out of it and written down with
blanks between them. They are lexed as what they were, also where they are malformed, since a
string that is never closed is the last of them and stays the last.

The literal of a string needs no blank behind it. Its end is found in itself, whatever follows.
-/

namespace Scriptlet

open Decimal

/-- Is the word what is scanned in front of `rest`, with nothing skipped, malformed or not? -/
def Word.Found (w : Word) (rest : List Char) : Prop :=
  ∃ c cs fault, w.lexeme = c :: cs ∧ Scan.gap (c :: cs ++ rest) = ⟨0, none⟩ ∧
    Scan.token c (c :: cs ++ rest) = ⟨w.kind, w.lexeme.length, fault⟩

theorem Word.Stands.found {w : Word} {rest : List Char} (h : w.Stands rest) : w.Found rest := by
  obtain ⟨c, cs, hlexeme, hgap, htoken⟩ := h
  exact ⟨c, cs, none, hlexeme, hgap, htoken⟩

/-- What has no blank in it goes not beyond the end of a word. -/
theorem Word.Ends.within {rest s front : List Char} (hends : Ends rest) (hblank : ' ' ∉ s)
    (h : s <+: front ++ rest) : s <+: front := by
  rcases List.prefix_or_prefix_of_prefix h (List.prefix_append front rest) with hs | ⟨more, rfl⟩
  · exact hs
  · have hmore := (List.prefix_append_right_inj front).mp h
    cases more with
    | nil => simp
    | cons c more =>
      obtain ⟨rest, rfl⟩ := hmore
      have hc : c = ' ' := hends c rfl
      simp [hc] at hblank

namespace Scan

variable {c : Char} {body whole fraction behind : List Char}

theorem token_quote (s : List Char) :
    gap ('"' :: s) = ⟨0, none⟩ ∧ token '"' ('"' :: s) = string ('"' :: s) := by
  refine ⟨gap_token (by decide) (by simp), ?_⟩
  rw [token, if_neg (by decide), if_neg (by decide), if_pos rfl]

theorem token_digit (hc : isDigit c = true) (s : List Char) :
    gap (c :: s) = ⟨0, none⟩ ∧ token c (c :: s) = number (c :: s) := by
  obtain ⟨hblank, hslash, hstart⟩ := isGap_of_isDigit hc
  refine ⟨gap_token hblank fun h => absurd h hslash, ?_⟩
  rw [token, if_neg (by simp [hstart]), if_pos hc]

/-- Nothing inside a string closes it. -/
theorem closingQuote?_body (h : StringBody body) (rest : List Char) :
    closingQuote? (body ++ rest) = (closingQuote? rest).map (· + body.length) := by
  induction h with
  | nil => simp
  | plain hquote hslash _ ih =>
    rw [List.cons_append, closingQuote?_plain hquote hslash, ih, Option.map_map]
    rfl
  | hidden _ ih =>
    rw [List.cons_append, List.cons_append, closingQuote?_escape, ih, Option.map_map]
    rfl

/-- A point in a run of digits, and perhaps a second one behind it. -/
theorem number_point (hwhole : Digits whole) (hfraction : ∀ c ∈ fraction, isDigit c = true)
    (hbehind : ∀ c ∈ behind.head?, isDigit c = false) :
    number (whole ++ '.' :: (fraction ++ behind)) =
      if behind.head? = some '.' then
        ⟨.error, (whole ++ '.' :: (fraction ++ ['.'])).length, some .malformedNumber⟩
      else ⟨.float, (whole ++ '.' :: fraction).length, none⟩ := by
  have hpoint : ∀ c, ('.' :: (fraction ++ behind)).head? = some c → isDigit c = false := by
    rintro c ⟨⟩
    decide
  rw [number, (takeWhile_run hwhole.2 hpoint).1, List.drop_left]
  simp only [(takeWhile_run hfraction hbehind).1, List.drop_left, List.length_append,
    List.length_cons, List.length_nil, Nat.add_assoc]

/-- A number is found by its first digit. -/
theorem found_number {kind : Token.Kind} {fault : Option LexicalFault} {lexeme : List Char}
    (hwhole : Digits whole) (hstart : whole <+: lexeme)
    (h : number (lexeme ++ behind) = ⟨kind, lexeme.length, fault⟩) :
    Word.Found ⟨kind, lexeme⟩ behind := by
  obtain ⟨c, cs, rfl⟩ := List.exists_cons_of_ne_nil hwhole.1
  obtain ⟨more, rfl⟩ := hstart
  obtain ⟨hgap, htoken⟩ := token_digit (hwhole.2 c List.mem_cons_self) (cs ++ more ++ behind)
  exact ⟨c, cs ++ more, fault, rfl, hgap, htoken.trans h⟩

/-- A number with a point stands in front of what is no digit and no second point. -/
theorem stands_float (hwhole : Digits whole) (hfraction : ∀ c ∈ fraction, isDigit c = true)
    (hbehind : ∀ c ∈ behind.head?, isDigit c = false ∧ c ≠ '.') :
    Word.Stands ⟨.float, whole ++ '.' :: fraction⟩ behind := by
  have hnumber := number_point hwhole hfraction fun d hd => (hbehind d hd).1
  have hend : behind.head? ≠ some '.' := fun hd => (hbehind '.' hd).2 rfl
  rw [if_neg hend] at hnumber
  obtain ⟨c, cs, rfl⟩ := List.exists_cons_of_ne_nil hwhole.1
  have hc := hwhole.2 c List.mem_cons_self
  obtain ⟨hgap, htoken⟩ := token_digit hc (cs ++ '.' :: fraction ++ behind)
  refine ⟨c, cs ++ '.' :: fraction, rfl, hgap, htoken.trans (.trans ?_ hnumber)⟩
  rw [List.append_assoc]
  rfl

theorem found_float (hwhole : Digits whole) (hfraction : ∀ c ∈ fraction, isDigit c = true)
    (hbehind : ∀ c ∈ behind.head?, isDigit c = false ∧ c ≠ '.') :
    Word.Found ⟨.float, whole ++ '.' :: fraction⟩ behind :=
  (stands_float hwhole hfraction hbehind).found

theorem found_secondPoint (hwhole : Digits whole) (hfraction : ∀ c ∈ fraction, isDigit c = true) :
    Word.Found ⟨.error, whole ++ '.' :: (fraction ++ ['.'])⟩ behind := by
  have hpoint : ∀ c ∈ ('.' :: behind).head?, isDigit c = false := by
    rintro c ⟨⟩
    decide
  have hnumber := number_point hwhole hfraction hpoint
  rw [List.head?_cons, if_pos rfl] at hnumber
  refine found_number hwhole (List.prefix_append _ _) (.trans ?_ hnumber)
  simp

theorem found_stray (h : ¬ Known c) : Word.Found ⟨.error, [c]⟩ behind := by
  have hnot : Text.isGap c = false ∧ isWordStart c = false ∧ isDigit c = false ∧ c ≠ '"' ∧
      ∀ e ∈ Token.operators, e.1.head? ≠ some c := by
    simpa [Known] using h
  obtain ⟨hblank, hstart, hdigit, hquote, hoperator⟩ := hnot
  have hnone (glyph : List Char) (hhead : glyph.head? = some c) :
      Token.operators.lookup glyph = none := by
    refine List.lookup_eq_none_iff.mpr fun e he => bne_iff_ne.mpr ?_
    rintro rfl
    exact hoperator e he hhead
  have hslash : c ≠ '/' := by
    rintro rfl
    exact hoperator (['/'], .divide) (by decide) rfl
  refine ⟨c, [], some (.invalidCharacter c), rfl, gap_token hblank fun hc => absurd hc hslash, ?_⟩
  rw [token, if_neg (by simp [hstart]), if_neg (by simp [hdigit]), if_neg hquote, operator?,
    hnone _ rfl, hnone _ rfl]
  rfl

end Scan

namespace Munch

variable {kind : Token.Kind} {lexeme behind rest : List Char}

theorem found_name {w : String} (hname : IsName w.toList)
    (hbehind : ∀ c ∈ behind.head?, Scan.isWordPart c = false) :
    Word.Found ⟨Token.wordKind w, w.toList⟩ behind := by
  obtain ⟨c, cs, hcut, hstart, hparts⟩ := hname
  refine (Scan.stands_word ?_ ?_ hbehind).found
  · rw [hcut]
    exact hstart
  · rw [hcut, List.all_eq_true]
    refine List.forall_mem_cons.mpr ⟨?_, hparts⟩
    rw [Scan.isWordPart, hstart, Bool.true_or]

/-- What looks like a token of its kind is scanned as one. -/
theorem found (h : Munch kind lexeme behind) : Word.Found ⟨kind, lexeme⟩ behind := by
  cases h with
  | @identifier w _ hname hbehind hfree =>
    have hkind : Token.wordKind w = .identifier := by
      rw [Token.wordKind, List.lookup_eq_none_iff.mpr]
      · rfl
      · intro e he
        exact bne_iff_ne.mpr fun heq => hfree e he heq.symm
    rw [← hkind]
    exact found_name hname hbehind
  | @keyword w _ _ hname hbehind hreserved =>
    have hall : ∀ e ∈ Token.keywords, Token.wordKind e.1 = e.2 := by decide
    have hkind : Token.wordKind w = kind := hall (w, kind) hreserved
    rw [← hkind]
    exact found_name hname hbehind
  | integer hdigits hbehind => exact (Scan.stands_integer hdigits hbehind).found
  | float hwhole hfraction hbehind => exact Scan.found_float hwhole hfraction hbehind
  | @string body _ hbody =>
    obtain ⟨hgap, htoken⟩ := Scan.token_quote (body ++ '"' :: behind)
    have hclosed := Scan.closingQuote?_body hbody ('"' :: behind)
    rw [Scan.closingQuote?_quote] at hclosed
    refine ⟨'"', body ++ ['"'], none, rfl, by simpa using hgap, ?_⟩
    rw [Scan.string, List.drop_succ_cons, List.drop_zero, hclosed] at htoken
    simpa [Nat.add_comm] using htoken
  | @operator glyph _ _ hglyph hlongest hcomment =>
    refine (Scan.stands_operator hglyph fun c hc => ?_).found
    obtain ⟨rest, rfl⟩ := List.head?_eq_some_iff.mp hc
    rw [Scan.prolongs, Bool.or_eq_false_iff]
    constructor
    · refine List.any_eq_false.mpr fun e he heq => ?_
      rw [decide_eq_true_eq] at heq
      have hlength := hlongest e he ⟨rest, by simp [heq]⟩
      rw [heq, List.length_append, List.length_singleton] at hlength
      omega
    · refine eq_false_of_ne_true fun hstart => hcomment ?_
      simp only [Bool.and_eq_true, Bool.or_eq_true, decide_eq_true_eq] at hstart
      obtain ⟨rfl, rfl | rfl⟩ := hstart
      · exact .inl ⟨rest, rfl⟩
      · exact .inr ⟨rest, rfl⟩
  | @openString body hbody =>
    obtain ⟨hgap, htoken⟩ := Scan.token_quote body
    have hopen := Scan.closingQuote?_body hbody []
    rw [List.append_nil] at hopen
    refine ⟨'"', body, some .unterminatedString, rfl, by simpa using hgap, ?_⟩
    rw [Scan.string, List.drop_succ_cons, List.drop_zero, hopen] at htoken
    simpa [Scan.closingQuote?] using htoken
  | @openEscape body hbody =>
    obtain ⟨hgap, htoken⟩ := Scan.token_quote (body ++ ['\\'])
    have hopen := Scan.closingQuote?_body hbody ['\\']
    refine ⟨'"', body ++ ['\\'], some .unterminatedString, rfl, by simpa using hgap, ?_⟩
    rw [Scan.string, List.drop_succ_cons, List.drop_zero, hopen] at htoken
    simpa [Scan.closingQuote?] using htoken
  | secondPoint hwhole hfraction => exact Scan.found_secondPoint hwhole hfraction
  | stray hunknown => exact Scan.found_stray hunknown

/-- A token may be put in front of a blank, or of nothing, if nothing can only follow where
nothing followed before. -/
theorem moved (h : Munch kind lexeme behind) (hends : Word.Ends rest)
    (hlast : behind = [] → rest = []) : Munch kind lexeme rest := by
  cases h with
  | identifier hname _ hfree => exact .identifier hname (hends.not_part (by decide)) hfree
  | keyword hname _ hreserved => exact .keyword hname (hends.not_part (by decide)) hreserved
  | integer hdigits _ =>
    refine .integer hdigits fun c hc => ?_
    rw [hends c hc]
    decide
  | float hwhole hfraction _ =>
    refine .float hwhole hfraction fun c hc => ?_
    rw [hends c hc]
    decide
  | string hbody => exact .string hbody
  | operator hglyph _ hcomment =>
    have hall : ∀ e ∈ Token.operators, ' ' ∉ e.1 := by decide
    refine .operator hglyph (fun e he hfront => ?_) fun hstart => hcomment ?_
    · exact (hends.within (hall e he) hfront).length_le
    · rcases hstart with hline | hblock
      · exact .inl ((hends.within (by decide) hline).trans (List.prefix_append ..))
      · exact .inr ((hends.within (by decide) hblock).trans (List.prefix_append ..))
  | openString hbody =>
    rw [hlast rfl]
    exact .openString hbody
  | openEscape hbody =>
    rw [hlast rfl]
    exact .openEscape hbody
  | secondPoint hwhole hfraction => exact .secondPoint hwhole hfraction
  | stray hunknown => exact .stray hunknown

end Munch

/-- The words that stand in front of a text are those that look like a token there. -/
theorem Word.found_iff {w : Word} {rest : List Char} :
    w.Found rest ↔ Munch w.kind w.lexeme rest := by
  constructor
  · rintro ⟨c, cs, fault, hlexeme, hgap, htoken⟩
    have hmunch : (Scan.token c (c :: cs ++ rest)).Munches (c :: cs ++ rest) :=
      Scan.token_munches (congrArg Scan.Gap.length hgap)
    rw [htoken, Scan.Piece.Munches, ← hlexeme, List.take_left, List.drop_left] at hmunch
    exact hmunch
  · exact Munch.found

/-- The text is made up of the words, with gaps between them where there are any; each is what is
found in its place. -/
inductive Word.Written : List Char → List Word → Prop where
  | nil {gap : List Char} : IsGap [] gap → Written gap []
  | word {w : Word} {gap rest : List Char} {ws : List Word} : IsGap (w.lexeme ++ rest) gap →
      w.Found rest → Written rest ws → Written (gap ++ (w.lexeme ++ rest)) (w :: ws)

/-- A blank in front is left out. -/
theorem Word.Written.blank {text : List Char} {ws : List Word} (h : Written text ws) :
    Written (' ' :: text) ws := by
  cases h with
  | nil hgap => exact .nil (.blank rfl hgap)
  | word hgap hw hrest => exact .word (.blank rfl hgap) hw hrest

theorem Word.Found.kind_ne_eof {w : Word} {rest : List Char} (h : w.Found rest) :
    w.kind ≠ .eof := by
  obtain ⟨c, cs, fault, -, -, htoken⟩ := h
  have hsound := (Scan.token_sound c (c :: cs ++ rest)).kind_ne_eof
  rwa [htoken] at hsound

/-- The words are written down with a blank in front of the first one too. -/
theorem Word.Written.trailing {ws : List Word} (h : Written (separated ws) ws) :
    Written (Word.trailing ws) ws := by
  cases ws with
  | nil => exact h
  | cons w ws =>
    rw [separated_cons] at h
    exact h.blank

namespace Lexer

variable {lx : Lexer}

/-- One step takes the word that is found, and leaves what stands behind it. -/
theorem next_found {w : Word} {gap rest : List Char} (hw : w.Found rest)
    (hgap : IsGap (w.lexeme ++ rest) gap) (hrest : lx.cursor.rest = gap ++ (w.lexeme ++ rest)) :
    lx.next.1.word = w ∧ lx.next.2.cursor.rest = rest := by
  obtain ⟨c, cs, fault, hlexeme, hnone, htoken⟩ := hw
  exact (next_scanned hlexeme hnone htoken hgap hrest).2

theorem tokens_written {text : List Char} {ws : List Word} (h : Word.Written text ws)
    (hrest : lx.cursor.rest = text) : lx.tokens.1.map Token.word = ws := by
  induction h generalizing lx with
  | nil hgap => exact congrArg (List.map Token.word) (tokens_gap hgap hrest).1
  | word hgap hw _ ih =>
    obtain ⟨hnext, hbehind⟩ := next_found hw hgap hrest
    have hk : lx.next.1.kind ≠ .eof := fun heof => hw.kind_ne_eof (hnext ▸ heof)
    rw [tokens_of_ne_eof hk, List.map_cons, hnext, ih hbehind]

/-- The tokens of a text are found again where they are written down with blanks between them. -/
theorem written_tokens (lx : Lexer) :
    Word.Written (Word.separated (lx.tokens.1.map Token.word)) (lx.tokens.1.map Token.word) := by
  induction lx using tokens.induct with
  | case1 lx step heof =>
    rw [tokens_of_eof heof]
    exact .nil .nil
  | case2 lx step hne ih =>
    -- Only what is broken off at the end of the text needs nothing behind it, and it is the last.
    have hlast : lx.next.2.cursor.rest = [] →
        Word.trailing (lx.next.2.tokens.1.map Token.word) = [] := by
      intro hnone
      rw [(tokens_of_rest_nil hnone).1]
      rfl
    have hfound : lx.next.1.word.Found (Word.trailing (lx.next.2.tokens.1.map Token.word)) :=
      Word.found_iff.mpr ((munch_rest hne).moved (Word.ends_trailing _) hlast)
    rw [tokens_of_ne_eof hne, List.map_cons, Word.separated_cons]
    exact .word .nil hfound ih.trailing

/-- The literal of a string is taken as it stands, wherever the lexer is and whatever follows. -/
theorem next_literal {s rest : List Char} (hrest : lx.cursor.rest = Text.literal s ++ rest) :
    lx.next =
      (⟨.string, String.ofList (Text.literal s), lx.cursor.position, (Text.literal s).length⟩,
        lx.skip (Text.literal s).length) := by
  obtain ⟨c, cs, hlexeme, hnone, htoken⟩ := Scan.stands_string s rest
  have hnext : lx.next = lx.take ⟨.string, (Text.literal s).length, none⟩ :=
    (next_scanned hlexeme hnone htoken .nil hrest).1
  rw [hnext, take, hrest, List.take_left]

end Lexer

/-- The lexemes of a text, written down with blanks between them, are lexed as what they were in
the text, malformed or not. -/
theorem lexemes_are_lexed_again (text : List Char) :
    let words := (lex text).1.map Token.word
    (lex (Word.separated words)).1.map Token.word = words :=
  Lexer.tokens_written (Lexer.written_tokens (.ofText text)) rfl

/-- Two signs of equality are not taken for one operator, and an open string stays the last word. -/
example : Word.separated ((lex "1.2.3= =\"a//".toList).1.map Token.word) =
    "1.2. 3 = = \"a//".toList := by decide +kernel

/-- Literals are a code that shows its own end: two texts that start with literals are the same
only if the strings are, and what follows. -/
theorem Text.literal_append_inj {s s' rest rest' : List Char}
    (h : literal s ++ rest = literal s' ++ rest') : s = s' ∧ rest = rest' := by
  have hbehind (s rest : List Char) :
      (literal s ++ rest).drop 1 = escape s ++ '"' :: rest := by simp [literal]
  have htail : escape s ++ '"' :: rest = escape s' ++ '"' :: rest' := by
    rw [← hbehind, ← hbehind, h]
  have hclosed : some ((escape s).length + 1) = some ((escape s').length + 1) := by
    rw [← Scan.closingQuote?_literal s rest, htail, Scan.closingQuote?_literal]
  have hlength : (escape s).length = (escape s').length := by simpa using hclosed
  obtain ⟨hescape, hrest⟩ := List.append_inj htail hlength
  refine ⟨?_, (List.cons.inj hrest).2⟩
  rw [← unescapeBody_escape s, hescape, unescapeBody_escape]

/-- The literal of a string is found whole in front of any text. It is one token, it is not
reported, and it is read as the string. -/
theorem literal_is_first_token (s rest : List Char) :
    let literal := '"' :: Text.escape s ++ ['"']
    let (token, lx) := (Lexer.ofText (literal ++ rest)).next
    token = ⟨.string, String.ofList literal, {}, literal.length⟩ ∧ lx.cursor.rest = rest ∧
      lx.diagnostics = [] ∧ Text.unescape token.lexeme.toList = s := by
  intro literal
  have hfront : (Lexer.ofText (literal ++ rest)).cursor.rest = Text.literal s ++ rest := rfl
  rw [Lexer.next_literal hfront]
  refine ⟨rfl, ?_, rfl, ?_⟩
  · rw [Lexer.skip_cursor, Cursor.skip_rest]
    exact List.drop_left
  · rw [String.toList_ofList]
    exact Text.unescape_literal s

end Scriptlet
