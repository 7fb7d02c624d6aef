import Scriptlet.Proofs.Token.Extent
import Scriptlet.Proofs.Token.Gap
import Scriptlet.Proofs.Token.Numeral
import Scriptlet.Text.Literal

/-!
# Texts of words

A word is the text of one token. A text that is spelled out in words is lexed into these
words, without diagnostics, and the literal of a string is read as that string. What stands
behind a word decides whether it is found whole. A blank always ends it; without one, two
words may well be one.
-/

namespace Scriptlet

open Decimal

/-- The text of a token, with the kind of the token. -/
structure Word where
  kind : Token.Kind
  lexeme : List Char
deriving DecidableEq

def Token.word (t : Token) : Word := ⟨t.kind, t.lexeme.toList⟩

namespace Word

/-- Is the text lexed as one token of the kind when it stands alone? -/
inductive Whole : Word → Prop where
  | word {s : String} : s.toList.head?.any Scan.isWordStart = true →
      s.toList.all Scan.isWordPart = true → Whole ⟨Token.wordKind s, s.toList⟩
  | integer {digits : List Char} : Digits digits → Whole ⟨.integer, digits⟩
  | string (s : List Char) : Whole ⟨.string, Text.literal s⟩
  | operator {glyph : List Char} {kind : Token.Kind} : (glyph, kind) ∈ Token.operators →
      Whole ⟨kind, glyph⟩

/-- Is the word found whole, with nothing skipped, in front of `rest`? -/
def Stands (w : Word) (rest : List Char) : Prop :=
  ∃ c cs, w.lexeme = c :: cs ∧ Scan.gap (c :: cs ++ rest) = ⟨0, none⟩ ∧
    Scan.token c (c :: cs ++ rest) = ⟨w.kind, w.lexeme.length, none⟩

/-- The text is made up of the words, with gaps between them where there are any. -/
inductive Spelled : List Char → List Word → Prop where
  | nil {gap : List Char} : IsGap [] gap → Spelled gap []
  | word {w : Word} {gap rest : List Char} {ws : List Word} : IsGap (w.lexeme ++ rest) gap →
      w.Stands rest → Spelled rest ws → Spelled (gap ++ (w.lexeme ++ rest)) (w :: ws)

/-- The words with one blank between any two. -/
def separated (ws : List Word) : List Char := List.intercalate [' '] (ws.map lexeme)

end Word

namespace Text

theorem unescapeBody_plain {c : Char} (h : c ≠ '\\') (s : List Char) :
    unescapeBody (c :: s) = c :: unescapeBody s := by
  cases s <;> simp [unescapeBody, h]

/-- A character is escaped as a pair, or stands for itself. -/
theorem escapeChar_cases (c : Char) :
    (∃ d, escapeChar c = ['\\', d] ∧ escapedMeaning d = c) ∨
      (escapeChar c = [c] ∧ c ≠ '"' ∧ c ≠ '\\') := by
  unfold escapeChar
  split
  · next h => exact .inl ⟨_, rfl, h.symm⟩
  next hquote =>
  split
  · next h => exact .inl ⟨_, rfl, h.symm⟩
  next hslash =>
  split
  · next h => exact .inl ⟨_, rfl, h.symm⟩
  split
  · next h => exact .inl ⟨_, rfl, h.symm⟩
  split
  · next h => exact .inl ⟨_, rfl, h.symm⟩
  split
  · next h => exact .inl ⟨_, rfl, h.symm⟩
  · exact .inr ⟨rfl, hquote, hslash⟩

theorem unescapeBody_escapeChar (c : Char) (s : List Char) :
    unescapeBody (escapeChar c ++ s) = c :: unescapeBody s := by
  rcases escapeChar_cases c with ⟨d, hescape, rfl⟩ | ⟨hescape, -, hslash⟩
  · rw [hescape]
    rfl
  · rw [hescape]
    exact unescapeBody_plain hslash s

/-- Escaping is undone. -/
theorem unescapeBody_escape (s : List Char) : unescapeBody (escape s) = s := by
  induction s with
  | nil => rfl
  | cons c s ih =>
    rw [escape, List.flatMap_cons, unescapeBody_escapeChar]
    exact congrArg _ ih

theorem unescape_literal (s : List Char) : unescape (literal s) = s := by
  have hunquote (body : List Char) : unescape ('"' :: body ++ ['"']) = unescapeBody body := by
    cases body with
    | nil => rfl
    | cons c body =>
      rw [List.cons_append, List.cons_append, unescape, ← List.cons_append, List.dropLast_concat]
  rw [literal, hunquote, unescapeBody_escape]

end Text

namespace Scan

theorem closingQuote?_escapeChar (c : Char) (s : List Char) :
    closingQuote? (Text.escapeChar c ++ s) =
      (closingQuote? s).map (· + (Text.escapeChar c).length) := by
  rcases Text.escapeChar_cases c with ⟨d, hescape, -⟩ | ⟨hescape, hquote, hslash⟩
  · rw [hescape]
    exact closingQuote?_escape d s
  · rw [hescape]
    exact closingQuote?_plain hquote hslash s

/-- No quote of an escaped text closes it. -/
theorem closingQuote?_literal (s rest : List Char) :
    closingQuote? (Text.escape s ++ '"' :: rest) = some ((Text.escape s).length + 1) := by
  induction s with
  | nil => exact closingQuote?_quote rest
  | cons c s ih =>
    rw [Text.escape, List.flatMap_cons, List.append_assoc, closingQuote?_escapeChar]
    have hrest : closingQuote? (List.flatMap Text.escapeChar s ++ '"' :: rest) = _ := ih
    rw [hrest, Option.map_some, List.length_append, Text.escape]
    congr 1
    omega

section Word

variable {c : Char} {rest : List Char}

/-- Nothing is skipped in front of a token. -/
theorem gap_token (hblank : Text.isGap c = false)
    (hcomment : c = '/' → rest.head? ≠ some '/' ∧ rest.head? ≠ some '*') :
    gap (c :: rest) = ⟨0, none⟩ := by
  rw [gap, if_neg (by simp [hblank]), if_neg fun h => (hcomment h.1).1 h.2,
    if_neg fun h => (hcomment h.1).2 h.2]

theorem isGap_of_isWordStart (h : isWordStart c = true) : Text.isGap c = false ∧ c ≠ '/' := by
  constructor
  · refine eq_false_of_ne_true fun hblank => ?_
    simp only [Text.isGap, Bool.or_eq_true, decide_eq_true_eq] at hblank
    rcases hblank with ((rfl | rfl) | rfl) | rfl <;> exact absurd h (by decide)
  · rintro rfl
    exact absurd h (by decide)

theorem isGap_of_isDigit (h : isDigit c = true) :
    Text.isGap c = false ∧ c ≠ '/' ∧ isWordStart c = false := by
  have hall : ∀ n < 58, isDigit (Char.ofNat n) = true →
      Text.isGap (Char.ofNat n) = false ∧ Char.ofNat n ≠ '/' ∧
        isWordStart (Char.ofNat n) = false := by
    decide
  have hplain : isPlain c = true := by rw [isPlain, h, Bool.true_or]
  have hc := hall c.toNat (toNat_le_of_isPlain hplain)
  rw [Char.ofNat_toNat] at hc
  exact hc h

/-- Reserved words and names stand in front of what is no part of a word. -/
theorem stands_word {s : String} (hstart : s.toList.head?.any isWordStart = true)
    (hparts : s.toList.all isWordPart = true)
    (hrest : ∀ c, rest.head? = some c → isWordPart c = false) :
    Word.Stands ⟨Token.wordKind s, s.toList⟩ rest := by
  obtain ⟨c, hhead, hstart⟩ := (Option.any_eq_true _ _).mp hstart
  obtain ⟨cs, hname⟩ := List.head?_eq_some_iff.mp hhead
  obtain ⟨hblank, hslash⟩ := isGap_of_isWordStart hstart
  have hrun := (takeWhile_run (List.all_eq_true.mp hparts) hrest).1
  refine ⟨c, cs, hname, gap_token hblank fun h => absurd h hslash, ?_⟩
  rw [token, if_pos hstart, word, ← hname, hrun, String.ofList_toList]

/-- A point behind digits would make them a float. -/
theorem stands_integer {digits : List Char} (hdigits : Digits digits)
    (hrest : ∀ c, rest.head? = some c → isDigit c = false ∧ c ≠ '.') :
    Word.Stands ⟨.integer, digits⟩ rest := by
  obtain ⟨c, cs, rfl⟩ := List.exists_cons_of_ne_nil hdigits.1
  obtain ⟨hblank, hslash, hstart⟩ := isGap_of_isDigit (hdigits.2 c List.mem_cons_self)
  have hrun := (takeWhile_run hdigits.2 fun c hc => (hrest c hc).1).1
  refine ⟨c, cs, rfl, gap_token hblank fun h => absurd h hslash, ?_⟩
  rw [token, if_neg (by simp [hstart]), if_pos (hdigits.2 c List.mem_cons_self), number, hrun]
  dsimp only
  rw [List.drop_left]
  split
  · next point rest' => exact absurd rfl (hrest '.' rfl).2
  · rfl

/-- A literal has its end in itself. -/
theorem stands_string (s rest : List Char) : Word.Stands ⟨.string, Text.literal s⟩ rest := by
  have hquote := closingQuote?_literal s rest
  refine ⟨'"', Text.escape s ++ ['"'], rfl, gap_token (by decide) (by simp), ?_⟩
  rw [token, if_neg (by decide), if_neg (by decide), if_pos rfl, string, List.cons_append,
    List.drop_succ_cons, List.drop_zero, List.append_assoc, List.singleton_append, hquote]
  simp [Text.literal]

/-- Is the glyph with the character behind it the start of something else, of a longer glyph
or of a comment? -/
def prolongs (glyph : List Char) (c : Char) : Bool :=
  Token.operators.any (·.1 = glyph ++ [c]) || (glyph = ['/'] && (c = '/' || c = '*'))

theorem operator?_glyph {glyph : List Char} {kind : Token.Kind}
    (h : (glyph, kind) ∈ Token.operators)
    (hrest : ∀ c, rest.head? = some c → prolongs glyph c = false) :
    operator? (glyph ++ rest) = some ⟨kind, glyph.length, none⟩ := by
  have hall : ∀ e ∈ Token.operators, Token.operators.lookup e.1 = some e.2 ∧
      (e.1.length = 1 ∨ e.1.length = 2) := by
    decide
  obtain ⟨hlookup, hone | htwo⟩ := hall _ h
  · obtain ⟨g, rfl⟩ := List.length_eq_one_iff.mp hone
    cases rest with
    | nil => simp [operator?, hlookup]
    | cons c rest =>
      have hbehind := hrest c rfl
      simp only [prolongs, Bool.or_eq_false_iff, List.any_eq_false, decide_eq_true_eq] at hbehind
      have hlonger : Token.operators.lookup [g, c] = none :=
        List.lookup_eq_none_iff.mpr fun e he => bne_iff_ne.mpr fun heq => hbehind.1 e he heq.symm
      simp [operator?, hlonger, hlookup]
  · have htake : (glyph ++ rest).take 2 = glyph := by rw [← htwo, List.take_left]
    rw [operator?, htake, hlookup]

/-- An operator stands in front of what does not prolong it. -/
theorem stands_operator {glyph : List Char} {kind : Token.Kind}
    (h : (glyph, kind) ∈ Token.operators)
    (hrest : ∀ c, rest.head? = some c → prolongs glyph c = false) :
    Word.Stands ⟨kind, glyph⟩ rest := by
  have hall : ∀ e ∈ Token.operators, e.1 ≠ [] ∧ e.1.tail ∈ [[], ['=']] ∧
      e.1.head?.any (fun c => Text.isGap c || isWordStart c || isDigit c || c = '"') = false := by
    decide
  obtain ⟨hne, htail, hhead⟩ := hall _ h
  obtain ⟨c, cs, rfl⟩ := List.exists_cons_of_ne_nil hne
  simp only [List.head?_cons, Option.any_some, Bool.or_eq_false_iff,
    decide_eq_false_iff_not] at hhead
  obtain ⟨⟨⟨hblank, hstart⟩, hdigit⟩, hquote⟩ := hhead
  -- A division is no comment: neither a slash nor a star stands behind it.
  have hcomment (d : Char) (hslash : c = '/') (hd : (cs ++ rest).head? = some d) :
      d ≠ '/' ∧ d ≠ '*' := by
    simp only [List.tail_cons, List.mem_cons, List.not_mem_nil, or_false] at htail
    rcases htail with rfl | rfl
    · subst hslash
      have hbehind := hrest d hd
      simp only [prolongs, Bool.or_eq_false_iff, decide_true, Bool.true_and,
        decide_eq_false_iff_not] at hbehind
      exact hbehind.2
    · obtain rfl := Option.some.inj hd
      decide
  refine ⟨c, cs, rfl, gap_token hblank fun hslash => ?_, ?_⟩
  · exact ⟨fun hd => (hcomment _ hslash hd).1 rfl, fun hd => (hcomment _ hslash hd).2 rfl⟩
  · rw [token, if_neg (by simp [hstart]), if_neg (by simp [hdigit]), if_neg hquote,
      operator?_glyph h hrest, Option.getD_some]

end Word

end Scan

namespace Word

theorem Stands.kind_ne_eof {w : Word} {rest : List Char} (h : w.Stands rest) : w.kind ≠ .eof := by
  obtain ⟨c, cs, -, -, htoken⟩ := h
  have hsound := (Scan.token_sound c (c :: cs ++ rest)).kind_ne_eof
  rwa [htoken] at hsound

/-- A blank in front is left out. -/
theorem Spelled.blank {text : List Char} {ws : List Word} (h : Spelled text ws) :
    Spelled (' ' :: text) ws := by
  cases h with
  | nil hgap => exact .nil (.blank rfl hgap)
  | word hgap hw hrest => exact .word (.blank rfl hgap) hw hrest

end Word

namespace Lexer

variable {lx : Lexer}

/-- One step skips a gap and takes what is scanned behind it. -/
theorem next_scanned {w : Word} {c : Char} {cs gap rest : List Char} {fault : Option LexicalFault}
    (hlexeme : w.lexeme = c :: cs) (hnone : Scan.gap (c :: cs ++ rest) = ⟨0, none⟩)
    (htoken : Scan.token c (c :: cs ++ rest) = ⟨w.kind, w.lexeme.length, fault⟩)
    (hgap : IsGap (w.lexeme ++ rest) gap) (hrest : lx.cursor.rest = gap ++ (w.lexeme ++ rest)) :
    lx.next = (lx.skip gap.length).take ⟨w.kind, w.lexeme.length, fault⟩ ∧
      lx.next.1.word = w ∧ lx.next.2.cursor.rest = rest := by
  have hfound : Scan.gap lx.cursor.rest = ⟨gap.length, none⟩ := by
    rw [hrest, Scan.gap_append hgap, hlexeme, hnone]
    rfl
  have hskip : lx.skipGap = lx.skip gap.length := by rw [skipGap, hfound]
  have hskipped : (lx.skip gap.length).cursor.rest = w.lexeme ++ rest := by
    rw [skip_cursor, Cursor.skip_rest, hrest, List.drop_left]
  have hnext : lx.next = (lx.skip gap.length).take ⟨w.kind, w.lexeme.length, fault⟩ := by
    rw [next, takeToken, hskip, hskipped, hlexeme, List.cons_append]
    exact congrArg (take _) (hlexeme ▸ htoken)
  refine ⟨hnext, ?_, ?_⟩
  · rw [hnext, Token.word, take_kind, take_lexeme, hskipped, List.take_left, String.toList_ofList]
  · rw [hnext, take_rest, hskipped, List.drop_left]

/-- One step takes the word that comes next. -/
theorem next_word {w : Word} {gap rest : List Char} (hw : w.Stands rest)
    (hgap : IsGap (w.lexeme ++ rest) gap) (hrest : lx.cursor.rest = gap ++ (w.lexeme ++ rest)) :
    lx.next.1.word = w ∧ lx.next.2.cursor.rest = rest ∧
      lx.next.2.diagnostics = lx.diagnostics := by
  obtain ⟨c, cs, hlexeme, hnone, htoken⟩ := hw
  obtain ⟨hnext, hword, hbehind⟩ := next_scanned hlexeme hnone htoken hgap hrest
  refine ⟨hword, hbehind, ?_⟩
  rw [hnext]
  rfl

/-- Only the end of the text stands behind a last gap. -/
theorem tokens_gap {gap : List Char} (hgap : IsGap [] gap) (hrest : lx.cursor.rest = gap) :
    lx.tokens.1 = [] ∧ lx.tokens.2.diagnostics = lx.diagnostics := by
  have hskip : Scan.gap lx.cursor.rest = ⟨gap.length, none⟩ := by
    rw [hrest, ← List.append_nil gap, Scan.gap_append hgap, List.append_nil, Scan.gap]
    rfl
  have hskipped : lx.skipGap.cursor.rest = [] := by
    rw [skipGap_rest, hskip, hrest, List.drop_length]
  have hdiagnostics : lx.skipGap.diagnostics = lx.diagnostics := by
    rw [skipGap, hskip]
    rfl
  rw [tokens, next_of_rest_nil hskipped]
  exact ⟨rfl, hdiagnostics⟩

theorem tokens_spelled {text : List Char} {ws : List Word} (h : Word.Spelled text ws)
    (hrest : lx.cursor.rest = text) :
    lx.tokens.1.map Token.word = ws ∧ lx.tokens.2.diagnostics = lx.diagnostics := by
  induction h generalizing lx with
  | nil hgap =>
    obtain ⟨hnil, hdiagnostics⟩ := tokens_gap hgap hrest
    exact ⟨congrArg _ hnil, hdiagnostics⟩
  | word hgap hw _ ih =>
    obtain ⟨hnext, hbehind, hdiagnostics⟩ := next_word hw hgap hrest
    obtain ⟨htokens, hlast⟩ := ih hbehind
    have hk : lx.next.1.kind ≠ .eof := fun heof => hw.kind_ne_eof (hnext ▸ heof)
    rw [tokens_of_ne_eof hk, List.map_cons, hnext, htokens]
    exact ⟨rfl, hlast.trans hdiagnostics⟩

end Lexer

/-- A text is lexed into the words that it is made up of. -/
theorem lex_spelled {text : List Char} {ws : List Word} (h : Word.Spelled text ws) :
    (lex text).1.map Token.word = ws ∧ (lex text).2.diagnostics = [] :=
  Lexer.tokens_spelled h rfl

namespace Word

variable {w : Word} {ws : List Word} {rest : List Char}

/-- What may stand behind any word: a blank, or nothing. -/
def Ends (rest : List Char) : Prop := ∀ c, rest.head? = some c → c = ' '

/-- What may stand behind a word is no part of it. -/
theorem Ends.not_part {p : Char → Bool} (h : Ends rest) (hp : p ' ' = false) :
    ∀ c, rest.head? = some c → p c = false := fun c hc => (h c hc).symm ▸ hp

/-- A word is found whole in front of its end. -/
theorem Whole.stands (h : w.Whole) (hrest : Ends rest) : w.Stands rest := by
  cases h with
  | word hstart hparts => exact Scan.stands_word hstart hparts (hrest.not_part (by decide))
  | integer hdigits =>
    exact Scan.stands_integer hdigits fun c hc => (hrest c hc).symm ▸ by decide
  | string s => exact Scan.stands_string s rest
  | operator hglyph =>
    have hall : ∀ e ∈ Token.operators, Scan.prolongs e.1 ' ' = false := by decide
    exact Scan.stands_operator hglyph (hrest.not_part (hall _ hglyph))

/-- The words behind a first one, each with the blank in front of it. -/
def trailing (ws : List Word) : List Char := ws.flatMap fun w => ' ' :: w.lexeme

theorem ends_trailing (ws : List Word) : Ends (trailing ws) := by
  intro c hc
  cases ws with
  | nil => cases hc
  | cons w ws => exact (Option.some.inj hc).symm

theorem separated_cons (w : Word) (ws : List Word) :
    separated (w :: ws) = w.lexeme ++ trailing ws := by
  induction ws generalizing w with
  | nil => simp [separated, trailing]
  | cons v ws ih =>
    have hrest : separated (w :: v :: ws) = w.lexeme ++ ' ' :: separated (v :: ws) := by
      simp [separated, List.intercalate]
    rw [hrest, ih v]
    simp [trailing]

theorem spelled_trailing (hws : ∀ w ∈ ws, w.Whole) : Spelled (trailing ws) ws := by
  induction ws with
  | nil => exact .nil .nil
  | cons w ws ih =>
    obtain ⟨hw, hws⟩ := List.forall_mem_cons.mp hws
    exact (Spelled.word .nil (hw.stands (ends_trailing ws)) (ih hws)).blank

end Word

/-- Words with blanks between them are lexed as they are. -/
theorem lex_separated {ws : List Word} (hws : ∀ w ∈ ws, w.Whole) :
    (lex (Word.separated ws)).1.map Token.word = ws ∧
      (lex (Word.separated ws)).2.diagnostics = [] := by
  refine lex_spelled ?_
  cases ws with
  | nil => exact .nil .nil
  | cons w ws =>
    obtain ⟨hw, hws⟩ := List.forall_mem_cons.mp hws
    rw [Word.separated_cons]
    exact .word .nil (hw.stands (Word.ends_trailing ws)) (Word.spelled_trailing hws)

end Scriptlet
