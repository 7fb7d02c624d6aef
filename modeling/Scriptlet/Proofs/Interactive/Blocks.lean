import Scriptlet.Proofs.Interactive.Entries
import Scriptlet.Proofs.Token.Munch

/-!
# Entries and the blocks in them

In single-line mode an entry ends behind the first line at which its characters close as many
braces as they open. For the language only brace tokens open and close blocks: the braces in
string literals and comments are hidden from it. The two counts differ by the hidden braces, and
by nothing else (`braceBalance_eq`). So an entry ends where its blocks do as long as what is hidden
in it is balanced, and a hidden brace without a partner holds an entry back or ends it early.
-/

namespace Scriptlet

/-- How many more braces the characters open than they close, wherever they stand. -/
def openedBraces (cs : List Char) : Int := cs.count '\x7b' - cs.count '\x7d'

theorem openedBraces_append (cs ds : List Char) :
    openedBraces (cs ++ ds) = openedBraces cs + openedBraces ds := by
  simp only [openedBraces, List.count_append]
  omega

theorem openedBraces_of_none {cs : List Char} (h : ∀ c ∈ cs, c ≠ '\x7b' ∧ c ≠ '\x7d') :
    openedBraces cs = 0 := by
  have hleft : '\x7b' ∉ cs := fun hc => (h _ hc).1 rfl
  have hright : '\x7d' ∉ cs := fun hc => (h _ hc).2 rfl
  rw [openedBraces, List.count_eq_zero_of_not_mem hleft, List.count_eq_zero_of_not_mem hright,
    Int.sub_self]

namespace Token

/-- What a token of the kind does to the number of open blocks. -/
def Kind.opens : Kind → Int
  | .leftBrace => 1
  | .rightBrace => -1
  | _ => 0

/-- How many more blocks the tokens open than they close. -/
def openedBlocks (ts : List Token) : Int :=
  ts.countP (·.kind = .leftBrace) - ts.countP (·.kind = .rightBrace)

theorem openedBlocks_cons (t : Token) (ts : List Token) :
    openedBlocks (t :: ts) = t.kind.opens + openedBlocks ts := by
  simp only [openedBlocks, List.countP_cons]
  cases t.kind <;> simp [Kind.opens] <;> omega

/-- Is the token a string literal, be it one that is never closed? -/
def isQuoted (t : Token) : Bool := t.lexeme.toList.head? = some '"'

/-- The characters of the tokens. -/
def lexemes (ts : List Token) : List Char := ts.flatMap (·.lexeme.toList)

end Token

/-- The characters of a text that are neither seen as tokens nor between quotes are in its gaps:
in these two places a brace is hidden. -/
def hiddenCharacters (text : List Char) : List Char :=
  let tokens := (lex text).1
  (Token.gaps text 0 tokens).flatten ++ Token.lexemes (tokens.filter Token.isQuoted)

/-- A character that is neither a brace nor a quote. -/
def Neutral (c : Char) : Prop := c ≠ '\x7b' ∧ c ≠ '\x7d' ∧ c ≠ '"'

theorem Neutral.of_class (p : Char → Prop) {c : Char} (h : p c) (hleft : ¬ p '\x7b')
    (hright : ¬ p '\x7d') (hquote : ¬ p '"') : Neutral c := by
  refine ⟨?_, ?_, ?_⟩
  all_goals
    rintro rfl
    contradiction

theorem neutral_of_isWordPart {c : Char} (h : Scan.isWordPart c = true) : Neutral c :=
  .of_class (Scan.isWordPart · = true) h (by decide) (by decide) (by decide)

theorem neutral_of_isPlain {c : Char} (h : Decimal.isPlain c = true) : Neutral c :=
  .of_class (Decimal.isPlain · = true) h (by decide) (by decide) (by decide)

theorem neutral_of_not_known {c : Char} (h : ¬ Known c) : Neutral c := by
  have hoperator {c : Char} (hc : ∃ e ∈ Token.operators, e.1.head? = some c) : Known c :=
    .inr (.inr (.inr (.inr hc)))
  have hquote : Known '"' := .inr (.inr (.inr (.inl rfl)))
  refine .of_class (¬ Known ·) h ?_ ?_ (not_not_intro hquote)
  · exact not_not_intro (hoperator ⟨(['\x7b'], .leftBrace), by decide, rfl⟩)
  · exact not_not_intro (hoperator ⟨(['\x7d'], .rightBrace), by decide, rfl⟩)

namespace Munch

variable {kind : Token.Kind} {lexeme behind : List Char}

/-- Does the token count as much as its braces, or does it start with a quote and not count? -/
def Counted (kind : Token.Kind) (lexeme : List Char) : Prop :=
  (lexeme.head? = some '"' ∧ kind.opens = 0) ∨
    (lexeme.head? ≠ some '"' ∧ openedBraces lexeme = kind.opens)

theorem counted_of_neutral (hlexeme : ∀ c ∈ lexeme, Neutral c) (hkind : kind.opens = 0) :
    Counted kind lexeme := by
  right
  constructor
  · intro hquote
    exact (hlexeme _ (List.mem_of_head? hquote)).2.2 rfl
  · rw [openedBraces_of_none fun c hc => ⟨(hlexeme c hc).1, (hlexeme c hc).2.1⟩, hkind]

theorem neutral_of_isName (h : IsName lexeme) : ∀ c ∈ lexeme, Neutral c := by
  obtain ⟨c, rest, rfl, hc, hrest⟩ := h
  intro d hd
  apply neutral_of_isWordPart
  rcases List.mem_cons.mp hd with rfl | hd
  · rw [Scan.isWordPart, hc, Bool.true_or]
  · exact hrest d hd

/-- A brace is a token of its own, or it is part of a string literal. -/
theorem counted (h : Munch kind lexeme behind) : Counted kind lexeme := by
  have hkeywords : ∀ e ∈ Token.keywords, e.2.opens = 0 := by decide
  have hoperators : ∀ e ∈ Token.operators,
      e.1.head? ≠ some '"' ∧ openedBraces e.1 = e.2.opens := by decide
  cases h with
  | identifier hname => exact counted_of_neutral (neutral_of_isName hname) rfl
  | keyword hname _ hmem => exact counted_of_neutral (neutral_of_isName hname) (hkeywords _ hmem)
  | integer hdigits =>
    exact counted_of_neutral (fun c hc => neutral_of_isPlain (hdigits.plain c hc)) rfl
  | float hwhole hfraction =>
    refine counted_of_neutral (fun c hc => neutral_of_isPlain ?_) rfl
    exact Decimal.plain_point hwhole hfraction c hc
  | operator hmem => exact .inr (hoperators _ hmem)
  | string | openString | openEscape => exact .inl ⟨rfl, rfl⟩
  | secondPoint hwhole hfraction =>
    refine counted_of_neutral (fun c hc => neutral_of_isPlain ?_) rfl
    rw [← List.cons_append, ← List.append_assoc] at hc
    rcases List.mem_append.mp hc with hc | hc
    · exact Decimal.plain_point hwhole hfraction c hc
    · rw [List.mem_singleton.mp hc]
      rfl
  | stray hknown =>
    refine counted_of_neutral (fun c hc => ?_) rfl
    rw [List.mem_singleton.mp hc]
    exact neutral_of_not_known hknown

end Munch

theorem openedBraces_lexemes {ts : List Token}
    (h : ∀ t ∈ ts, ∃ behind, Munch t.kind t.lexeme.toList behind) :
    openedBraces (Token.lexemes ts) =
      Token.openedBlocks ts + openedBraces (Token.lexemes (ts.filter Token.isQuoted)) := by
  induction ts with
  | nil => rfl
  | cons t ts ih =>
    obtain ⟨⟨behind, ht⟩, hts⟩ := List.forall_mem_cons.mp h
    have hrest := ih hts
    have hcons (ts : List Token) : openedBraces (Token.lexemes (t :: ts)) =
        openedBraces t.lexeme.toList + openedBraces (Token.lexemes ts) := by
      rw [Token.lexemes, List.flatMap_cons, openedBraces_append]
      rfl
    rw [hcons, Token.openedBlocks_cons, hrest]
    obtain ⟨hquote, hopens⟩ | ⟨hquote, hopens⟩ := ht.counted
    · rw [List.filter_cons_of_pos (by simpa [Token.isQuoted] using hquote), hcons]
      omega
    · rw [List.filter_cons_of_neg (by simpa [Token.isQuoted] using hquote)]
      omega

theorem openedBraces_interleave (text : List Char) (i : Int) (ts : List Token) :
    openedBraces (Token.interleave (Token.gaps text i ts) ts) =
      openedBraces (Token.gaps text i ts).flatten + openedBraces (Token.lexemes ts) := by
  induction ts generalizing i with
  | nil => simp [Token.gaps, Token.interleave, Token.lexemes, openedBraces]
  | cons t ts ih =>
    rw [Token.gaps, Token.interleave, List.flatten_cons, Token.lexemes, List.flatMap_cons]
    simp only [openedBraces_append, ih, Token.lexemes]
    omega

/-- The braces of a text are its brace tokens and those that are hidden. -/
theorem openedBraces_text (text : List Char) :
    openedBraces text = Token.openedBlocks (lex text).1 + openedBraces (hiddenCharacters text) := by
  have hstart : ¬ Lexer.Unclosed (Lexer.ofText text).diagnostics := by
    simp [Lexer.Unclosed, Lexer.ofText]
  have hlaid := Lexer.laid_tokens _ 0 (Lexer.isAt_ofText text) hstart
  obtain ⟨-, -, hwhole⟩ := hlaid.gap_facts
  have hmunch : ∀ t ∈ (lex text).1, ∃ behind, Munch t.kind t.lexeme.toList behind := by
    intro t ht
    obtain ⟨_, behind, -, -, hmunch⟩ := Lexer.munch_tokens _ (Lexer.placed_ofText text) t ht
    exact ⟨behind, hmunch⟩
  have hcount := openedBraces_interleave text 0 (lex text).1
  have htokens := openedBraces_lexemes hmunch
  have htext : Token.interleave (Token.gaps text 0 (lex text).1) (lex text).1 = text := hwhole
  rw [htext] at hcount
  simp only [hiddenCharacters, openedBraces_append]
  omega

namespace Interactive

/-- How many more blocks the lines open than they close, as the language has it. -/
def blockBalance (lines : List String) : Int :=
  Token.openedBlocks (lex (joined lines).toList).1

/-- How many more braces are opened than closed in the string literals and comments of the lines. -/
def hiddenBalance (lines : List String) : Int :=
  openedBraces (hiddenCharacters (joined lines).toList)

/-- A line feed is no brace, so that it does not matter for the count how lines are joined. -/
theorem openedBraces_joined (lines : List String) :
    openedBraces (joined lines).toList = openedBraces (lines.flatMap String.toList) := by
  rw [joined]
  induction lines with
  | nil => rfl
  | cons line lines ih =>
    cases lines with
    | nil => simp
    | cons next lines =>
      have hfeed : openedBraces "\n".toList = 0 := rfl
      rw [List.flatMap_cons, openedBraces_append, ← ih, String.intercalate_cons_cons,
        String.toList_append, String.toList_append, openedBraces_append, openedBraces_append, hfeed]
      omega

/-- The count of the loop is that of the language and that of the hidden braces. -/
theorem braceBalance_eq (lines : List String) :
    braceBalance lines = blockBalance lines + hiddenBalance lines := by
  calc
    braceBalance lines = openedBraces (lines.flatMap String.toList) := rfl
    _ = openedBraces (joined lines).toList := (openedBraces_joined lines).symm
    _ = blockBalance lines + hiddenBalance lines := openedBraces_text _

example : blockBalance ["\x7b // \x7d", "1 \x7d"] = 0 ∧
    hiddenBalance ["\x7b // \x7d", "1 \x7d"] = -1 := by
  decide +kernel

/-- The lines are one entry by the count: behind the last line, and behind no line before it, at
least as much is closed as is opened. -/
structure EndsBy (balance : List String → Int) (entry : List String) : Prop where
  ne_nil : entry ≠ []
  closed : balance entry ≤ 0
  shortest : ∀ front, front <+: entry → front ≠ [] → front ≠ entry → 0 < balance front

theorem endsBy_iff {balance : List String → Int} {entry : List String} :
    EndsBy balance entry ↔ entry ≠ [] ∧ balance entry ≤ 0 ∧
      ∀ n < entry.length, 0 < n → 0 < balance (entry.take n) := by
  constructor
  · rintro ⟨hne, hclosed, hshortest⟩
    refine ⟨hne, hclosed, ?_⟩
    intro n hn hpos
    apply hshortest _ (List.take_prefix n entry)
    · intro hempty
      rcases List.take_eq_nil_iff.mp hempty with hzero | hnil
      · omega
      · exact hne hnil
    · intro hwhole
      have hlength := List.take_eq_self_iff entry |>.mp hwhole
      omega
  · rintro ⟨hne, hclosed, hshortest⟩
    refine ⟨hne, hclosed, ?_⟩
    intro front hfront hfrontne hproper
    have htake := List.prefix_iff_eq_take.mp hfront
    rw [htake]
    apply hshortest
    · have hle := hfront.length_le
      have hlength : front.length ≠ entry.length := fun h => hproper (hfront.eq_of_length h)
      omega
    · exact List.length_pos_iff.mpr hfrontne

instance (balance : List String → Int) (entry : List String) : Decidable (EndsBy balance entry) :=
  decidable_of_iff' _ endsBy_iff

/-- Behind each line more is opened than closed. -/
def StaysOpenBy (balance : List String → Int) (lines : List String) : Prop :=
  ∀ front, front <+: lines → front ≠ [] → 0 < balance front

/-- Behind each line, what is hidden in the entry so far is balanced. -/
def Undisturbed (entry : List String) : Prop :=
  ∀ front, front <+: entry → front ≠ [] → hiddenBalance front = 0

variable {entry : List String}

theorem Undisturbed.balance_eq (h : Undisturbed entry) {front : List String}
    (hfront : front <+: entry) (hne : front ≠ []) : braceBalance front = blockBalance front := by
  rw [braceBalance_eq, h front hfront hne, Int.add_zero]

theorem Undisturbed.endsBy (h : Undisturbed entry) (hclosed : Closed entry) :
    EndsBy blockBalance entry where
  ne_nil := hclosed.ne_nil
  closed := by
    rw [← h.balance_eq List.prefix_rfl hclosed.ne_nil]
    exact hclosed.closed
  shortest := by
    intro front hfront hne hproper
    rw [← h.balance_eq hfront hne]
    exact hclosed.shortest front hfront hne hproper

theorem Undisturbed.staysOpenBy (h : Undisturbed entry) (hopen : Open entry) :
    StaysOpenBy blockBalance entry := by
  intro front hfront hne
  rw [← h.balance_eq hfront hne]
  exact hopen front hfront hne

/-- In single-line mode the lines are cut into entries that are run once each, in order. The count
that cuts them is that of the brace tokens and of the hidden braces; an entry in which what is
hidden is balanced ends behind the first line at which its tokens close as many blocks as they
open, and is held back until then. -/
theorem entries_end_with_their_blocks (listing : Listing) (lines : List String) :
    ∃ groups rest, Grouped lines groups rest ∧
      (let t := transcript ⟨listing, false⟩ (lines.map .line)
       let done := perform listing .withBuiltins (runs groups)
       t.output = greeting ⟨listing, false⟩ ++ (done.1 ++ parting (rest.head?.any exits) done.2) ∧
         t.broken = done.2) ∧
      (∀ entry ∈ groups, EndsBy (fun front => blockBalance front + hiddenBalance front) entry) ∧
      (∀ entry ∈ groups, Undisturbed entry → EndsBy blockBalance entry) ∧
      (Undisturbed rest → StaysOpenBy blockBalance rest ∨ rest.head?.any exits = true) := by
  obtain ⟨groups, rest, hgrouped, hplays⟩ := plays_singleLine listing lines open_nil rfl
  obtain ⟨houtput, hbroken⟩ := hplays .withBuiltins
  refine ⟨groups, rest, hgrouped, ⟨?_, hbroken⟩, ?_, ?_, ?_⟩
  · exact congrArg (greeting ⟨listing, false⟩ ++ ·) houtput
  · intro entry hentry
    have hclosed := hgrouped.closed entry hentry
    rw [← funext braceBalance_eq]
    exact ⟨hclosed.ne_nil, hclosed.closed, hclosed.shortest⟩
  · intro entry hentry hundisturbed
    exact hundisturbed.endsBy (hgrouped.closed entry hentry)
  · intro hundisturbed
    rcases hgrouped.rest with hopen | hleft
    · exact .inl (hundisturbed.staysOpenBy hopen)
    · exact .inr hleft

open Program (unlisted)

/-- A literal that holds an opening brace is an entry by its tokens, but it is held back and never
run. A block with a closing brace in a comment takes two lines by its tokens, but the loop asks for
a new entry behind the first one. -/
theorem hidden_braces_move_the_end :
    (let lines := ["\"\x7b\""]
     let t := transcript ⟨unlisted, false⟩ (lines.map .line)
     EndsBy blockBalance lines ∧ t.prompts = ["> ", "... "] ∧
       t.output = greeting ⟨unlisted, false⟩ ++ ("\n" ++ farewell)) ∧
    (let lines := ["\x7b // \x7d", "1 \x7d"]
     let t := transcript ⟨unlisted, false⟩ [.line "\x7b // \x7d"]
     EndsBy blockBalance lines ∧ t.prompts = ["> ", "> "]) := by
  refine ⟨⟨?_, ?_, ?_⟩, ?_, ?_⟩
  all_goals decide +kernel

end Interactive

end Scriptlet
