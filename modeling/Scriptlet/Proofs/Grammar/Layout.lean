import Scriptlet.Proofs.Grammar.Lazy
import Scriptlet.Proofs.Token.Words

/-!
# Layout is not read

Two texts of the same words may have them on other lines and with other gaps between them.
Both are compared with a list in which the words are only numbered, from which either list
of tokens arises by a map of positions. The map keeps the order of positions, so that even
the diagnostics, which are sorted by them, come in the same order.
-/

namespace Scriptlet

open Scriptlet.Parser Scriptlet.Grammar

namespace Token

/-- The tokens placed at their numbers. -/
def numbered (ts : List Token) : List Token :=
  (ts.map (place fun _ => {})).mapIdx fun k t => { t with position := ⟨k, 1, 1⟩ }

/-- Where the tokens lie whose numbers are given, with the end behind the last of them. -/
def spread (ts : List Token) (ending p : Position) : Position :=
  if p.index < 0 then p
  else
    match ts[p.index.toNat]? with
    | some t => t.position
    | none => { ending with index := ending.index + (p.index - ts.length) }

variable {ts : List Token} {ending : Position}

theorem numbered_spread (ts : List Token) (ending : Position) :
    (numbered ts).map (place (spread ts ending)) = ts := by
  refine List.ext_getElem (by simp [numbered]) fun k hk hk' => ?_
  have hnat : ¬ (k : Int) < 0 := by omega
  simp [numbered, place, spread, hk', hnat]

theorem spread_end (ts : List Token) (ending : Position) :
    spread ts ending (.endOf (List.replicate ts.length ' ')) = ending := by
  have hnat : ¬ (ts.length : Int) < 0 := by omega
  simp [spread, Position.endOf, hnat]

/-- Tokens lie one behind the other, and before the end. -/
structure Ascending (ts : List Token) (ending : Position) : Prop where
  sorted : ts.Pairwise fun s t => s.position.index < t.position.index
  inside : ∀ t ∈ ts, 0 ≤ t.position.index ∧ t.position.index < ending.index
  nonneg : 0 ≤ ending.index

/-- A higher number lies farther behind. -/
theorem Ascending.spread_lt (h : Ascending ts ending) {p q : Position} (hpq : p.index < q.index) :
    (spread ts ending p).index < (spread ts ending q).index := by
  have hnonneg := h.nonneg
  rw [spread, spread]
  by_cases hp : p.index < 0
  · rw [if_pos hp]
    split
    · exact hpq
    · split
      · next t ht => 
        have := h.inside t (List.mem_of_getElem? ht)
        omega
      · next hq =>
        have := List.getElem?_eq_none_iff.mp hq
        dsimp only
        omega
  · have hq : ¬ q.index < 0 := by omega
    rw [if_neg hp, if_neg hq]
    have hlt : p.index.toNat < q.index.toNat := by omega
    cases hs : ts[p.index.toNat]? with
    | none =>
      have hnone := List.getElem?_eq_none_iff.mp hs
      rw [List.getElem?_eq_none_iff.mpr (by omega)]
      dsimp only
      omega
    | some s =>
      obtain ⟨hps, rfl⟩ := List.getElem?_eq_some_iff.mp hs
      cases ht : ts[q.index.toNat]? with
      | none =>
        have hnone := List.getElem?_eq_none_iff.mp ht
        have := h.inside _ (List.getElem_mem hps)
        dsimp only
        omega
      | some t =>
        obtain ⟨hqt, rfl⟩ := List.getElem?_eq_some_iff.mp ht
        exact List.pairwise_iff_getElem.mp h.sorted _ _ hps hqt hlt

/-- The map keeps the order of positions. -/
theorem Ascending.spread_le_iff (h : Ascending ts ending) (p q : Position) :
    (spread ts ending p).index ≤ (spread ts ending q).index ↔ p.index ≤ q.index := by
  rcases Int.lt_trichotomy p.index q.index with hlt | heq | hgt
  · have := h.spread_lt hlt
    omega
  · have hsame : (spread ts ending p).index = (spread ts ending q).index := by
      rw [spread, spread, heq]
      split
      · exact heq
      · split <;> rfl
    omega
  · have := h.spread_lt hgt
    omega

end Token

namespace Reading

/-- A list of tokens is read like the list of their numbers, with all positions put back. -/
theorem ofTokens_numbered (ts : List Token) (text : List Char)
    (hts : ∀ t ∈ ts, t.kind ≠ .eof) (h : Token.Ascending ts (.endOf text)) :
    let numbered := ofTokens (Token.numbered ts) (List.replicate ts.length ' ')
    let g := Token.spread ts (.endOf text)
    (ofTokens ts text).statements = numbered.statements.map (Node.place g) ∧
      (ofTokens ts text).diagnostics = numbered.diagnostics.map (Diagnostic.place g) := by
  intro numbered g
  have hplaced : (Token.numbered ts).map (Token.place g) = ts := Token.numbered_spread ts _
  have hne : ∀ t ∈ Token.numbered ts, t.kind ≠ .eof := by
    intro t ht
    have := hts (t.place g) (hplaced ▸ List.mem_map_of_mem ht)
    exact this
  have hpending : (Supply.tokens ts).pending = (Supply.tokens (Token.numbered ts)).pending.map
      (Token.place g) := by
    rw [pending_tokens hts, pending_tokens hne, hplaced]
  have hstart : Corresponds g
      (.ofSupply (.tokens (Token.numbered ts)) (List.replicate ts.length ' '))
      (.ofSupply (.tokens ts) text) := corresponds_ofSupply hpending (Token.spread_end ts _).symm
  obtain ⟨-, -, hstatements, hstates⟩ := program_follows nestingLimit hstart
  refine ⟨hstatements, ?_⟩
  have hrecorded : recorded ts text = (recorded (Token.numbered ts)
      (List.replicate ts.length ' ')).map (Diagnostic.place g) := hstates.diagnostics
  rw [diagnostics_ofTokens, diagnostics_ofTokens, hrecorded]
  exact (List.map_mergeSort fun d _ e _ => decide_eq_decide.mpr (h.spread_le_iff _ _).symm).symm

end Reading

namespace Lexer

theorem laid_lex (text : List Char) :
    Laid text (Unclosed (lex text).2.diagnostics) 0 (lex text).1 :=
  laid_tokens _ 0 (isAt_ofText text) (by simp [Unclosed, ofText])

theorem ascending_lex (text : List Char) : Token.Ascending (lex text).1 (.endOf text) := by
  have hlaid := laid_lex text
  have hfacts := hlaid.token_facts
  refine ⟨hlaid.pairwise.imp_of_mem fun {s t} hs _ hst => ?_, fun t ht => ?_, Int.natCast_nonneg _⟩
  · obtain ⟨hpos, -⟩ := hfacts s hs
    rw [Token.stop, Token.start] at hst
    omega
  · obtain ⟨hpos, -, -, hstart, hstop⟩ := hfacts t ht
    rw [Token.start] at hstart
    rw [Token.stop] at hstop
    change 0 ≤ t.position.index ∧ t.position.index < (text.length : Int)
    omega

/-- The words of a text say all about its tokens but their positions. -/
theorem numbered_lex {text₁ text₂ : List Char}
    (h : (lex text₁).1.map Token.word = (lex text₂).1.map Token.word) :
    Token.numbered (lex text₁).1 = Token.numbered (lex text₂).1 := by
  have hwords (text : List Char) : (lex text).1.map (Token.place fun _ => {}) =
      ((lex text).1.map Token.word).map fun w =>
        ⟨w.kind, String.ofList w.lexeme, {}, w.lexeme.length⟩ := by
    rw [List.map_map]
    refine List.map_congr_left fun t ht => ?_
    obtain ⟨-, hlength, -⟩ := (laid_lex text).token_facts t ht
    simp only [Token.place, Token.word, Function.comp_apply, String.ofList_toList,
      String.length_toList, hlength]
  rw [Token.numbered, Token.numbered, hwords, hwords, h]

end Lexer

/-- Texts of the same words are read as the same statements, up to positions, and with the same
complaints in the same order. -/
theorem Reading.ofText_words {text₁ text₂ : List Char}
    (h : (lex text₁).1.map Token.word = (lex text₂).1.map Token.word) :
    (ofText text₁).statements.map Node.unplaced = (ofText text₂).statements.map Node.unplaced ∧
      ((ofText text₁).diagnostics.filter (·.phase = .parser)).map Diagnostic.message =
        ((ofText text₂).diagnostics.filter (·.phase = .parser)).map Diagnostic.message := by
  have hlength : (lex text₁).1.length = (lex text₂).1.length := by
    simpa using congrArg List.length h
  have hread (text : List Char) :=
    ofTokens_numbered (lex text).1 text (Lexer.tokens_ne_eof _) (Lexer.ascending_lex text)
  have hunplaced (g : Position → Position) (ns : List Node) :
      (ns.map (Node.place g)).map Node.unplaced = ns.map Node.unplaced := by
    rw [List.map_map]
    exact List.map_congr_left fun n _ => n.unplaced_place g
  have hmessages (g : Position → Position) (ds : List Diagnostic) :
      (ds.map (Diagnostic.place g)).map Diagnostic.message = ds.map Diagnostic.message := by
    rw [List.map_map]
    rfl
  have hlisted (text : List Char) :
      (ofText text).statements = (ofTokens (lex text).1 text).statements :=
    (program_listed nestingLimit text).1
  constructor
  · rw [hlisted, hlisted, (hread text₁).1, (hread text₂).1, hunplaced, hunplaced,
      Lexer.numbered_lex h, hlength]
  · rw [(diagnostics_listed text₁).1, (diagnostics_listed text₂).1, (hread text₁).2,
      (hread text₂).2, hmessages, hmessages, Lexer.numbered_lex h, hlength]

end Scriptlet
