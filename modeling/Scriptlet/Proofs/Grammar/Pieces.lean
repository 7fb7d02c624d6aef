import Scriptlet.Proofs.Grammar.Isolation
import Scriptlet.Proofs.Positions
import Scriptlet.Proofs.Token.Lines

/-!
# Texts read in pieces

A text that ends in a semicolon on a last line of its own, and lines behind it: where both are
read without diagnostics, the whole is so too, and it is read as the statements of the first piece
and then those of the second one. These only lie farther down.
-/

namespace Scriptlet

open Scriptlet.Grammar

namespace Grammar

variable {t : Token} {ts : List Token} {depth : Nat}

theorem closes_append_other (hleft : t.kind ≠ .leftBrace) (hright : t.kind ≠ .rightBrace) :
    closes depth (ts ++ [t]) = closes depth ts := by
  induction ts generalizing depth with
  | nil => exact closes_other hleft hright
  | cons u ts ih =>
    by_cases hopen : u.kind = .leftBrace
    · rw [List.cons_append, closes_leftBrace hopen, closes_leftBrace hopen, ih]
    by_cases hclose : u.kind = .rightBrace
    · cases depth with
      | zero => rw [List.cons_append, closes_rightBrace_zero hclose, closes_rightBrace_zero hclose]
      | succ depth =>
        rw [List.cons_append, closes_rightBrace_succ hclose, closes_rightBrace_succ hclose, ih]
    · rw [List.cons_append, closes_other hopen hclose, closes_other hopen hclose, ih]

end Grammar

namespace Language

open Grammar (closes_leftBrace closes_rightBrace_succ closes_other)

theorem Atom.kind_ne_brace {t : Token} {n : Node} (h : Atom t n) :
    t.kind ≠ .leftBrace ∧ t.kind ≠ .rightBrace := by
  cases h <;> simp_all

/-- Only the rule of blocks has braces among its own tokens, one to open and one to close. -/
theorem compositional_closes : Compositional fun ts => ∀ (depth : Nat) (rest : List Token),
    Grammar.closes depth (ts ++ rest) = Grammar.closes depth rest where
  nil _ _ := rfl
  append hts hus depth rest := by rw [List.append_assoc, hts, hus]
  atom hatom _ _ := closes_other hatom.kind_ne_brace.1 hatom.kind_ne_brace.2
  plain hplain _ _ := by
    refine closes_other (fun h => ?_) fun h => ?_
    all_goals exact absurd (h ▸ hplain) (by decide)
  braces hopening hts hclosing depth rest := by
    rw [List.append_assoc, List.cons_append, closes_leftBrace hopening, hts, List.singleton_append,
      closes_rightBrace_succ hclosing]

/-- A phrase closes the braces that it opens, and no others. -/
theorem Derives.closes {phrase : Phrase} {ts : List Token} (h : Derives phrase ts) :
    ∀ (depth : Nat) (rest : List Token),
      Grammar.closes depth (ts ++ rest) = Grammar.closes depth rest := h.tokens compositional_closes

end Language

namespace Grammar

open Scriptlet.Parser

/-- What is read from a state is read from a corresponding one, placed anew. -/
theorem Reads.placed {room : Nat} {g : Position → Position} {s t s' : State} {read : List Node}
    {last : Option Node} (hst : Corresponds g s t)
    (h : Reads room (.sequence .eof []) s (.sequence read last) s') :
    ∃ t', Reads room (.sequence .eof []) t
        (.sequence (read.map (Node.place g)) (last.map (Node.place g))) t' ∧
      t'.diagnostics = s'.diagnostics.map (Diagnostic.place g) := by
  obtain ⟨-, -, hresult, hstates⟩ := mirrors_statements g (room + 1) .eof s t hst
  have hs : (statements (room + 1) .eof).outcome s = (.ok (read, last), s') := statements_iff.mpr h
  rw [hs] at hresult hstates
  exact ⟨_, statements_iff.mp (Prod.ext hresult rfl), hstates.diagnostics⟩

end Grammar

namespace Reading

theorem ok_iff {text : List Char} : (ofText text).ok = true ↔
    (lex text).2.diagnostics = [] ∧ recorded (lex text).1 text = [] := by
  rw [ok, List.isEmpty_iff, diagnostics_ofText, Diagnostic.ordered, ← List.length_eq_zero_iff,
    List.length_mergeSort, List.length_eq_zero_iff, List.append_eq_nil_iff]

/-- The tokens of a text without diagnostics, placed anew in another text, are read as its
statements, placed anew. -/
theorem reads_of_ok_placed {text text' : List Char} {g : Position → Position}
    (h : (ofText text).ok = true) (hending : Position.endOf text' = g (.endOf text)) :
    ∃ read last s', Reads 978 (.sequence .eof [])
        (.ofSupply (.tokens ((lex text).1.map (Token.place g))) text') (.sequence read last) s' ∧
      read ++ last.toList = (ofText text).statements.map (Node.place g) ∧ s'.diagnostics = [] := by
  obtain ⟨read, last, s', hreads, hstatements, -⟩ := reads_of_ok h
  have hpending : (Supply.tokens ((lex text).1.map (Token.place g))).pending =
      (Supply.lexer (Lexer.ofText text)).pending.map (Token.place g) := by
    refine pending_tokens (List.forall_mem_map.mpr ?_)
    exact Lexer.tokens_ne_eof (Lexer.ofText text)
  obtain ⟨t', hplaced, hdiagnostics⟩ :=
    hreads.placed (Parser.corresponds_ofSupply hpending hending)
  refine ⟨_, _, t', hplaced, ?_, ?_⟩
  · rw [hstatements]
    cases last <;> simp
  · have hlisted := (program_listed nestingLimit text).2
    have hrecorded : recorded (lex text).1 text = [] := (ok_iff.mp h).2
    have hprogram : (program nestingLimit).run (.ofSupply (.lexer (Lexer.ofText text)) text) =
        (read ++ last.toList, s') := program_eq hreads
    rw [hprogram] at hlisted
    have hnone : s'.diagnostics = [] := hlisted.trans hrecorded
    rw [hdiagnostics, hnone, List.map_nil]

/-- They are read so in front of more text too: no token lies at the end. -/
theorem reads_of_ok_listed {text : List Char} (text' : List Char) (h : (ofText text).ok = true) :
    ∃ read last s', Reads 978 (.sequence .eof [])
        (.ofSupply (.tokens (lex text).1) text') (.sequence read last) s' ∧
      read ++ last.toList = (ofText text).statements ∧ s'.diagnostics = [] := by
  let g (p : Position) : Position := if p = .endOf text then .endOf text' else p
  have hkept {t : Token} (ht : t ∈ (lex text).1) : g t.position = t.position := by
    refine if_neg fun heq => ?_
    have hlt := (Lexer.inside_of_token ht).1
    rw [heq] at hlt
    exact absurd hlt (Int.lt_irrefl _)
  have htokens : (lex text).1.map (Token.place g) = (lex text).1 := by
    refine (List.map_congr_left fun t ht => ?_).trans (List.map_id _)
    rw [Token.place, hkept ht, id_eq]
  have hstatements : (ofText text).statements.map (Node.place g) = (ofText text).statements := by
    refine Node.map_place_eq_self fun n hn => ?_
    obtain ⟨t, ht, heq⟩ := Node.forall_preorderOfAll.mpr (spread_of_ok h).position n hn
    rw [heq, hkept ht]
  have hending : Position.endOf text' = g (.endOf text) := (if_pos rfl).symm
  have hplaced := reads_of_ok_placed h hending
  rwa [htokens, hstatements] at hplaced

/-- The braces in front of a last semicolon are balanced. -/
theorem balanced_of_ok {text : List Char} {ts : List Token} {semicolon : Token}
    (h : (ofText text).ok = true) (hlast : (lex text).1 = ts ++ [semicolon])
    (hsemicolon : semicolon.kind = .semicolon) : BraceBalanced ts := by
  obtain ⟨read, last, s', hreads, -, hclean⟩ := reads_of_ok h
  obtain ⟨ns, l, -, hbody⟩ := hreads.program hclean
  have hcloses : closes 0 ((lex text).1 ++ []) = closes 0 [] := hbody.closes 0 []
  rw [List.append_nil, hlast, closes_append_other (by simp [hsemicolon]) (by simp [hsemicolon])]
    at hcloses
  exact braceBalanced_iff.mpr hcloses

/-- The text and the lines behind it are read one after the other. -/
theorem ofText_lines {front rest : List Char} (hfirst : (ofText (front ++ ['\n', ';'])).ok = true)
    (hrest : (ofText rest).ok = true) :
    let first := front ++ ['\n', ';']
    let whole := first ++ '\n' :: rest
    (ofText whole).ok = true ∧ (ofText whole).statements = (ofText first).statements ++
      (ofText rest).statements.map (Node.place (.below (first ++ ['\n']))) := by
  intro first whole
  obtain ⟨hlexed, -⟩ := ok_iff.mp hfirst
  have hunbroken : ¬ Lexer.BrokenOff (lex first).2.diagnostics := by
    rw [hlexed]
    exact Lexer.not_brokenOff_nil
  obtain ⟨htokens, hfaults⟩ := lex_lines hunbroken rest
  obtain ⟨semicolon, hsemicolon, hlast⟩ := lex_semicolon hunbroken
  obtain ⟨read, last, s, hreads, hread, hnone⟩ := reads_of_ok_listed whole hfirst
  obtain ⟨read', last', s', hreads', hread', hnone'⟩ :=
    reads_of_ok_placed hrest (Position.endOf_lines first rest)
  have hne : ∀ t ∈ (lex front).1, t.kind ≠ .eof := Lexer.tokens_ne_eof _
  rw [hlast] at hreads htokens
  have hbalanced := balanced_of_ok hfirst hlast hsemicolon
  obtain ⟨rfl, w, hdiagnostics, hwhole⟩ :=
    Reads.isolated hne hbalanced hsemicolon hreads hreads'
  rw [← htokens] at hwhole
  obtain ⟨hstatements, hrecorded⟩ := ofTokens_eq hwhole
  have hlisted : (ofText whole).statements = (ofTokens (lex whole).1 whole).statements :=
    (program_listed nestingLimit whole).1
  refine ⟨ok_iff.mpr ⟨?_, ?_⟩, ?_⟩
  · rw [hfaults, hlexed, (ok_iff.mp hrest).1, List.map_nil, List.append_nil]
  · rw [hrecorded, hdiagnostics, hnone, hnone', List.append_nil]
  · rw [hlisted, hstatements, List.append_assoc, hread', ← hread, Option.toList_none,
      List.append_nil]

end Reading

end Scriptlet
