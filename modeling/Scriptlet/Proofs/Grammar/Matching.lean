import Scriptlet.Proofs.Grammar.Braces
import Scriptlet.Proofs.Grammar.Grammatical
import Scriptlet.Proofs.Grammar.Isolation
import Scriptlet.Proofs.Grammar.Unlimited

/-!
# Matching braces

However malformed its statements are, a block ends at the brace that matches its first one, found
by counting braces alone. Up to the end of the text no rule leaves a brace open: what is consumed
from one state to the next closes as many braces as it opens. Only where there is no matching
brace does a block come to the end, and then it is an error.
-/

namespace Scriptlet.Grammar

open Scriptlet.Parser

/-- The stretch from an opening brace to the one that matches it, the first at which as many
braces are closed as opened. -/
structure Matched (ts : List Token) : Prop where
  ne_nil : ts ≠ []
  totals : ts.countP (·.kind = .rightBrace) = ts.countP (·.kind = .leftBrace)
  first : ∀ front, front <+: ts → front ≠ [] → front ≠ ts →
    front.countP (·.kind = .rightBrace) < front.countP (·.kind = .leftBrace)

section Counting

variable {t brace : Token} {ts inner behind : List Token}

theorem matched_concat (ht : t.kind = .leftBrace) (hbrace : brace.kind = .rightBrace) :
    Matched (t :: inner ++ [brace]) ↔ closes 0 inner = true := by
  rw [closes_iff]
  constructor
  · intro h
    have htotals := h.totals
    simp only [List.cons_append, List.countP_cons, List.countP_append, List.countP_nil, ht, hbrace]
      at htotals
    refine ⟨fun front hfront => ?_, by simp at htotals; omega⟩
    have hproper : t :: front ≠ t :: inner ++ [brace] := by
      intro heq
      have hle := hfront.length_le
      have hlength := congrArg List.length heq
      simp at hlength
      omega
    have hfirst := h.first (t :: front) ?_ (by simp) hproper
    · simp [ht] at hfirst
      omega
    · exact List.prefix_cons_inj t |>.mpr (hfront.trans (List.prefix_append ..))
  · intro ⟨hprefixes, htotals⟩
    refine ⟨by simp, ?_, ?_⟩
    · simp [ht, hbrace]
      omega
    · intro front hfront hne hproper
      rcases List.prefix_concat_iff.mp hfront with heq | hbefore
      · exact absurd heq hproper
      · obtain rfl | ⟨front, rfl, hinner⟩ := List.prefix_cons_iff.mp hbefore
        · exact absurd rfl hne
        · have hle := hprefixes front hinner
          simp [ht]
          omega

/-- From the opening brace on, what is matched is closed by its last token. -/
theorem Matched.exists_brace (h : Matched (t :: ts)) (ht : t.kind = .leftBrace) :
    ∃ inner brace, ts = inner ++ [brace] ∧ brace.kind = .rightBrace ∧ closes 0 inner = true := by
  have htotals := h.totals
  rcases List.eq_nil_or_concat ts with rfl | ⟨inner, brace, hlast⟩
  · simp [ht] at htotals
  rw [List.concat_eq_append] at hlast
  subst hlast
  have hfirst := h.first (t :: inner) (by simp) (by simp) (by simp)
  have hbrace : brace.kind = .rightBrace := by
    refine Decidable.byContradiction fun hother => ?_
    simp [ht, hother] at htotals hfirst
    omega
  exact ⟨inner, brace, rfl, hbrace, (matched_concat ht hbrace).mp h⟩

end Counting

/-- The tokens consumed from the one state to the other close the braces that they open, and no
others, at any depth. -/
def Passes (s s' : State) : Prop :=
  ∃ ts, Takes s ts s' ∧ ∀ depth rest, closes depth (ts ++ rest) = closes depth rest

variable {room : Nat} {s m s' : State} {task : Task} {y : Yield}

theorem Passes.refl (s : State) : Passes s s := ⟨[], .refl s, fun _ _ => rfl⟩

theorem Passes.trans (h : Passes s m) (h' : Passes m s') : Passes s s' := by
  obtain ⟨ts, htakes, hcloses⟩ := h
  obtain ⟨rest, htakes', hcloses'⟩ := h'
  refine ⟨ts ++ rest, htakes.trans htakes', fun depth behind => ?_⟩
  rw [List.append_assoc, hcloses, hcloses']

theorem passes_advance (hk : s.current.kind ≠ .eof) (hleft : s.current.kind ≠ .leftBrace)
    (hright : s.current.kind ≠ .rightBrace) : Passes s s.advance :=
  ⟨[s.current], takes_advance hk, fun _ _ => closes_other hleft hright⟩

/-- At the end nothing is consumed. -/
theorem passes_plain (hk : Plain s.current.kind) : Passes s s.advance := by
  by_cases heof : s.current.kind = .eof
  · rw [State.advance, if_pos heof]
    exact .refl s
  · exact passes_advance heof hk.2 fun hright => hk.1 (.inr hright)

theorem passes_semicolon (hk : s.current.kind = .semicolon) : Passes s s.advance :=
  passes_advance (by simp [hk]) (by simp [hk]) (by simp [hk])

/-- From an opening brace to the one that matches it. -/
theorem Passes.enclosed (hleft : s.current.kind = .leftBrace) (h : Passes s.advance m)
    (hright : m.current.kind = .rightBrace) : Passes s m.advance := by
  obtain ⟨ts, htakes, hcloses⟩ := h
  refine ⟨s.current :: (ts ++ [m.current]), ?_, fun depth rest => ?_⟩
  · exact (htakes.concat (by simp [hright])).cons (by simp [hleft])
  · rw [List.cons_append, closes_leftBrace hleft, List.append_assoc, hcloses, List.singleton_append,
      closes_rightBrace_succ hright]

/-- Recovery in a block stops outside of the braces opened on the way, unless it gets to the
end. -/
theorem passes_synchronize {depth : Nat} (s : State)
    (h : (s.synchronize .rightBrace depth).current.kind ≠ .eof) :
    ∃ ts, Takes s ts (s.synchronize .rightBrace depth) ∧
      ∀ outer rest, closes (outer + depth) (ts ++ rest) = closes outer rest := by
  -- The token that is consumed, and those behind it.
  have step {s s' : State} {depth depth' : Nat} (hk : s.current.kind ≠ .eof)
      (hcloses : ∀ outer rest,
        closes (outer + depth) (s.current :: rest) = closes (outer + depth') rest)
      (h : ∃ ts, Takes s.advance ts s' ∧
        ∀ outer rest, closes (outer + depth') (ts ++ rest) = closes outer rest) :
      ∃ ts, Takes s ts s' ∧
        ∀ outer rest, closes (outer + depth) (ts ++ rest) = closes outer rest := by
    obtain ⟨ts, htakes, hrest⟩ := h
    refine ⟨s.current :: ts, htakes.cons hk, fun outer rest => ?_⟩
    rw [List.cons_append, hcloses, hrest]
  induction depth, s using State.synchronize.induct .rightBrace with
  | case1 depth s hk =>
    rw [synchronize_eof hk] at h
    exact absurd hk h
  | case2 depth s hk hstop =>
    rw [synchronize_stop hk hstop]
    simp only [Bool.and_eq_true, decide_eq_true_eq] at hstop
    exact ⟨[], .refl s, fun outer rest => by rw [hstop.1]; rfl⟩
  | case3 depth s hk hstop hleft ih =>
    rw [synchronize_leftBrace hk hstop hleft] at h ⊢
    exact step hk (fun _ _ => closes_leftBrace hleft) (ih h)
  | case4 depth s hk hstop hright ih =>
    rw [synchronize_rightBrace hk hstop hright] at h ⊢
    cases depth with
    | zero =>
      refine absurd ?_ hstop
      simp [hright]
    | succ depth => exact step hk (fun _ _ => closes_rightBrace_succ hright) (ih h)
  | case5 depth s hk hstop hleft hright ih =>
    rw [synchronize_other hk hstop hleft hright] at h ⊢
    exact step hk (fun _ _ => closes_other hleft hright) (ih h)

/-- What happens before the end of the text closes the braces that it opens. -/
theorem Trail.passes {inBlock : Bool} (h : Trail inBlock s s') (hend : s'.current.kind ≠ .eof) :
    Passes s s' := by
  induction h with
  | refl => exact .refl _
  | @plain _ _ m h hk ih =>
    have hm : m.current.kind ≠ .eof :=
      fun heof => hend (State.eof_of_moves (.advance (.refl m)) heof)
    exact (ih hm).trans (passes_plain hk)
  | fault f p _ ih => exact ih hend
  | block _ hleft _ hright ih ihinside =>
    have hinside := ihinside (by simp [hright])
    exact (ih (by simp [hleft])).trans (.enclosed hleft hinside hright)
  | openBlock _ _ _ heof => exact absurd heof hend
  | semicolon _ hk ih => exact (ih (by simp [hk])).trans (passes_semicolon hk)
  | @recovery _ m _ ih =>
    have hm : m.current.kind ≠ .eof :=
      fun heof => hend (State.eof_of_moves (.synchronize _ _ (.refl m)) heof)
    exact (ih hm).trans (passes_synchronize m hend)

section Blocks

variable {n : Node} {block behind : List Token}

/-- Behind the first token of a block lies the rest of it. -/
theorem pending_of_block {ts : List Token} (hpending : s.pending = block ++ ts)
    (hblock : block ≠ []) :
    ∃ inside, block = s.current :: inside ∧ s.advance.pending = inside ++ ts := by
  cases block with
  | nil => exact absurd rfl hblock
  | cons t inside =>
    obtain ⟨rfl, -⟩ := current_of_pending hpending
    exact ⟨inside, rfl, by rw [pending_advance, hpending]; rfl⟩

theorem Reads.block_ends (h : Reads room (.rule .block) s (.node n) s')
    (hk : s.current.kind = .leftBrace) (hpending : s.pending = block ++ behind)
    (hmatched : Matched block) : n.kind = .block ∧ s'.pending = behind := by
  obtain ⟨inside, rfl, hadvance⟩ := pending_of_block hpending hmatched.ne_nil
  obtain ⟨inner, brace, rfl, hbrace, hcloses⟩ := hmatched.exists_brace hk
  have hahead : Ahead 0 brace behind s.advance := ⟨inner, hcloses, by simpa using hadvance⟩
  cases h with
  | block _ hstatements hclosed =>
    have hm := (hstatements.ahead ⟨hbrace, rfl⟩ hahead).of_rightBrace hclosed
    exact ⟨rfl, by rw [pending_advance, hm]; rfl⟩
  | openBlock _ hstatements hopen =>
    have hm := hstatements.ahead ⟨hbrace, rfl⟩ hahead
    rcases hstatements.closed with hclosed | heof
    · exact absurd hclosed hopen
    · exact absurd heof hm.ne_eof
  | chainless hlevel => cases hlevel
  | rightChain hlevel => cases hlevel

theorem Reads.open_block (h : Reads room (.rule .block) s (.node n) s')
    (hk : s.current.kind = .leftBrace)
    (hopen : ¬ ∃ block behind, s.pending = block ++ behind ∧ Matched block) :
    n.isError = true ∧ s'.current.kind = .eof := by
  cases h with
  | @block _ _ _ _ m _ hstatements hclosed =>
    exfalso
    obtain ⟨inner, htakes, hcloses⟩ := (hstatements.trail rfl).passes (by simp [hclosed])
    have hinner : closes 0 inner = true := by simpa [closes] using hcloses 0 []
    have hbrace : m.current.kind ≠ .eof := by simp [hclosed]
    refine hopen ⟨s.current :: inner ++ [m.current], m.advance.pending, ?_, ?_⟩
    · exact (htakes.concat hbrace).cons (by simp [hk])
    · exact (matched_concat hk hclosed).mpr hinner
  | openBlock _ hstatements hunclosed =>
    rcases hstatements.closed with hclosed | heof
    · exact absurd hclosed hunclosed
    · exact ⟨rfl, heof⟩
  | chainless hlevel => cases hlevel
  | rightChain hlevel => cases hlevel

end Blocks

end Scriptlet.Grammar

namespace Scriptlet

open Scriptlet.Grammar Scriptlet.Parser

/-- In all states of the parser a block is read, unless there is not enough room for the rules in
it. It ends right behind the brace that matches its first one, if there is such a brace, and else
at the end of the text with an error. In the same way statements and expressions are read, which
leave no brace open and close none that was opened before them if they end before the end of the
text. -/
theorem blocks_end_at_matching_braces (s : State) :
    (s.current.kind = .leftBrace → ∃ n s', Settles .block s n s' ∧
      (∀ block behind, s.pending = block ++ behind → Matched block →
        n.kind = .block ∧ s'.pending = behind) ∧
      ((¬ ∃ block behind, s.pending = block ++ behind ∧ Matched block) →
        n.isError = true ∧ s'.current.kind = .eof)) ∧
    ∀ rule ∈ [Rule.statement, .expression], ∃ n s', Settles rule s n s' ∧
      (s'.current.kind ≠ .eof → ∃ ts, s.pending = ts ++ s'.pending ∧ BraceBalanced ts) := by
  constructor
  · intro hk
    obtain ⟨n, s', -, -, hsettles⟩ := settles (show Admits .block s.current.kind from hk)
    have hread := derived_parse _ .block s n s' hk (hsettles.gives (Nat.le_refl _))
    refine ⟨n, s', hsettles, ?_, ?_⟩
    · intro block behind hpending hmatched
      exact hread.block_ends hk hpending hmatched
    · intro hopen
      exact hread.open_block hk hopen
  · intro rule hrule
    have hadmits : Admits rule s.current.kind := by
      simp only [List.mem_cons, List.not_mem_nil, or_false] at hrule
      rcases hrule with rfl | rfl <;> trivial
    obtain ⟨n, s', -, -, hsettles⟩ := settles hadmits
    have hread := derived_parse _ rule s n s' hadmits (hsettles.gives (Nat.le_refl _))
    refine ⟨n, s', hsettles, ?_⟩
    intro hend
    obtain ⟨ts, htakes, hcloses⟩ := (hread.trail trivial).passes hend
    refine ⟨ts, htakes, braceBalanced_iff.mpr ?_⟩
    simpa [closes] using hcloses 0 []

/-- A block of statements that are all malformed, with more braces in them, is read up to the
brace that matches its first one. -/
theorem malformed_block_ends_at_matching_brace :
    let text := "\x7b ( \x7b 1 2 ; \x7d ] let if \x7d x \x7d y".toList
    let s := State.ofSupply (.lexer (Lexer.ofText text)) text
    let block := (lex text).1.take 11
    let behind := (lex text).1.drop 11
    s.current.kind = .leftBrace ∧ s.pending = block ++ behind ∧ Matched block ∧
      ∃ n s', (parse nestingLimit .block).Gives s n s' ∧ n.kind = .block ∧ s'.pending = behind := by
  intro text s block behind
  have hk : s.current.kind = .leftBrace := by decide +kernel
  have hpending : s.pending = block ++ behind := by
    rw [pending_ofSupply, List.take_append_drop]
    rfl
  have hblock : block = ⟨.leftBrace, "\x7b", ⟨0, 1, 1⟩, 1⟩ :: ((lex text).1.take 10).tail ++
      [⟨.rightBrace, "\x7d", ⟨23, 1, 24⟩, 1⟩] := by
    decide +kernel
  have hmatched : Matched block := by
    rw [hblock]
    exact (matched_concat rfl rfl).mpr (by decide +kernel)
  have hlength : s.pending.length = 14 := by decide +kernel
  have hroom : ample (size .block s) ≤ nestingLimit := by
    rw [size, hlength]
    decide
  obtain ⟨n, s', hsettles, hends, -⟩ := (blocks_end_at_matching_braces s).1 hk
  obtain ⟨hkind, hbehind⟩ := hends block behind hpending hmatched
  exact ⟨hk, hpending, hmatched, n, s', hsettles.gives hroom, hkind, hbehind⟩

end Scriptlet
