import Scriptlet.Proofs.Grammar.Braces
import Scriptlet.Proofs.Grammar.Room
import Scriptlet.Proofs.Grammar.Unnoticed

/-!
# Statements do not disturb each other

A run of the parser over a stretch of tokens is also a run over any longer list with that
stretch in it, as long as it does not come to the end of the stretch: only the number of
tokens consumed before and the faults recorded before differ. What stands before a
semicolon outside of all braces, however malformed it is, is read up to that semicolon and
not beyond (`Braces`), so that the run over the whole is the run over the front followed
by the run over what is behind.
-/

namespace Scriptlet

open Scriptlet.Parser

/-- What lies around a stretch of tokens that is read. -/
structure Surroundings where
  before : Nat
  earlier : List Diagnostic
  more : List Token

namespace Supply

/-- A list of tokens goes on with more of them. -/
def extend (more : List Token) : Supply → Supply
  | lexer lx => lexer lx
  | tokens ts => tokens (ts ++ more)

theorem extend_nil (supply : Supply) : supply.extend [] = supply := by
  cases supply with
  | lexer lx => rfl
  | tokens ts => rw [extend, List.append_nil]

theorem pull_extend {more : List Token} {supply : Supply} {ending : Position}
    (h : more = [] ∨ (supply.pull ending).1.kind ≠ .eof) :
    (supply.extend more).pull ending =
      ((supply.pull ending).1, (supply.pull ending).2.extend more) := by
  cases supply with
  | lexer lx => rfl
  | tokens ts =>
    cases ts with
    | nil =>
      rcases h with rfl | hne
      · rfl
      · exact absurd rfl hne
    | cons t ts => rfl

end Supply

namespace Parser.State

/-- The state of a parser that reads the same in its surroundings. -/
def embed (c : Surroundings) (s : State) : State :=
  { s with
    supply := s.supply.extend c.more
    consumed := c.before + s.consumed
    diagnostics := c.earlier ++ s.diagnostics }

/-- The end of the stretch is only taken for the end where nothing follows. -/
def Inside (c : Surroundings) (s : State) : Prop := c.more = [] ∨ s.current.kind ≠ .eof

variable {c : Surroundings} {s s' : State}

@[simp] theorem embed_current : (s.embed c).current = s.current := rfl

theorem embed_fault (f : SyntaxFault) (p : Position) :
    (s.fault f p).2.embed c = ((s.embed c).fault f p).2 := by
  simp [embed, fault, complain, record, List.append_assoc]

theorem embed_expected (what : String) :
    (s.expected what).2.embed c = ((s.embed c).expected what).2 := embed_fault ..

theorem embed_advance (h : s.advance.Inside c) :
    s.advance.embed c = (s.embed c).advance := by
  by_cases hk : s.current.kind = .eof
  · rw [advance, if_pos hk, advance, embed_current, if_pos hk]
  · have hadvance : s.advance.current = (s.supply.pull s.ending).1 := by rw [advance, if_neg hk]
    have hends : c.more = [] ∨ (s.supply.pull s.ending).1.kind ≠ .eof :=
      h.imp_right fun hne => hadvance ▸ hne
    have hpull := Supply.pull_extend hends
    rw [advance, if_neg hk, advance, embed_current, if_neg hk]
    simp only [embed, hpull, Nat.add_assoc]

theorem eof_of_moves (h : Moves s s') (hk : s.current.kind = .eof) : s'.current.kind = .eof := by
  induction h with
  | refl => exact hk
  | fault f p _ ih => exact ih
  | advance _ ih => rwa [advance, if_pos ih]

theorem Inside.of_moves (hs' : s'.Inside c) (h : Moves s s') : s.Inside c := by
  rcases hs' with hmore | hk
  · exact .inl hmore
  · exact .inr fun heof => hk (eof_of_moves h heof)

end Parser.State

namespace Grammar

section Embed

variable {c : Surroundings} {s m s' : State} {room : Nat} {task : Task} {y : Yield}

/-- A parser does not notice the surroundings. -/
theorem unnoticed_embed (hs' : s'.Inside c) : Unnoticed (State.embed c) s s' where
  kind _ := rfl
  current _ := rfl
  consumed _ _ := Nat.add_left_cancel_iff
  advance _ h' := State.embed_advance (hs'.of_moves h')
  fault e p _ _ := ⟨rfl, (State.embed_fault e p).symm⟩

theorem embed_moveOn (h : (moveOn s.consumed m).Inside c) :
    (moveOn s.consumed m).embed c = moveOn (s.embed c).consumed (m.embed c) :=
  (unnoticed_embed h).moveOn (.refl m) (.refl _)

theorem embed_synchronize {closing : Token.Kind} {depth : Nat}
    (h : (s.synchronize closing depth).Inside c) :
    (s.synchronize closing depth).embed c = (s.embed c).synchronize closing depth :=
  (unnoticed_embed h).synchronize closing depth (.refl s) (.refl _)

/-- What is read from a stretch is read from it in its surroundings. -/
theorem Reads.embed (h : Reads room task s y s') (hs' : s'.Inside c) :
    Reads room task (s.embed c) y (s'.embed c) :=
  h.carry (unnoticed_embed hs') (.refl s) (.refl s')

end Embed

section Semicolon

variable {room : Nat} {semicolon : Token} {c : Surroundings} {s m s' : State} {read all : List Node}
  {last : Option Node}

/-- Nothing more is read at the end. -/
theorem Reads.nothing (h : Reads room (.sequence .eof read) s (.sequence all last) s')
    (hk : s.current.kind = .eof) : all = read ∧ last = none ∧ s' = s := by
  cases h with
  | sequenceEnd => exact ⟨rfl, rfl, rfl⟩
  | _ => simp_all

/-- What was read before does not matter to a list of statements. -/
theorem Reads.behind {closing : Token.Kind} (before : List Node)
    (h : Reads room (.sequence closing read) s (.sequence all last) s') :
    Reads room (.sequence closing (before ++ read)) s (.sequence (before ++ all) last) s' := by
  generalize htask : Task.sequence closing read = task at h
  generalize hy : Yield.sequence all last = y at h
  induction h generalizing read with
  | sequenceEnd hend =>
    cases htask
    cases hy
    exact .sequenceEnd hend
  | separator hend hk _ ih =>
    cases htask
    exact .separator hend hk (ih rfl hy)
  | terminated hend hk hitem hsemicolon _ _ ih =>
    cases htask
    have hrest := ih rfl hy
    rw [← List.append_assoc] at hrest
    exact .terminated hend hk hitem hsemicolon hrest
  | trailing hend hk hitem hsemicolon hclosing =>
    cases htask
    cases hy
    exact .trailing hend hk hitem hsemicolon hclosing
  | recovered hend hk hitem hsemicolon hclosing he _ _ ih =>
    cases htask
    have hrest := ih rfl hy
    rw [← List.append_assoc] at hrest
    exact .recovered hend hk hitem hsemicolon hclosing he hrest
  | unterminated hend hk hitem hsemicolon hclosing he hblock _ _ ih =>
    cases htask
    have hrest := ih rfl hy
    rw [← List.append_assoc] at hrest
    exact .unterminated hend hk hitem hsemicolon hclosing he hblock hrest
  | unseparated hend hk hitem hsemicolon hclosing he hblock _ _ ih =>
    cases htask
    have hrest := ih rfl hy
    rw [← List.append_assoc] at hrest
    exact .unseparated hend hk hitem hsemicolon hclosing he hblock hrest
  | _ => cases htask

/-- A semicolon is either the one to come, or one of the stretch. -/
theorem Ahead.pass {behind : List Token} (h : Ahead 0 semicolon behind s)
    (hk : s.current.kind = .semicolon) :
    s.pending = semicolon :: behind ∨ Ahead 0 semicolon behind s.advance := by
  obtain ⟨-, hpending⟩ | ⟨front, hcloses, hpending⟩ := h.cases
  · exact .inl hpending
  · rw [closes_other (by simp [hk]) (by simp [hk])] at hcloses
    exact .inr ⟨front, hcloses, by rw [pending_advance, hpending]; rfl⟩

/-- The list of statements comes to the semicolon outside of all braces: it reads as
far as that in its surroundings too, and from there whatever comes next. -/
structure Arrives (room : Nat) (semicolon : Token) (c : Surroundings) (read : List Node)
    (s : State) (all : List Node) (last : Option Node) (s' : State) : Prop where
  complete : last = none
  arrives : ∃ m, Moves s m ∧ m.pending = [semicolon] ∧ m.advance = s' ∧
    ∀ {y t'}, Reads room (.sequence .eof all) (m.embed c).advance y t' →
      Reads room (.sequence .eof read) (s.embed c) y t'

/-- The semicolon is come to, or there is a way to go to it. -/
theorem Arrives.go {read' : List Node} (hmoves : Moves s m)
    (hstep : ∀ {y t'}, Reads room (.sequence .eof read') (m.embed c) y t' →
      Reads room (.sequence .eof read) (s.embed c) y t')
    (h : Arrives room semicolon c read' m all last s') :
    Arrives room semicolon c read s all last s' := by
  obtain ⟨hlast, q, hq, hpending, hend, hrest⟩ := h
  exact ⟨hlast, q, .trans hmoves hq, hpending, hend, fun h => hstep (hrest h)⟩

theorem Arrives.reached {read' : List Node} (hmoves : Moves s m) (hm : Ahead 0 semicolon [] m)
    (hk : m.current.kind = .semicolon)
    (hrest : Reads room (.sequence .eof read') m.advance (.sequence all last) s')
    (hstep : ∀ {y t'}, Reads room (.sequence .eof read') (m.embed c).advance y t' →
      Reads room (.sequence .eof read) (s.embed c) y t')
    (ih : Ahead 0 semicolon [] m.advance → Arrives room semicolon c read' m.advance all last s') :
    Arrives room semicolon c read s all last s' := by
  rcases hm.pass hk with hpending | hadvance
  · have hend : m.advance.current.kind = .eof := by
      have hnil : m.advance.pending = [] := by rw [pending_advance, hpending]; rfl
      rw [State.pending] at hnil
      split at hnil
      · next heof => exact heof
      · cases hnil
    obtain ⟨rfl, rfl, rfl⟩ := hrest.nothing hend
    exact ⟨rfl, m, hmoves, hpending, rfl, hstep⟩
  · refine .go (.advance hmoves) (fun h => hstep ?_) (ih hadvance)
    rwa [← State.embed_advance (.inr hadvance.ne_eof)]

/-- However malformed the stretch is, its statements end at the semicolon behind it. -/
theorem Reads.arrives (hsemicolon : semicolon.kind = .semicolon) (hs : Ahead 0 semicolon [] s)
    (h : Reads room (.sequence .eof read) s (.sequence all last) s') :
    Arrives room semicolon c read s all last s' := by
  -- Behind a statement the stretch goes on, and so does that in the surroundings.
  have behind {room : Nat} {s m : State} {n : Node} (hs : Ahead 0 semicolon [] s)
      (hk : s.current.kind ≠ .semicolon)
      (hitem : Reads room (.rule .statement) s (.node n) m) :
      Ahead 0 semicolon [] (moveOn s.consumed m) ∧
        Reads room (.rule .statement) (s.embed c) (.node n) (m.embed c) ∧
        (moveOn s.consumed m).embed c = moveOn (s.embed c).consumed (m.embed c) := by
    have hright : s.current.kind ≠ .rightBrace := by
      intro hright
      have hcurrent := (current_of_pending (hs.of_rightBrace hright)).1
      rw [hcurrent, hsemicolon] at hright
      cases hright
    have hm := hitem.ahead (.inl hsemicolon) hs
    have hmoved := hm.moveOn hitem hright (hsemicolon ▸ hk)
    exact ⟨hmoved, hitem.embed (.inr hm.ne_eof), embed_moveOn (.inr hmoved.ne_eof)⟩
  generalize htask : Task.sequence .eof read = task at h
  generalize hy : Yield.sequence all last = y at h
  induction h generalizing read with
  | sequenceEnd hend =>
    cases htask
    have heof := hs.ne_eof
    simp at hend
    exact absurd hend heof
  | separator hend hk hrest ih =>
    cases htask
    cases hy
    exact .reached (.refl _) hs hk hrest (.separator hend hk) fun hm => ih hm rfl rfl
  | terminated hend hk hitem hk' hrest _ ih =>
    cases htask
    cases hy
    obtain ⟨hm, hitem', hmoved⟩ := behind hs hk hitem
    refine .reached (.moveOn _ (.of_reads hitem)) hm hk' hrest (fun h => ?_) fun hm => ih hm rfl rfl
    rw [hmoved] at h
    exact .terminated hend hk hitem' (by rwa [← hmoved]) h
  | trailing hend hk hitem hk' hclosing =>
    cases htask
    exact absurd hclosing (behind hs hk hitem).1.ne_eof
  | recovered hend hk hitem hk' hclosing he hrest _ ih =>
    cases htask
    cases hy
    obtain ⟨hm, hitem', hmoved⟩ := behind hs hk hitem
    have hclosing' : Token.Kind.eof ≠ .leftBrace := by decide
    have hafter := hm.synchronize (.inl hsemicolon) hclosing'
    refine .go (.synchronize _ _ (.moveOn _ (.of_reads hitem))) (fun h => ?_) (ih hafter rfl rfl)
    rw [embed_synchronize (.inr hafter.ne_eof), hmoved] at h
    exact .recovered hend hk hitem' (by rwa [← hmoved]) (by rwa [← hmoved]) he h
  | unterminated hend hk hitem hk' hclosing he hblock hrest _ ih =>
    cases htask
    cases hy
    obtain ⟨hm, hitem', hmoved⟩ := behind hs hk hitem
    refine .go (.moveOn _ (.of_reads hitem)) (fun h => ?_) (ih hm rfl rfl)
    rw [hmoved] at h
    exact .unterminated hend hk hitem' (by rwa [← hmoved]) (by rwa [← hmoved]) he hblock h
  | unseparated hend hk hitem hk' hclosing he hblock hrest _ ih =>
    cases htask
    cases hy
    obtain ⟨hm, hitem', hmoved⟩ := behind hs hk hitem
    refine .go (.expected _ (.moveOn _ (.of_reads hitem))) (fun h => ?_) (ih hm.fault rfl rfl)
    rw [State.embed_expected] at h
    refine .unseparated hend hk hitem' (by rwa [← hmoved]) (by rwa [← hmoved]) he hblock ?_
    rw [← hmoved]
    exact h
  | _ => cases htask

end Semicolon

section Tokens

variable {room : Nat} {semicolon : Token} {s s' : State} {ts A B : List Token}
  {text : List Char}

/-- The tokens of a list are taken from its front. -/
theorem tokens_of_moves (h : Moves s s') (hs : s.supply = .tokens ts) :
    ∃ rest, s'.supply = .tokens rest ∧ rest <:+ ts := by
  induction h with
  | refl => exact ⟨ts, hs, List.suffix_refl ts⟩
  | fault f p _ ih => exact ih
  | @advance m _ ih =>
    obtain ⟨rest, hm, hsuffix⟩ := ih
    rw [State.advance]
    split
    · exact ⟨rest, hm, hsuffix⟩
    · rw [hm]
      cases rest with
      | nil => exact ⟨[], rfl, List.nil_suffix⟩
      | cons t rest => exact ⟨rest, rfl, (List.suffix_cons t rest).trans hsuffix⟩

theorem ending_of_moves (h : Moves s s') : s'.ending = s.ending := by
  induction h with
  | refl => rfl
  | fault f p _ ih => exact ih
  | advance _ ih =>
    rw [State.advance]
    split <;> exact ih

theorem supply_ofSupply (ts : List Token) (text : List Char) :
    (State.ofSupply (.tokens ts) text).supply = .tokens ts.tail := by
  cases ts <;> rfl

/-- A list without an end is pending from its first token to its last. -/
theorem pending_tokens (hts : ∀ t ∈ ts, t.kind ≠ .eof) : (Supply.tokens ts).pending = ts := by
  induction ts with
  | nil => rfl
  | cons t ts ih =>
    rw [Supply.pending, List.takeWhile_cons_of_pos (by simpa using hts t (by simp))]
    exact congrArg _ (ih fun t ht => hts t (List.mem_cons_of_mem _ ht))

/-- The start of a list that goes on. -/
theorem embed_ofSupply (hts : ts ≠ []) :
    (State.ofSupply (.tokens ts) text).embed ⟨0, [], B⟩ = .ofSupply (.tokens (ts ++ B)) text := by
  cases ts with
  | nil => exact absurd rfl hts
  | cons t ts => rfl

/-- Behind the last token of a list of tokens, more of them are read as from a list of
their own. -/
theorem advance_embed {q : State} (hmoves : Moves (.ofSupply (.tokens ts) text) q)
    (hts : ∀ t ∈ ts, t.kind ≠ .eof) (hpending : q.pending = [semicolon]) :
    (q.embed ⟨0, [], B⟩).advance =
      (State.ofSupply (.tokens B) text).embed ⟨q.consumed + 1, q.diagnostics, []⟩ := by
  obtain ⟨hcurrent, hk⟩ := current_of_pending hpending
  obtain ⟨rest, hsupply, hsuffix⟩ := tokens_of_moves hmoves (supply_ofSupply ts text)
  have hrest : rest = [] := by
    rw [State.pending, if_neg hk, hsupply, pending_tokens] at hpending
    · exact (List.cons.inj hpending).2
    · exact fun t ht => hts t (List.mem_of_mem_tail (hsuffix.subset ht))
  have hending : q.ending = .endOf text := ending_of_moves hmoves
  subst hrest
  rw [State.advance, State.embed_current, if_neg hk]
  simp only [State.embed, State.ofSupply, hsupply, hending, Supply.extend_nil]
  simp only [Supply.extend, List.nil_append, Nat.zero_add, Nat.add_zero, List.append_nil]

/-- Statements up to a semicolon, and those behind it. -/
theorem Reads.isolated {readA readB : List Node} {lastA lastB : Option Node} {sA sB : State}
    (hA : ∀ t ∈ A, t.kind ≠ .eof) (hbalanced : BraceBalanced A)
    (hsemicolon : semicolon.kind = .semicolon)
    (hreadA : Reads room (.sequence .eof []) (.ofSupply (.tokens (A ++ [semicolon])) text)
      (.sequence readA lastA) sA)
    (hreadB : Reads room (.sequence .eof []) (.ofSupply (.tokens B) text)
      (.sequence readB lastB) sB) :
    lastA = none ∧ ∃ s, s.diagnostics = sA.diagnostics ++ sB.diagnostics ∧
      Reads room (.sequence .eof []) (.ofSupply (.tokens (A ++ [semicolon] ++ B)) text)
        (.sequence (readA ++ readB) lastB) s := by
  have hts : ∀ t ∈ A ++ [semicolon], t.kind ≠ .eof := by
    intro t ht
    rcases List.mem_append.mp ht with ht | ht
    · exact hA t ht
    · simp [List.mem_singleton.mp ht, hsemicolon]
  have hstart : (State.ofSupply (.tokens (A ++ [semicolon])) text).pending = A ++ [semicolon] := by
    rw [pending_ofSupply, pending_tokens hts]
  have hahead : Ahead 0 semicolon [] (.ofSupply (.tokens (A ++ [semicolon])) text) :=
    ⟨A, braceBalanced_iff.mp hbalanced, hstart⟩
  obtain ⟨hlast, q, hq, hpending, rfl, hrest⟩ :=
    hreadA.arrives (c := ⟨0, [], B⟩) hsemicolon hahead
  refine ⟨hlast, sB.embed ⟨q.consumed + 1, q.diagnostics, []⟩, ?_, ?_⟩
  · rw [diagnostics_advance]
    rfl
  · have hbehind := hreadB.embed (c := ⟨q.consumed + 1, q.diagnostics, []⟩) (.inl rfl)
    have hwhole := hbehind.behind readA
    rw [← advance_embed hq hts hpending, List.append_nil] at hwhole
    rw [← embed_ofSupply (by simp)]
    exact hrest hwhole

end Tokens

end Grammar

namespace Reading

open Scriptlet.Grammar

/-- The complaints about a list of tokens, in the order in which they are recorded. -/
def recorded (tokens : List Token) (text : List Char) : List Diagnostic :=
  ((program nestingLimit).run (.ofSupply (.tokens tokens) text)).2.diagnostics

theorem ofTokens_eq {tokens : List Token} {text : List Char} {read : List Node}
    {last : Option Node} {s : State}
    (h : Reads 978 (.sequence .eof []) (.ofSupply (.tokens tokens) text) (.sequence read last) s) :
    (ofTokens tokens text).statements = read ++ last.toList ∧
      recorded tokens text = s.diagnostics := by
  have hrun := program_eq h
  constructor
  · rw [ofTokens, ofSupply, nestingLimit, hrun]
  · rw [recorded, nestingLimit, hrun]

end Reading

open Grammar

/-- A semicolon outside of all braces keeps apart what stands before it and behind it,
errors included: the whole is read as the statements up to the semicolon and then those
behind it, and the complaints about the whole are those about the two, one after another. -/
theorem statements_are_isolated {A B : List Token} {semicolon : Token} {text : List Char}
    (hA : ∀ t ∈ A, t.kind ≠ .eof) (hbalanced : BraceBalanced A)
    (hsemicolon : semicolon.kind = .semicolon)
    (hfitsA : Reading.fits (.tokens (A ++ [semicolon])) text = true)
    (hfitsB : Reading.fits (.tokens B) text = true) :
    Reading.fits (.tokens (A ++ [semicolon] ++ B)) text = true ∧
      (Reading.ofTokens (A ++ [semicolon] ++ B) text).statements =
        (Reading.ofTokens (A ++ [semicolon]) text).statements ++
          (Reading.ofTokens B text).statements ∧
      Reading.recorded (A ++ [semicolon] ++ B) text =
        Reading.recorded (A ++ [semicolon]) text ++ Reading.recorded B text := by
  obtain ⟨readA, lastA, sA, hreadA⟩ := Reading.fits_iff.mp hfitsA
  obtain ⟨readB, lastB, sB, hreadB⟩ := Reading.fits_iff.mp hfitsB
  obtain ⟨rfl, s, hdiagnostics, hwhole⟩ :=
    Reads.isolated hA hbalanced hsemicolon hreadA hreadB
  obtain ⟨hstatementsA, hrecordedA⟩ := Reading.ofTokens_eq hreadA
  obtain ⟨hstatementsB, hrecordedB⟩ := Reading.ofTokens_eq hreadB
  obtain ⟨hstatements, hrecorded⟩ := Reading.ofTokens_eq hwhole
  refine ⟨Reading.fits_iff.mpr ⟨_, _, _, hwhole⟩, ?_, ?_⟩
  · rw [hstatements, hstatementsA, hstatementsB]
    simp
  · rw [hrecorded, hrecordedA, hrecordedB, hdiagnostics]

/-- An expression whose block, brackets and binding are all malformed, and two more faults
behind it. -/
theorem statements_are_isolated_from_malformed :
    let text := "x + { 1 2 (; } ] let = ; let y 3; )".toList
    let A := (lex text).1.take 11
    let semicolon : Token := ⟨.semicolon, ";", ⟨23, 1, 24⟩, 1⟩
    let B := (lex text).1.drop 12
    A ++ [semicolon] ++ B = (lex text).1 ∧
      Reading.fits (.tokens (A ++ [semicolon] ++ B)) text = true ∧
      (Reading.ofTokens (A ++ [semicolon] ++ B) text).statements =
        (Reading.ofTokens (A ++ [semicolon]) text).statements ++
          (Reading.ofTokens B text).statements ∧
      Reading.recorded (A ++ [semicolon] ++ B) text =
        Reading.recorded (A ++ [semicolon]) text ++ Reading.recorded B text :=
  ⟨by decide +kernel, statements_are_isolated (by decide +kernel) (by decide +kernel) rfl
    (by decide +kernel) (by decide +kernel)⟩

end Scriptlet
