import Scriptlet.Proofs.Grammar.Derivation
import Scriptlet.Proofs.Token.Diagnosis

/-!
# The tokens a parser has yet to consume

A lexer and a list of tokens are alike in what they still have to give. Whatever a
parser does is a sequence of two kinds of moves: consuming the current token and
recording a fault.
-/

namespace Scriptlet

namespace Supply

/-- The tokens that the supply has still to give. -/
def pending : Supply → List Token
  | lexer lx => lx.tokens.1
  | tokens ts => ts.takeWhile (·.kind ≠ .eof)

/-- The lexical diagnostics that there will be when all tokens are taken. -/
def finalDiagnostics : Supply → List Diagnostic
  | lexer lx => lx.tokens.2.diagnostics
  | tokens _ => []

/-- The end that is put in place of an end token has its kind. -/
theorem kind_pulled (t : Token) (ending : Position) :
    (if t.kind = .eof then .endAt ending else t).kind = t.kind := by
  split
  · next h => exact h.symm
  · rfl

theorem pull_lexer_kind (lx : Lexer) (ending : Position) :
    ((lexer lx).pull ending).1.kind = lx.next.1.kind := kind_pulled ..

theorem pull_tokens_kind (t : Token) (ts : List Token) (ending : Position) :
    ((tokens (t :: ts)).pull ending).1.kind = t.kind := kind_pulled ..

theorem pending_of_eof {supply : Supply} {ending : Position}
    (h : (supply.pull ending).1.kind = .eof) : supply.pending = [] := by
  cases supply with
  | lexer lx =>
    rw [pull_lexer_kind] at h
    simp only [pending, Lexer.tokens_of_eof h]
  | tokens ts =>
    cases ts with
    | nil => rfl
    | cons t ts =>
      rw [pull_tokens_kind] at h
      simp [pending, h]

theorem pending_of_ne_eof {supply : Supply} {ending : Position}
    (h : (supply.pull ending).1.kind ≠ .eof) :
    supply.pending = (supply.pull ending).1 :: (supply.pull ending).2.pending := by
  cases supply with
  | lexer lx =>
    rw [pull_lexer_kind] at h
    simp only [pending, pull, Lexer.tokens_of_ne_eof h, if_neg h]
  | tokens ts =>
    cases ts with
    | nil => exact absurd rfl h
    | cons t ts =>
      rw [pull_tokens_kind] at h
      simp [pending, pull, h]

theorem finalDiagnostics_pull (supply : Supply) (ending : Position) :
    (supply.pull ending).2.finalDiagnostics = supply.finalDiagnostics := by
  cases supply with
  | lexer lx =>
    by_cases hk : lx.next.1.kind = .eof
    · simp only [pull, finalDiagnostics, Lexer.tokens_of_eof hk]
      exact (Lexer.tokens_of_rest_nil (Lexer.rest_of_eof hk)).2
    · simp only [pull, finalDiagnostics, Lexer.tokens_of_ne_eof hk]
  | tokens ts => cases ts <;> rfl

/-- When the end is taken, all lexical diagnostics are there. -/
theorem diagnostics_of_eof {supply : Supply} {ending : Position}
    (h : (supply.pull ending).1.kind = .eof) :
    (supply.pull ending).2.diagnostics = supply.finalDiagnostics := by
  cases supply with
  | lexer lx =>
    rw [pull_lexer_kind] at h
    simp only [pull, diagnostics, finalDiagnostics, Lexer.tokens_of_eof h]
  | tokens ts => cases ts <;> rfl

end Supply

namespace Parser

/-- The tokens that are still to be consumed. -/
def State.pending (s : State) : List Token :=
  if s.current.kind = .eof then [] else s.current :: s.supply.pending

theorem diagnostics_advance (s : State) : s.advance.diagnostics = s.diagnostics := by
  rw [State.advance]
  split <;> rfl

theorem pending_advance (s : State) : s.advance.pending = s.pending.tail := by
  by_cases hk : s.current.kind = .eof
  · simp [State.advance, State.pending, hk]
  · simp only [State.advance, State.pending, if_neg hk, List.tail_cons]
    split
    · next heof => rw [Supply.pending_of_eof heof]
    · next hne => rw [Supply.pending_of_ne_eof hne]

section Synchronize

variable {closing : Token.Kind} {depth : Nat} {s : State}

theorem synchronize_eof (hk : s.current.kind = .eof) : s.synchronize closing depth = s := by
  rw [State.synchronize, dif_pos hk]

theorem synchronize_stop (hk : s.current.kind ≠ .eof)
    (hstop : (depth = 0 && [.semicolon, closing].contains s.current.kind) = true) :
    s.synchronize closing depth = s := by
  rw [State.synchronize, dif_neg hk, if_pos hstop]

theorem synchronize_leftBrace (hk : s.current.kind ≠ .eof)
    (hstop : ¬ (depth = 0 && [.semicolon, closing].contains s.current.kind) = true)
    (hleft : s.current.kind = .leftBrace) :
    s.synchronize closing depth = s.advance.synchronize closing (depth + 1) := by
  rw [State.synchronize, dif_neg hk, if_neg hstop, hleft]

theorem synchronize_rightBrace (hk : s.current.kind ≠ .eof)
    (hstop : ¬ (depth = 0 && [.semicolon, closing].contains s.current.kind) = true)
    (hright : s.current.kind = .rightBrace) :
    s.synchronize closing depth = s.advance.synchronize closing (depth - 1) := by
  rw [State.synchronize, dif_neg hk, if_neg hstop, hright]

theorem synchronize_other (hk : s.current.kind ≠ .eof)
    (hstop : ¬ (depth = 0 && [.semicolon, closing].contains s.current.kind) = true)
    (hleft : s.current.kind ≠ .leftBrace) (hright : s.current.kind ≠ .rightBrace) :
    s.synchronize closing depth = s.advance.synchronize closing depth := by
  rw [State.synchronize, dif_neg hk, if_neg hstop]
  split
  · next hbrace => exact absurd hbrace hleft
  · next hbrace => exact absurd hbrace hright
  · rfl

end Synchronize

/-- One move after another: consuming the current token, or recording a fault. -/
inductive Moves : State → State → Prop where
  | refl (s : State) : Moves s s
  | advance {s m : State} : Moves s m → Moves s m.advance
  | fault {s m : State} (f : SyntaxFault) (p : Position) : Moves s m → Moves s (m.fault f p).2

namespace Moves

variable {s m s' : State}

theorem trans (h : Moves s m) (h' : Moves m s') : Moves s s' := by
  induction h' with
  | refl => exact h
  | advance _ ih => exact .advance ih
  | fault f p _ ih => exact .fault f p ih

theorem expected (what : String) (h : Moves s m) : Moves s (m.expected what).2 := .fault _ _ h

theorem skip (kind : Token.Kind) (h : Moves s m) : Moves s (m.skip kind) := by
  rw [State.skip]
  split
  · exact .advance h
  · exact h

/-- Behind the first token a marker is skipped. -/
theorem marker {kind : Token.Kind} (hm : s.advance.skip kind = m) : Moves s m :=
  hm ▸ .skip kind (.advance (.refl s))

theorem moveOn (before : Nat) (h : Moves s m) : Moves s (Grammar.moveOn before m) := by
  rw [Grammar.moveOn]
  split
  · exact .advance h
  · exact h

theorem synchronize (closing : Token.Kind) (depth : Nat) (h : Moves s m) :
    Moves s (m.synchronize closing depth) := by
  induction depth, m using State.synchronize.induct closing with
  | case1 depth m hk => rwa [synchronize_eof hk]
  | case2 depth m hk hstop => rwa [synchronize_stop hk hstop]
  | case3 depth m hk hstop hleft ih =>
    rw [synchronize_leftBrace hk hstop hleft]
    exact ih (.advance h)
  | case4 depth m hk hstop hright ih =>
    rw [synchronize_rightBrace hk hstop hright]
    exact ih (.advance h)
  | case5 depth m hk hstop hleft hright ih =>
    rw [synchronize_other hk hstop hleft hright]
    exact ih (.advance h)

theorem of_advance (h : Moves s.advance s') : Moves s s' := trans (.advance (.refl s)) h

theorem of_expected {what : String} (h : Moves (s.expected what).2 s') : Moves s s' :=
  trans (.expected what (.refl s)) h

theorem of_skip {kind : Token.Kind} (h : Moves (s.skip kind) s') : Moves s s' :=
  trans (.skip kind (.refl s)) h

theorem of_moveOn {before : Nat} (h : Moves (Grammar.moveOn before s) s') : Moves s s' :=
  trans (.moveOn before (.refl s)) h

theorem of_synchronize {closing : Token.Kind} {depth : Nat}
    (h : Moves (s.synchronize closing depth) s') : Moves s s' :=
  trans (.synchronize closing depth (.refl s)) h

/-- Whatever is read, the parser only moves. -/
theorem of_reads {room : Nat} {task : Grammar.Task} {y : Grammar.Yield}
    (h : Grammar.Reads room task s y s') : Moves s s' := by
  induction h with
  | bindingStatement _ _ ih | returnStatement _ _ ih | expressionStatement _ _ _ ih
  | expression _ ih | unassigning _ _ ih | chainless _ _ _ _ ih | unprefixed _ _ ih
  | unapplied _ _ ih | compound _ _ ih | badItem _ _ _ ih => exact ih
  | chainEnd | applicationsEnd | sequenceEnd => exact .refl _
  | bareReturn | leaf | invalidToken | itemsEnd => exact .advance (.refl _)
  | unit => exact .advance (.advance (.refl _))
  | refused => exact .fault _ _ (.advance (.refl _))
  | missing => exact .expected _ (.refl _)
  | unnamed _ hm => exact .expected _ (.marker hm)
  | unassigned _ hm => exact .expected _ (.advance (.marker hm))
  | binding _ hm _ _ _ ih => exact (marker hm).trans ih.of_advance.of_advance
  -- Behind a first token
  | returnOf _ _ _ ih | prefixed _ _ ih | badCall _ _ ih | badIndex _ _ _ ih | grouped _ _ _ ih
  | tuple _ _ _ _ ih | badGroup _ _ _ ih | array _ _ ih | badArray _ _ ih | badCondition _ _ _ ih
  | separator _ _ _ ih => exact ih.of_advance
  | openIndex _ _ _ _ ih | openBlock _ _ _ ih | noBlock _ _ _ _ ih =>
    exact .expected _ ih.of_advance
  | block _ _ _ ih => exact .advance ih.of_advance
  | chainLink _ _ _ ih ihrest | call _ _ _ ih ihrest => exact ih.of_advance.trans ihrest
  | index _ _ _ _ _ ih ihrest => exact ih.of_advance.trans ihrest.of_advance
  | badBlock _ _ _ _ _ _ ihc iht | ifThen _ _ _ _ _ _ _ ihc iht => exact ihc.of_advance.trans iht
  | noBranch _ _ _ _ _ _ _ _ ihc iht => exact .expected _ (.advance (ihc.of_advance.trans iht))
  | badBranch _ _ _ _ _ _ _ _ _ _ ihc iht ihe | ifThenElse _ _ _ _ _ _ _ _ _ _ ihc iht ihe =>
    exact (ihc.of_advance.trans iht).trans ihe.of_advance
  -- Behind a first part
  | disjunction _ _ ih ihrest | conjunction _ _ ih ihrest | applied _ _ _ ih ihrest =>
    exact ih.trans ihrest
  | assignment _ _ _ _ _ ih ihrest | assignmentToError _ _ _ _ ih ihrest
  | rightChain _ _ _ _ ih ihrest | item _ _ _ _ _ ih ihrest => exact ih.trans ihrest.of_advance
  | invalidTarget _ _ _ _ _ ih ihrest => exact .fault _ _ (ih.trans ihrest.of_advance)
  | notMember _ _ _ _ ih ihrest => exact ih.trans ihrest.of_advance.of_advance
  | notAlone _ _ _ ih => exact .expected _ (.advance ih)
  | lastItem _ _ _ _ _ ih => exact .advance ih
  | openItems _ _ _ _ _ ih => exact .expected _ ih
  -- Behind a statement
  | terminated _ _ _ _ _ ih ihrest => exact (ih.moveOn _).trans ihrest.of_advance
  | trailing _ _ _ _ _ ih => exact ih.moveOn _
  | recovered _ _ _ _ _ _ _ ih ihrest => exact (ih.moveOn _).trans ihrest.of_synchronize
  | unterminated _ _ _ _ _ _ _ _ ih ihrest => exact (ih.moveOn _).trans ihrest
  | unseparated _ _ _ _ _ _ _ _ ih ihrest => exact (ih.moveOn _).trans ihrest.of_expected

end Moves

end Parser

end Scriptlet
