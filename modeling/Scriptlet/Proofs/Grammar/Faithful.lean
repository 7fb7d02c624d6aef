import Scriptlet.Proofs.Grammar.Derivable
import Scriptlet.Proofs.Grammar.Recovery

/-!
# Error nodes and diagnostics

A text is read without error nodes exactly when nothing is reported but comments that
are never closed. The parser has recorded all faults by the time it comes to the end,
and the lexer's diagnostics are complete there.
-/

namespace Scriptlet

open Scriptlet.Parser
open Node (containsErrors)

theorem SyntaxFault.message_ne_comment (f : SyntaxFault) :
    f.message ≠ "unterminated block comment" := by
  -- opened here, before the cases: Lean takes long to find one equation for each fault
  unfold message
  cases f with
  | invalidTarget | functionDeclaration | nestedTooDeeply => decide
  | notInteger text =>
    dsimp only
    rw [Decimal.notInteger]
    split
    · exact append_ne_of_start Decimal.noInteger _ (by decide)
    · rw [String.append_assoc, String.append_assoc]
      exact append_ne_of_start "Exceeds the limit (" _ (by decide)
  | notFloat text => exact append_ne_of_start Decimal.noFloat _ (by decide)
  | _ =>
    simp only [String.append_assoc]
    exact append_ne_of_start _ _ (by decide)

namespace Parser

variable {s s' : State}

/-- A parser records only faults of syntax. -/
theorem faulty_of_moves (h : Moves s s') (hs : ∀ d ∈ s.diagnostics, Faulty [d]) :
    ∀ d ∈ s'.diagnostics, Faulty [d] := by
  induction h with
  | refl => exact hs
  | advance _ ih =>
    rwa [diagnostics_advance]
  | @fault m f p _ ih =>
    intro d hd
    obtain hd | hd := List.mem_append.mp hd
    · exact ih d hd
    · exact ⟨d, List.mem_singleton_self d, List.mem_singleton.mp hd ▸ f.message_ne_comment⟩

/-- What the supply has still to report is settled from the start. -/
theorem finalDiagnostics_of_moves (h : Moves s s') :
    s'.supply.finalDiagnostics = s.supply.finalDiagnostics := by
  induction h with
  | refl => rfl
  | fault f p _ ih => exact ih
  | @advance m _ ih =>
    rw [← ih, State.advance]
    split
    · rfl
    · exact Supply.finalDiagnostics_pull ..

/-- At the end the supply has reported all. -/
def Complete (s : State) : Prop :=
  s.current.kind = .eof → s.supply.diagnostics = s.supply.finalDiagnostics

theorem complete_ofSupply (supply : Supply) (text : List Char) :
    Complete (.ofSupply supply text) := by
  intro h
  rw [State.ofSupply, Supply.finalDiagnostics_pull]
  exact Supply.diagnostics_of_eof h

theorem complete_of_moves (h : Moves s s') (hs : Complete s) : Complete s' := by
  induction h with
  | refl => exact hs
  | fault f p _ ih => exact ih
  | @advance m _ ih =>
    rw [State.advance]
    split
    · exact ih
    · intro heof
      rw [Supply.finalDiagnostics_pull]
      exact Supply.diagnostics_of_eof heof

theorem pending_ofSupply (supply : Supply) (text : List Char) :
    (State.ofSupply supply text).pending = supply.pending := by
  rw [State.pending]
  split
  · next h => exact (Supply.pending_of_eof h).symm
  · next h => exact (Supply.pending_of_ne_eof h).symm

theorem diagnostics_drain (s : State) : s.drain.diagnostics = s.diagnostics := by
  induction s using State.drain.induct with
  | case1 s h => rw [State.drain, dif_pos h]
  | case2 s h ih =>
    rw [State.drain, dif_neg h, ih, diagnostics_advance]

end Parser

namespace Grammar

/-- A list of statements ends where it is closed, or with the text. -/
theorem Reads.closed {room : Nat} {closing : Token.Kind} {read read' : List Node}
    {last : Option Node} {s s' : State}
    (h : Reads room (.sequence closing read) s (.sequence read' last) s') :
    s'.current.kind = closing ∨ s'.current.kind = .eof := by
  generalize htask : Task.sequence closing read = task at h
  generalize hy : Yield.sequence read' last = y at h
  induction h generalizing read with
  | sequenceEnd hends =>
    cases htask
    simpa using hends
  | trailing _ _ _ _ hclose =>
    cases htask
    exact .inl hclose
  | separator _ _ _ ih | terminated _ _ _ _ _ _ ih | recovered _ _ _ _ _ _ _ _ ih
  | unterminated _ _ _ _ _ _ _ _ _ ih | unseparated _ _ _ _ _ _ _ _ _ ih =>
    cases htask
    exact ih rfl hy
  | _ => cases htask

theorem Reads.ends {room : Nat} {read read' : List Node} {last : Option Node} {s s' : State}
    (h : Reads room (.sequence .eof read) s (.sequence read' last) s') :
    s'.current.kind = .eof := h.closed.elim id id

/-- The two ways in which a whole text is read: its statements have a derivation, or
there is no room for them. -/
theorem program_cases (room : Nat) (s : State) :
    (∃ read last s', Reads room (.sequence .eof []) s (.sequence read last) s' ∧
        (program (room + 2)).run s = (read ++ last.toList, s')) ∨
      ∃ m : State, (program (room + 2)).run s = ([m.giveUp.1], m.giveUp.2) := by
  rcases hout : (statements (room + 1) .eof).outcome s with ⟨r, m⟩
  have hrun : StateT.run (ExceptT.run (statements (room + 1) .eof)) s = (r, m) := hout
  rw [program, StateT.run_bind, Nat.add_sub_cancel (room + 1) 1, hrun]
  cases r with
  | ok r => exact .inl ⟨r.1, r.2, m, reads_of_statements hout, rfl⟩
  | error e => exact .inr ⟨m, rfl⟩

/-- At the end of the text all lexical diagnostics are there. -/
theorem Reads.supply_diagnostics {room : Nat} {lx : Lexer} {text : List Char}
    {read : List Node} {last : Option Node} {s' : State}
    (h : Reads room (.sequence .eof []) (.ofSupply (.lexer lx) text) (.sequence read last) s') :
    s'.supply.diagnostics = lx.tokens.2.diagnostics := by
  have hmoves := Moves.of_reads h
  rw [complete_of_moves hmoves (complete_ofSupply _ _) h.ends, finalDiagnostics_of_moves hmoves,
    State.ofSupply, Supply.finalDiagnostics_pull, Supply.finalDiagnostics]

/-- An error node in the statements of a text means that a fault is recorded or that
there is an error token, of which the lexer knows. -/
theorem Reads.errors_of_text {room : Nat} {lx : Lexer} {text : List Char} {read : List Node}
    {last : Option Node} {s' : State} (hlx : ¬ Faulty lx.diagnostics)
    (h : Reads room (.sequence .eof []) (.ofSupply (.lexer lx) text) (.sequence read last) s') :
    (containsErrors (read ++ last.toList) = true ↔
        s'.diagnostics ≠ [] ∨ ∃ t ∈ lx.tokens.1, t.kind = .error) ∧
      (Faulty (s'.supply.diagnostics ++ s'.diagnostics) ↔
        s'.diagnostics ≠ [] ∨ ∃ t ∈ lx.tokens.1, t.kind = .error) := by
  have hmoves := Moves.of_reads h
  constructor
  · have hstart : blemishes (.ofSupply (.lexer lx) text) =
        -(lx.tokens.1.countP (·.kind = .error)) := by
      rw [blemishes, pending_ofSupply]
      simp [State.ofSupply, Supply.pending]
    have hend : blemishes s' = s'.diagnostics.length := by
      simp [blemishes, State.pending, h.ends]
    have hcount : 0 < lx.tokens.1.countP (·.kind = .error) ↔
        ∃ t ∈ lx.tokens.1, t.kind = .error := by
      simp [List.countP_pos_iff]
    have hlength : 0 < s'.diagnostics.length ↔ s'.diagnostics ≠ [] := List.length_pos_iff
    have herrors := h.errors_iff trivial
    simp only [Yield.nodes, Task.nodes, Node.containsErrors_nil, Bool.false_eq_true, false_or,
      Blemished, hstart, hend] at herrors
    rw [herrors, ← hcount, ← hlength]
    omega
  · have hsupply := h.supply_diagnostics
    have hrecorded : Faulty s'.diagnostics ↔ s'.diagnostics ≠ [] := by
      constructor
      · rintro ⟨d, hd, -⟩ hnil
        simp [hnil] at hd
      · intro hne
        obtain ⟨d, hd⟩ := List.exists_mem_of_ne_nil _ hne
        obtain ⟨e, he, hmessage⟩ := faulty_of_moves hmoves (by simp [State.ofSupply]) d hd
        exact ⟨d, hd, List.mem_singleton.mp he ▸ hmessage⟩
    rw [faulty_append, hsupply, hrecorded, Lexer.faulty_tokens, or_iff_right hlx, or_comm]

/-- Giving up is reported. -/
theorem mem_giveUp (m : State) :
    ⟨.parser, SyntaxFault.nestedTooDeeply.message, m.current.position⟩ ∈ m.giveUp.2.diagnostics := by
  have hdrain : m.giveUp.2.diagnostics =
      (m.fault .nestedTooDeeply m.current.position).2.diagnostics :=
    diagnostics_drain _
  rw [hdrain]
  exact List.mem_append_right _ (List.mem_singleton_self _)

theorem errors_of_giveUp (m : State) :
    containsErrors [m.giveUp.1] = true ∧
      Faulty (m.giveUp.2.supply.diagnostics ++ m.giveUp.2.diagnostics) := by
  refine ⟨Node.containsErrors_ofError .., (faulty_append ..).mpr (.inr ?_)⟩
  exact ⟨_, mem_giveUp m, SyntaxFault.nestedTooDeeply.message_ne_comment⟩

end Grammar

namespace Reading

open Scriptlet.Grammar

theorem faulty_ordered (ds : List Diagnostic) : Faulty (Diagnostic.ordered ds) ↔ Faulty ds := by
  simp only [Faulty, Diagnostic.ordered, List.mem_mergeSort]

/-- What a text is read as, given how its statements are read. -/
theorem ofText_eq {text : List Char} {ns : List Node} {s : State}
    (h : (program nestingLimit).run (.ofSupply (.lexer (Lexer.ofText text)) text) = (ns, s)) :
    ofText text = ⟨ns, Diagnostic.ordered (s.supply.diagnostics ++ s.diagnostics)⟩ := by
  rw [ofText, ofSupply, h]

theorem not_faulty_ofText (text : List Char) : ¬ Faulty (Lexer.ofText text).diagnostics := by
  simp [Faulty, Lexer.ofText]

theorem containsErrors_iff_faulty (text : List Char) :
    containsErrors (ofText text).statements = true ↔ Faulty (ofText text).diagnostics := by
  obtain ⟨read, last, s', h, hrun⟩ | ⟨m, hrun⟩ :=
    program_cases 978 (.ofSupply (.lexer (Lexer.ofText text)) text)
  · obtain ⟨herrors, hfaulty⟩ := h.errors_of_text (not_faulty_ofText text)
    rw [ofText_eq hrun, faulty_ordered, herrors, hfaulty]
  · obtain ⟨herrors, hfaulty⟩ := errors_of_giveUp m
    rw [ofText_eq hrun, faulty_ordered]
    exact iff_of_true herrors hfaulty

/-- No error token is swallowed. -/
theorem containsErrors_of_error_token {text : List Char}
    (ht : ∃ t ∈ (lex text).1, t.kind = .error) :
    containsErrors (ofText text).statements = true := by
  obtain ⟨read, last, s', h, hrun⟩ | ⟨m, hrun⟩ :=
    program_cases 978 (.ofSupply (.lexer (Lexer.ofText text)) text)
  · rw [ofText_eq hrun]
    exact (h.errors_of_text (not_faulty_ofText text)).1.mpr (.inr ht)
  · rw [ofText_eq hrun]
    exact (errors_of_giveUp m).1

theorem containsErrors_of_ok {text : List Char} (h : (ofText text).ok = true) :
    containsErrors (ofText text).statements = false := by
  refine eq_false_of_ne_true fun herrors => ?_
  obtain ⟨d, hd, -⟩ := (containsErrors_iff_faulty text).mp herrors
  rw [List.isEmpty_iff.mp h] at hd
  exact List.not_mem_nil hd

end Reading

end Scriptlet
