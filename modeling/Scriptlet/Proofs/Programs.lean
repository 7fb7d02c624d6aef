import Scriptlet.Program
import Scriptlet.Proofs.Grammar.Regular
import Scriptlet.Proofs.Session.Safety

/-!
# Programs that are read without errors

Error nodes and diagnostics go together, so a program without diagnostics has a tree
that can be evaluated. In all sessions in which only such programs were evaluated it
ends with a value or with an error of its own.
-/

namespace Scriptlet

open Node (containsErrors)

theorem sound_of_fresh {s : Session} (h : s.Fresh) : s.Sound := by
  rcases h with rfl | rfl
  · exact fun _ hb => absurd hb List.not_mem_nil
  · intro b hb
    obtain ⟨f, -, rfl⟩ := List.mem_map.mp (List.mem_reverse.mp hb)
    exact .function f

/-- The trees of texts, all read without diagnostics. -/
def Reading.AllOk (texts : List (List Char)) : Prop := ∀ t ∈ texts, (Reading.ofText t).ok = true

/-- The session after one text and then the next. -/
def Session.afterTexts (s : Session) (texts : List (List Char)) : Session :=
  s.afterPrograms (texts.map fun t => (Reading.ofText t).statements)

theorem sound_evaluate_text {s : Session} {text : List Char} (hs : s.Sound)
    (htext : (Reading.ofText text).ok = true) :
    (s.evaluate (Reading.ofText text).statements).1.Sound ∧
      (s.evaluate (Reading.ofText text).statements).2.Sound ∧
      ((s.evaluate (Reading.ofText text).statements).1 = .value none ↔
        (Reading.ofText text).statements = []) := by
  have hclean := Reading.containsErrors_of_ok htext
  obtain ⟨ts, hts, hregular⟩ := Reading.regular_terms_of_ok htext
  rw [← hts] at hclean ⊢
  obtain ⟨hresult, hsession, hnone⟩ := sound_evaluate hregular hclean hs
  refine ⟨hresult, hsession, hnone.trans ?_⟩
  cases ts <;> simp [Term.toNodes]

theorem sound_afterTexts {s : Session} {texts : List (List Char)} (hs : s.Sound)
    (htexts : Reading.AllOk texts) : (s.afterTexts texts).Sound := by
  induction texts generalizing s with
  | nil => exact hs
  | cons t ts ih =>
    have ht := htexts t List.mem_cons_self
    exact ih (sound_evaluate_text hs ht).2.1 fun u hu => htexts u (List.mem_cons_of_mem _ hu)

/-- A run with such a result is not aborted. -/
theorem finish_not_aborted {evaluated : Result × Session} (h : evaluated.1.Sound) (listing : String)
    (f : Fault) : (Program.finish listing evaluated).ending ≠ .aborted f := by
  obtain ⟨r, m⟩ := evaluated
  cases r with
  | value v =>
    cases v with
    | none => simp [Program.finish]
    | some v =>
      simp only [Program.finish]
      split <;> simp
  | error d => simp [Program.finish]
  | fault f => exact h.elim
  | tooDeep => exact h.elim

theorem run_not_aborted {s : Session} (hs : s.Sound) (listing : Listing) (text : List Char)
    (f : Fault) : (Program.run listing s text).ending ≠ .aborted f := by
  rw [Program.run]
  dsimp only
  split
  · simp
  · split
    · next hok =>
      have hprinted : ({ s with printed := "" } : Session).Sound := hs
      exact finish_not_aborted (sound_evaluate_text hprinted hok).1 _ f
    · simp

/-- Error nodes tell the truth about diagnostics: there is one in the tree exactly when
something else than an open comment is reported, and no error token is swallowed. What
is read without diagnostics passes the check for error nodes, in any session, and never
brings a run to a fault in a session of such programs. -/
theorem error_nodes_are_faithful (text : List Char) :
    (containsErrors (Reading.ofText text).statements = true ↔
        ∃ d ∈ (Reading.ofText text).diagnostics, d.message ≠ "unterminated block comment") ∧
      ((∃ t ∈ (lex text).1, t.kind = .error) →
        containsErrors (Reading.ofText text).statements = true) ∧
      ((Reading.ofText text).ok = true →
        containsErrors (Reading.ofText text).statements = false ∧
          (∀ s : Session, (s.evaluate (Reading.ofText text).statements).1 =
            .ofOutcome ((Eval.statements evaluationLimit none
              (Reading.ofText text).statements).outcome s).1) ∧
          ∀ (start : Session) (texts : List (List Char)) (listing : Listing) (f : Fault),
            start.Fresh → Reading.AllOk texts →
              (Program.run listing (start.afterTexts texts) text).ending ≠ .aborted f) := by
  refine ⟨Reading.containsErrors_iff_faulty text, Reading.containsErrors_of_error_token,
    fun hok => ?_⟩
  have hclean := Reading.containsErrors_of_ok hok
  refine ⟨hclean, fun s => ?_, fun start texts listing f hstart htexts => ?_⟩
  · rw [Session.evaluate_eq hclean]
  · exact run_not_aborted (sound_afterTexts (sound_of_fresh hstart) htexts) listing text f

/-- A text with an unknown character and an open comment, and a program that runs. -/
theorem error_nodes_of_unknown_character :
    containsErrors (Reading.ofText "let x = 1 @ 2; /* end".toList).statements = true ∧
      (∃ d ∈ (Reading.ofText "let x = 1 @ 2; /* end".toList).diagnostics,
        d.message ≠ "unterminated block comment") ∧
      containsErrors (Reading.ofText "let mut x = 1; { x = x + 1 }; x".toList).statements = false ∧
      ∀ f, (Program.run ⟨false, true⟩ (Session.withBuiltins.afterTexts ["let x = 1; y".toList])
        "let mut x = 1; { x = x + 1 }; x".toList).ending ≠ .aborted f := by
  have hok : (Reading.ofText "let mut x = 1; { x = x + 1 }; x".toList).ok = true := by
    decide +kernel
  have hbefore : Reading.AllOk ["let x = 1; y".toList] := by
    intro t ht
    rw [List.mem_singleton.mp ht]
    decide +kernel
  obtain ⟨hfaithful, hswallowed, -⟩ := error_nodes_are_faithful "let x = 1 @ 2; /* end".toList
  obtain ⟨-, -, hruns⟩ := error_nodes_are_faithful "let mut x = 1; { x = x + 1 }; x".toList
  obtain ⟨hclean, -, hfinished⟩ := hruns hok
  have herror := hswallowed (by decide +kernel)
  exact ⟨herror, hfaithful.mp herror, hclean,
    fun f => hfinished .withBuiltins _ ⟨false, true⟩ f (.inr rfl) hbefore⟩

/-- Evaluation is safe in every session that was reached by programs without diagnostics:
such a program has a value, or none if it is empty, or ends with a runtime error. -/
theorem evaluation_is_safe {start : Session} {texts : List (List Char)} {text : List Char}
    (hstart : start.Fresh) (htexts : Reading.AllOk texts)
    (htext : (Reading.ofText text).ok = true) :
    let result := ((start.afterTexts texts).evaluate (Reading.ofText text).statements).1
    ((∃ v, result = .value v) ∨ ∃ d, result = .error d ∧ d.phase = .runtime) ∧
      (result = .value none ↔ (Reading.ofText text).statements = []) := by
  obtain ⟨hresult, -, hnone⟩ :=
    sound_evaluate_text (sound_afterTexts (sound_of_fresh hstart) htexts) htext
  refine ⟨?_, hnone⟩
  generalize ((start.afterTexts texts).evaluate (Reading.ofText text).statements).1 = r at hresult
  cases r with
  | value v => exact .inl ⟨v, rfl⟩
  | error d => exact .inr ⟨d, rfl, hresult⟩
  | fault f => exact hresult.elim
  | tooDeep => exact hresult.elim

/-- A session in which a function was shadowed and a sum went wrong, and an assignment. -/
theorem evaluation_of_assignment_is_safe :
    let texts := ["let mut x = 1; let len = { x = x + 1; (x, [x]) };".toList, "x + len".toList]
    let text := "if x == 2 { x = len[0] } else { return }; x".toList
    let result := ((Session.withBuiltins.afterTexts texts).evaluate
      (Reading.ofText text).statements).1
    ((∃ v, result = .value v) ∨ ∃ d, result = .error d ∧ d.phase = .runtime) ∧
      (result = .value none ↔ (Reading.ofText text).statements = []) :=
  evaluation_is_safe (.inr rfl)
    (by
      intro t ht
      simp only [List.mem_cons, List.not_mem_nil, or_false] at ht
      rcases ht with rfl | rfl <;> decide +kernel)
    (by decide +kernel)

/-- No program leads out of the domain of values. All that is bound and returned is of the
domain, in every session that was reached by programs without diagnostics, and so is the value
of each expression of such a program, wherever in the program it is evaluated. -/
theorem values_stay_in_domain {start : Session} {texts : List (List Char)} (hstart : start.Fresh)
    (htexts : Reading.AllOk texts) :
    let s := start.afterTexts texts
    (∀ b ∈ s.bindings, b.value.InDomain) ∧
      ∀ text, (Reading.ofText text).ok = true →
        let ended := s.evaluate (Reading.ofText text).statements
        (∀ v, ended.1 = .value (some v) → v.InDomain) ∧
        (∀ b ∈ ended.2.bindings, b.value.InDomain) ∧
        ∀ n ∈ Node.preorderOfAll (Reading.ofText text).statements, ∀ room : Nat,
          ∀ m : Session, (∀ b ∈ m.bindings, b.value.InDomain) →
            Eval.Settled Value.InDomain ((eval room n).outcome m) := by
  intro s
  have hs : s.Sound := sound_afterTexts (sound_of_fresh hstart) htexts
  refine ⟨hs, fun text htext => ?_⟩
  obtain ⟨hresult, hended, -⟩ := sound_evaluate_text hs htext
  obtain ⟨ts, hts, hregular⟩ := Reading.regular_terms_of_ok htext
  have heverywhere : ∀ n ∈ Node.preorderOfAll (Reading.ofText text).statements,
      ∃ u : Term, u.Regular ∧ u.toNode = n := by
    rw [← hts, Term.toNodes_eq_map, Node.forall_preorderOfAll, List.forall_mem_map]
    exact fun t ht => (hregular t ht).everywhere
  refine ⟨fun v hv => ?_, hended, fun n hn room m hm => ?_⟩
  · rw [hv] at hresult
    exact hresult v rfl
  · obtain ⟨u, hu, rfl⟩ := heverywhere n hn
    exact safe_eval room u hu m hm

/-- A session that holds a row of rows, and a program that returns from within a tuple. -/
theorem values_of_return_stay_in_domain :
    let texts := ["let mut x = [1, (2.5, [\"a\"])]; let f = len".toList, "x = x + 1".toList]
    let s := Session.withBuiltins.afterTexts texts
    let text := "x = [x, -1.5]; (f(x), { return (x, 9223372036854775807) })".toList
    (∀ b ∈ s.bindings, b.value.InDomain) ∧
      ∀ v, (s.evaluate (Reading.ofText text).statements).1 = .value (some v) → v.InDomain := by
  intro texts s text
  have htexts : Reading.AllOk texts := by
    intro t ht
    simp only [texts, List.mem_cons, List.not_mem_nil, or_false] at ht
    rcases ht with rfl | rfl <;> decide +kernel
  obtain ⟨hbound, hprograms⟩ := values_stay_in_domain (.inr rfl) htexts
  exact ⟨hbound, (hprograms text (by decide +kernel)).1⟩

end Scriptlet
