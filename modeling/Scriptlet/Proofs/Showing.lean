import Scriptlet.Proofs.Programs

/-!
# Runs without an answer

Evaluation bounds how deep a program may nest, but not how deep a value becomes from one
program to the next. A value is shown when the evaluation is over, and nothing catches a lack
of room there. So a run ends with its result or with errors, in all sessions that runs lead
to, unless its value is too deep to be shown; and a loop around one variable gets there.
-/

namespace Scriptlet

namespace Program

/-- Nothing is shown besides the result. -/
def unlisted : Listing := ⟨false, false⟩

/-- What the run of a text evaluates, if the text is read without errors. -/
def evaluated (s : Session) (text : List Char) : Result × Session :=
  ({ s with printed := "" } : Session).evaluate (Reading.ofText text).statements

theorem run_of_ok {text : List Char} (h : (Reading.ofText text).ok = true) (s : Session) :
    run unlisted s text = finish "" (evaluated s text) := by
  simp [run, unlisted, h, evaluated]

theorem run_of_not_ok {text : List Char} (h : (Reading.ofText text).ok = false) (s : Session) :
    run unlisted s text =
      ⟨String.join ((Reading.ofText text).diagnostics.map errorLine), .failed, s⟩ := by
  simp [run, unlisted, h]

/-- The session that a run leaves, whatever it comes to. -/
theorem session_finish (listing : String) (evaluated : Result × Session) :
    (finish listing evaluated).session = { evaluated.2 with printed := "" } := by
  rcases evaluated with ⟨(none | v) | d | f | _, m⟩
  case value.some =>
    rw [finish]
    dsimp only
    split <;> rfl
  all_goals rfl

end Program

open Program (unlisted evaluated showingLimit)

/-- The session after one run and then the next, however each of them ends. -/
def Session.afterRuns (s : Session) (texts : List (List Char)) : Session :=
  texts.foldl (fun s text => (Program.run unlisted s text).session) s

theorem sound_run {s : Session} (hs : s.Sound) (text : List Char) :
    (Program.run unlisted s text).session.Sound := by
  by_cases hok : (Reading.ofText text).ok = true
  · have hprinted : ({ s with printed := "" } : Session).Sound := hs
    rw [Program.run_of_ok hok, Program.session_finish]
    exact (sound_evaluate_text hprinted hok).2.1
  · rw [Program.run_of_not_ok (eq_false_of_ne_true hok)]
    exact hs

theorem sound_afterRuns {s : Session} (hs : s.Sound) (texts : List (List Char)) :
    (s.afterRuns texts).Sound := by
  induction texts generalizing s with
  | nil => exact hs
  | cons text texts ih => exact ih (sound_run hs text)

/-- How the run of a text without diagnostics ends, from the result and the session that the
evaluation leaves. A value is shown where there is room for three levels for each of its own. -/
inductive Program.Answers : Result × Session → Run → Prop where
  | empty {m : Session} {run : Run} : run.ending = .succeeded → run.output = m.printed →
      Answers (.value none, m) run
  | shown {v : Value} {m : Session} {run : Run} : 3 * v.height ≤ showingLimit →
      run.ending = .succeeded → run.output = m.printed ++ v.display ++ "\n" →
      Answers (.value (some v), m) run
  | unshown {v : Value} {m : Session} {run : Run} : showingLimit < 3 * v.height →
      run.ending = .overflowed → run.output = m.printed → Answers (.value (some v), m) run
  | failed {d : Diagnostic} {m : Session} {run : Run} : run.ending = .failed →
      run.output = m.printed ++ errorLine d → Answers (.error d, m) run

theorem answers_finish {r : Result} (hr : r.Sound) (m : Session) :
    Program.Answers (r, m) (Program.finish "" (r, m)) := by
  rcases r with (none | v) | d | f | _
  · exact .empty rfl String.empty_append
  · by_cases hroom : 3 * v.height ≤ showingLimit
    · have hshow : Program.canShow v = true := decide_eq_true hroom
      refine .shown hroom ?_ ?_ <;> simp [Program.finish, hshow]
    · have hshow : Program.canShow v = false := decide_eq_false hroom
      refine .unshown (Nat.lt_of_not_le hroom) ?_ ?_ <;> simp [Program.finish, hshow]
  · refine .failed rfl ?_
    simp [Program.finish]
  · exact hr.elim
  · exact hr.elim

/-- A run returns, with its result or with errors shown, in every session that runs lead to,
unless it comes to a value that is too deep to be shown: that run, and no other, has no
answer. -/
theorem run_answers_unless_too_deep {start : Session} (hstart : start.Fresh)
    (texts : List (List Char)) (text : List Char) :
    let s := start.afterRuns texts
    let run := Program.run unlisted s text
    (run.ending = .overflowed ↔ (Reading.ofText text).ok = true ∧
      ∃ v, (evaluated s text).1 = .value (some v) ∧ showingLimit < 3 * v.height) ∧
    ((Reading.ofText text).ok = true → Program.Answers (evaluated s text) run) ∧
    ((Reading.ofText text).ok = false → run.ending = .failed ∧
      run.output = String.join ((Reading.ofText text).diagnostics.map Program.errorLine)) := by
  intro s run
  have hs : ({ s with printed := "" } : Session).Sound :=
    sound_afterRuns (sound_of_fresh hstart) texts
  by_cases hok : (Reading.ofText text).ok = true
  · have hanswers : Program.Answers (evaluated s text) run := by
      have hrun : run = Program.finish "" (evaluated s text) := Program.run_of_ok hok s
      rw [hrun]
      exact answers_finish (sound_evaluate_text hs hok).1 _
    refine ⟨?_, fun _ => hanswers, fun hnot => absurd hok (by simp [hnot])⟩
    generalize evaluated s text = ended at hanswers
    cases hanswers with
    | empty hending => simp [hending]
    | shown hroom hending => simp [hending, Nat.not_lt.mpr hroom]
    | unshown hroom hending => simp [hending, hok, hroom]
    | failed hending => simp [hending]
  · have hrun : run = _ := Program.run_of_not_ok (eq_false_of_ne_true hok) s
    rw [hrun]
    exact ⟨by simp [hok], fun h => absurd h hok, fun _ => ⟨rfl, rfl⟩⟩

/-- A session in which a run went wrong, and a run that prints and has a value to be shown. -/
theorem run_of_print_answers :
    let texts := ["let x = [1];".toList, "{ let y = x; y + x }".toList, "x (".toList]
    let text := "print(len(x)); (x,)".toList
    let s := Session.withBuiltins.afterRuns texts
    Session.withBuiltins.Fresh ∧ (Reading.ofText text).ok = true ∧
      Program.Answers (evaluated s text) (Program.run unlisted s text) :=
  ⟨.inr rfl, by decide +kernel,
    (run_answers_unless_too_deep (.inr rfl) _ _).2.1 (by decide +kernel)⟩

/-- The session in which a variable holds the value, and `mark` is the next mark. -/
def Session.holding (v : Value) (mark : Nat) : Session :=
  { withBuiltins with
    bindings := ⟨.text "a", v, true, 0, false⟩ :: withBuiltins.bindings, nextMark := mark }

/-- An integer with rows around it. -/
def Value.wrapped : Nat → Value
  | 0 => .integer 1
  | n + 1 => .array [wrapped n] (n + 2)

theorem Value.height_wrapped (n : Nat) : (wrapped n).height = n := by
  induction n with
  | zero => rfl
  | succ n ih => simp [wrapped, height, heightOfAll, ih]

theorem run_binding :
    (Program.run unlisted .withBuiltins "let mut a = 1".toList).session = .holding (.integer 1) 2 := by
  with_unfolding_all rfl

theorem run_wrapping (v : Value) (mark : Nat) :
    (Program.run unlisted (.holding v mark) "a = [a]".toList).session =
      .holding (.array [v] mark) (mark + 1) := by
  with_unfolding_all rfl

theorem run_showing (v : Value) (mark : Nat) :
    (Program.run unlisted (.holding v mark) "a".toList).ending =
      if Program.canShow v then .succeeded else .overflowed := by
  have hok : (Reading.ofText "a".toList).ok = true := by decide +kernel
  have hvalue : evaluated (.holding v mark) "a".toList = (.value (some v), .holding v mark) := by
    with_unfolding_all rfl
  rw [Program.run_of_ok hok, hvalue, Program.finish]
  split <;> rfl

/-- The programs that bind a variable and put one row after the other around its value. -/
def wrappings (n : Nat) : List (List Char) :=
  "let mut a = 1".toList :: List.replicate n "a = [a]".toList

theorem afterRuns_wrappings (n : Nat) :
    Session.withBuiltins.afterRuns (wrappings n) = .holding (.wrapped n) (n + 2) := by
  induction n with
  | zero => exact run_binding
  | succ n ih =>
    have hlast : wrappings (n + 1) = wrappings n ++ ["a = [a]".toList] := by
      rw [wrappings, wrappings, List.replicate_succ', List.cons_append]
    rw [hlast, Session.afterRuns, List.foldl_append]
    change (Program.run unlisted (Session.withBuiltins.afterRuns (wrappings n)) _).session = _
    rw [ih, run_wrapping]
    rfl

/-- The variable is shown as long as there is room for three levels for each row. -/
theorem showing_wrapped_iff (n : Nat) :
    (Program.run unlisted (Session.withBuiltins.afterRuns (wrappings n)) "a".toList).ending =
      .overflowed ↔ showingLimit < 3 * n := by
  rw [afterRuns_wrappings, run_showing, Program.canShow, Program.hasRoomFor, Value.height_wrapped]
  by_cases hroom : 3 * n ≤ showingLimit
  · simp [hroom]
  · simp [hroom, Nat.lt_of_not_le hroom]

/-- Each of the programs nests in three levels at most, and the last of the runs has no answer. -/
theorem wrapped_variable_has_no_answer :
    (Program.run unlisted (Session.withBuiltins.afterRuns (wrappings 327)) "a".toList).ending =
      .overflowed := (showing_wrapped_iff 327).mpr (by decide)

end Scriptlet
