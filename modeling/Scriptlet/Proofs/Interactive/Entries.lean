import Scriptlet.Interactive
import Scriptlet.Proofs.Showing

/-!
# The entries of a loop

The lines that are typed at the prompts of a loop, up to an exit command or the end of the input,
are cut into entries: in single-line mode into the shortest stretches that close as many braces as
they open, in multi-line mode into those that end in `:eval`. A loop shows what its entries come
to when each of them is run once, in order and all in one session. Only a run without an answer
breaks the loop off; the lines behind it are not asked for any more.
-/

namespace Scriptlet

/-- The end of a run that has no answer. -/
def Program.Ending.unanswered? : Program.Ending → Option Program.Ending
  | .succeeded | .failed => none
  | e => some e

namespace Interactive

def exits (line : String) : Bool := exitCommands.contains (trimmed line)

/-- Is the line no command of multi-line mode? -/
def isText (line : String) : Bool :=
  !(exits line || trimmed line == ":show" || trimmed line == ":eval")

inductive Act where
  | show (lines : List String)
  | run (entry : String)

/-- What acts show one after the other, in one session, and the end of the run that broke them
off, if there is one: what comes behind it is not done. -/
def perform (listing : Listing) (s : Session) : List Act → String × Option Program.Ending
  | [] => ("", none)
  | .show lines :: acts =>
    let rest := perform listing s acts
    (joined lines ++ "\n" ++ rest.1, rest.2)
  | .run entry :: acts =>
    let r := Program.run listing s entry.toList
    match r.ending.unanswered? with
    | none =>
      let rest := perform listing r.session acts
      (r.output ++ rest.1, rest.2)
    | some e => (r.output, some e)

/-- The words at the end of a loop that is not broken off. -/
def parting (left : Bool) : Option Program.Ending → String
  | none => if left then farewell else "\n" ++ farewell
  | some _ => ""

/-- In all sessions the rest of a loop comes to the acts and the parting words. -/
def Plays (settings : Settings) (pending : List String) (events : List Event) (acts : List Act)
    (left : Bool) : Prop :=
  ∀ s : Session,
    let t := continueFrom settings ⟨s, pending⟩ events
    let done := perform settings.listing s acts
    t.output = done.1 ++ parting left done.2 ∧ t.broken = done.2

section Plays

variable {settings : Settings} {pending pending' : List String} {e : Event} {es : List Event}
  {acts : List Act} {left : Bool}

theorem plays_nil : Plays settings pending [] [] false := by
  intro s
  exact ⟨rfl, rfl⟩

theorem plays_exit (h : ∀ s, step settings ⟨s, pending⟩ e = ⟨farewell, .finished⟩) :
    Plays settings pending (e :: es) [] true := by
  intro s
  simp only [continueFrom, h s]
  exact ⟨rfl, rfl⟩

theorem Plays.collect (h : ∀ s, step settings ⟨s, pending⟩ e = ⟨"", .continue ⟨s, pending'⟩⟩)
    (hrest : Plays settings pending' es acts left) :
    Plays settings pending (e :: es) acts left := by
  intro s
  simp only [continueFrom, h s, String.empty_append]
  exact hrest s

theorem Plays.show (h : ∀ s, step settings ⟨s, pending⟩ e =
      ⟨joined pending ++ "\n", .continue ⟨s, pending⟩⟩)
    (hrest : Plays settings pending es acts left) :
    Plays settings pending (e :: es) (.show pending :: acts) left := by
  intro s
  obtain ⟨houtput, hbroken⟩ := hrest s
  simp only [continueFrom, h s, perform, String.append_assoc]
  rw [houtput]
  exact ⟨rfl, hbroken⟩

theorem runEntry_eq (settings : Settings) (s : State) (entry : String) :
    runEntry settings s entry =
      let r := Program.run settings.listing s.session entry.toList
      match r.ending.unanswered? with
      | none => ⟨r.output, .continue ⟨r.session, []⟩⟩
      | some e => ⟨r.output, .broken e⟩ := by
  rw [runEntry]
  dsimp only
  cases (Program.run settings.listing s.session entry.toList).ending <;> rfl

theorem Plays.run {entry : String}
    (h : ∀ s, step settings ⟨s, pending⟩ e = runEntry settings ⟨s, pending⟩ entry)
    (hrest : Plays settings [] es acts left) :
    Plays settings pending (e :: es) (.run entry :: acts) left := by
  intro s
  obtain ⟨houtput, hbroken⟩ := hrest (Program.run settings.listing s entry.toList).session
  simp only [continueFrom, h s, perform, runEntry_eq]
  cases (Program.run settings.listing s entry.toList).ending.unanswered? with
  | none =>
    refine ⟨?_, hbroken⟩
    rw [String.append_assoc, ← houtput]
  | some e => exact ⟨String.append_empty.symm, rfl⟩

end Plays

/-- The shortest stretch of lines that closes as many braces as it opens. -/
structure Closed (ls : List String) : Prop where
  ne_nil : ls ≠ []
  closed : braceBalance ls ≤ 0
  shortest : ∀ front, front <+: ls → front ≠ [] → front ≠ ls → 0 < braceBalance front

/-- Nothing that the lines begin with closes as many braces as it opens. -/
def Open (ls : List String) : Prop := ∀ front, front <+: ls → front ≠ [] → 0 < braceBalance front

/-- The lines are cut into entries, up to an exit command at the start of an entry or into an entry
that is left open. -/
structure Grouped (lines : List String) (groups : List (List String)) (rest : List String) :
    Prop where
  lines_eq : lines = groups.flatten ++ rest
  closed : ∀ g ∈ groups, Closed g
  entered : ∀ g ∈ groups, g.head?.any exits = false
  rest : Open rest ∨ rest.head?.any exits = true

/-- The runs of the entries that are not blank. -/
def runs (groups : List (List String)) : List Act :=
  ((groups.map fun g => trimmed (joined g)).filter fun entry => !entry.isEmpty).map .run

section SingleLine

variable (listing : Listing) {pending lines : List String} {line : String}

theorem open_nil : Open [] := by
  intro front hfront hne
  exact absurd (List.prefix_nil.mp hfront) hne

theorem Open.concat (h : Open pending) (hline : 0 < braceBalance (pending ++ [line])) :
    Open (pending ++ [line]) := by
  intro front hfront hne
  rcases List.prefix_concat_iff.mp hfront with rfl | hbefore
  · exact hline
  · exact h front hbefore hne

theorem Open.closed (h : Open pending) (hline : braceBalance (pending ++ [line]) ≤ 0) :
    Closed (pending ++ [line]) where
  ne_nil := by simp
  closed := hline
  shortest := by
    intro front hfront hne hproper
    rcases List.prefix_concat_iff.mp hfront with heq | hbefore
    · exact absurd heq hproper
    · exact h front hbefore hne

theorem Grouped.cons {g : List String} {groups : List (List String)} {rest : List String}
    (hclosed : Closed g) (hentered : g.head?.any exits = false)
    (h : Grouped lines groups rest) : Grouped (g ++ lines) (g :: groups) rest where
  lines_eq := by rw [h.lines_eq, List.flatten_cons, List.append_assoc]
  closed := List.forall_mem_cons.mpr ⟨hclosed, h.closed⟩
  entered := List.forall_mem_cons.mpr ⟨hentered, h.entered⟩
  rest := h.rest

theorem head?_any_cons (l : String) (ls : List String) (p : String → Bool) :
    (l :: ls).head?.any p = p l := rfl

theorem step_singleLine_exit (s : Session) (h : exits line = true) :
    step ⟨listing, false⟩ ⟨s, []⟩ (.line line) = ⟨farewell, .finished⟩ := by
  simp only [step, singleLine, Bool.false_eq_true, if_false, List.isEmpty_nil, Bool.true_and]
  exact if_pos h

/-- An exit command is only looked for at the start of an entry. -/
theorem step_singleLine (s : Session) (h : (pending ++ [line]).head?.any exits = false) :
    step ⟨listing, false⟩ ⟨s, pending⟩ (.line line) =
      let entry := trimmed (joined (pending ++ [line]))
      if braceBalance (pending ++ [line]) ≤ 0 then
        if entry.isEmpty then ⟨"", .continue ⟨s, []⟩⟩
        else runEntry ⟨listing, false⟩ ⟨s, pending⟩ entry
      else ⟨"", .continue ⟨s, pending ++ [line]⟩⟩ := by
  have hstay : (pending.isEmpty && exits line) = false := by
    cases pending with
    | nil => simpa using h
    | cons => rfl
  simp only [step, singleLine, Bool.false_eq_true, if_false]
  exact if_neg (Bool.eq_false_iff.mp hstay)

theorem plays_singleLine (lines : List String) (hopen : Open pending)
    (hstay : pending.head?.any exits = false) :
    ∃ groups rest, Grouped (pending ++ lines) groups rest ∧
      Plays ⟨listing, false⟩ pending (lines.map .line) (runs groups)
        (rest.head?.any exits) := by
  induction lines generalizing pending with
  | nil =>
    refine ⟨[], pending, ⟨by simp, by simp, by simp, .inl hopen⟩, ?_⟩
    rw [hstay]
    exact plays_nil
  | cons line lines ih =>
    have hlines : pending ++ line :: lines = pending ++ [line] ++ lines := by simp
    by_cases hexit : (pending ++ [line]).head?.any exits = true
    · -- Only the first line of an entry leaves the loop.
      have hnil : pending = [] := by
        cases pending with
        | nil => rfl
        | cons l pending => simp_all
      subst hnil
      rw [List.nil_append, head?_any_cons] at hexit
      have hleft : (line :: lines).head?.any exits = true := by rw [head?_any_cons, hexit]
      refine ⟨[], line :: lines, ⟨rfl, by simp, by simp, .inr hleft⟩, ?_⟩
      rw [hleft]
      exact plays_exit fun s => step_singleLine_exit listing s hexit
    · have hentered := eq_false_of_ne_true hexit
      have hstep (s : Session) := step_singleLine listing s hentered
      by_cases hclosed : braceBalance (pending ++ [line]) ≤ 0
      · obtain ⟨groups, rest, hgrouped, hplays⟩ := ih open_nil rfl
        refine ⟨(pending ++ [line]) :: groups, rest, ?_, ?_⟩
        · rw [hlines]
          exact hgrouped.cons (hopen.closed hclosed) hentered
        · simp only [if_pos hclosed] at hstep
          by_cases hblank : (trimmed (joined (pending ++ [line]))).isEmpty = true
          · simp only [if_pos hblank] at hstep
            have hruns : runs ((pending ++ [line]) :: groups) = runs groups := by
              simp [runs, hblank]
            rw [hruns]
            exact hplays.collect hstep
          · simp only [if_neg hblank] at hstep
            have hruns : runs ((pending ++ [line]) :: groups) =
                .run (trimmed (joined (pending ++ [line]))) :: runs groups := by
              simp [runs, hblank]
            rw [hruns]
            exact hplays.run hstep
      · obtain ⟨groups, rest, hgrouped, hplays⟩ :=
          ih (hopen.concat (Int.lt_of_not_ge hclosed)) hentered
        refine ⟨groups, rest, hlines ▸ hgrouped, ?_⟩
        simp only [if_neg hclosed] at hstep
        exact hplays.collect hstep

end SingleLine

/-- The lines are cut behind each `:eval` up to the first exit command. -/
structure Batched (lines : List String) (batches : List (List String)) (rest : List String) :
    Prop where
  lines_eq : lines = batches.flatten ++ rest
  batch : ∀ b ∈ batches, ∃ front last, b = front ++ [last] ∧ trimmed last = ":eval" ∧
    ∀ l ∈ front, exits l = false ∧ trimmed l ≠ ":eval"
  rest : ∀ l ∈ rest.takeWhile (!exits ·), trimmed l ≠ ":eval"

/-- What the lines show of those that are collected, where they ask for it. -/
def showings (collected : List String) : List String → List Act
  | [] => []
  | l :: ls =>
    let shown := if trimmed l = ":show" then [Act.show collected] else []
    shown ++ showings (collected ++ [l].filter isText) ls

/-- In each batch the text is shown where it is asked for, and run in the end. Of what is left over
no more is done than to show it. -/
def acts (collected : List String) : List (List String) → List String → List Act
  | [], rest => showings collected (rest.takeWhile (!exits ·))
  | b :: bs, rest =>
    showings collected b ++ .run (joined (collected ++ b.filter isText)) :: acts [] bs rest

section MultiLine

variable (listing : Listing) {lines rest : List String} {line : String}
  {batches : List (List String)}

/-- A line that is no exit command and no `:eval` belongs to what is behind it. -/
theorem Batched.gather (h : Batched lines batches rest) (hexit : exits line = false)
    (heval : trimmed line ≠ ":eval") :
    ∃ batches' rest', Batched (line :: lines) batches' rest' ∧
      rest'.any exits = rest.any exits ∧
      ∀ collected, acts collected batches' rest' =
        (if trimmed line = ":show" then [Act.show collected] else []) ++
          acts (collected ++ [line].filter isText) batches rest := by
  cases batches with
  | nil =>
    have htake : (line :: rest).takeWhile (!exits ·) = line :: rest.takeWhile (!exits ·) := by
      simp [hexit]
    refine ⟨[], line :: rest, ⟨?_, by simp, ?_⟩, by simp [hexit], fun collected => ?_⟩
    · rw [h.lines_eq]
      rfl
    · rw [htake]
      exact List.forall_mem_cons.mpr ⟨heval, h.rest⟩
    · rw [acts, acts, htake, showings]
  | cons b bs =>
    obtain ⟨hbatch, hbatches⟩ := List.forall_mem_cons.mp h.batch
    refine ⟨(line :: b) :: bs, rest, ⟨?_, ?_, h.rest⟩, rfl, fun collected => ?_⟩
    · rw [h.lines_eq]
      rfl
    · obtain ⟨front, last, rfl, hlast, hfront⟩ := hbatch
      refine List.forall_mem_cons.mpr ⟨⟨line :: front, last, rfl, hlast, ?_⟩, hbatches⟩
      exact List.forall_mem_cons.mpr ⟨⟨hexit, heval⟩, hfront⟩
    · have hfilter : (line :: b).filter isText = [line].filter isText ++ b.filter isText := by
        rw [← List.filter_append]
        rfl
      rw [acts, acts, hfilter, showings]
      simp only [List.append_assoc]

theorem step_multiLine (pending : List String) (line : String) (s : Session) :
    step ⟨listing, true⟩ ⟨s, pending⟩ (.line line) =
      if exits line then ⟨farewell, .finished⟩
      else if trimmed line = ":show" then ⟨joined pending ++ "\n", .continue ⟨s, pending⟩⟩
      else if trimmed line = ":eval" then
        runEntry ⟨listing, true⟩ ⟨s, pending⟩ (joined pending)
      else ⟨"", .continue ⟨s, pending ++ [line]⟩⟩ := by
  simp only [step, multiLine, exits, if_true]
  rfl

theorem plays_multiLine (pending lines : List String) :
    ∃ batches rest, Batched lines batches rest ∧
      Plays ⟨listing, true⟩ pending (lines.map .line) (acts pending batches rest)
        (rest.any exits) := by
  induction lines generalizing pending with
  | nil => exact ⟨[], [], ⟨rfl, by simp, by simp⟩, plays_nil⟩
  | cons line lines ih =>
    have hstep (s : Session) := step_multiLine listing pending line s
    by_cases hexit : exits line = true
    · simp only [if_pos hexit] at hstep
      refine ⟨[], line :: lines, ⟨rfl, by simp, by simp [hexit]⟩, ?_⟩
      have hacts : acts pending [] (line :: lines) = [] := by simp [acts, showings, hexit]
      have hleft : (line :: lines).any exits = true := by simp [hexit]
      rw [hacts, hleft]
      exact plays_exit hstep
    simp only [if_neg hexit] at hstep
    have hexit := eq_false_of_ne_true hexit
    by_cases hshow : trimmed line = ":show"
    · simp only [if_pos hshow] at hstep
      have heval : trimmed line ≠ ":eval" := by rw [hshow]; decide
      obtain ⟨batches, rest, hbatched, hplays⟩ := ih pending
      obtain ⟨batches', rest', hbatched', hleft, hacts⟩ := hbatched.gather hexit heval
      refine ⟨batches', rest', hbatched', ?_⟩
      have htext : [line].filter isText = [] := by simp [isText, hshow]
      rw [hacts, hleft, if_pos hshow, htext, List.append_nil]
      exact hplays.show hstep
    simp only [if_neg hshow] at hstep
    by_cases heval : trimmed line = ":eval"
    · simp only [if_pos heval] at hstep
      obtain ⟨batches, rest, hbatched, hplays⟩ := ih []
      refine ⟨[line] :: batches, rest, ⟨?_, ?_, hbatched.rest⟩, ?_⟩
      · rw [hbatched.lines_eq]
        rfl
      · exact List.forall_mem_cons.mpr ⟨⟨[], line, rfl, heval, by simp⟩, hbatched.batch⟩
      · have hacts : acts pending ([line] :: batches) rest =
            .run (joined pending) :: acts [] batches rest := by
          simp [acts, showings, isText, heval]
        rw [hacts]
        exact hplays.run hstep
    · simp only [if_neg heval] at hstep
      obtain ⟨batches, rest, hbatched, hplays⟩ := ih (pending ++ [line])
      obtain ⟨batches', rest', hbatched', hleft, hacts⟩ := hbatched.gather hexit heval
      refine ⟨batches', rest', hbatched', ?_⟩
      have htext : [line].filter isText = [line] := by simp [isText, hexit, hshow, heval]
      rw [hacts, hleft, if_neg hshow, htext, List.nil_append]
      exact hplays.collect hstep

end MultiLine

/-- The lines of a loop are cut into entries, and what the loop shows is what these come to, each
run once, in order and in one session. In single-line mode the entries that are blank are left
out, and an entry that is left open is not run; in multi-line mode each line that is no command
is part of the entry of the first `:eval` behind it, and what is left over behind the last one is
not run. -/
theorem lines_are_run_once (listing : Listing) (lines : List String) :
    (∃ groups rest, Grouped lines groups rest ∧
      let t := transcript ⟨listing, false⟩ (lines.map .line)
      let done := perform listing .withBuiltins (runs groups)
      t.output = greeting ⟨listing, false⟩ ++ (done.1 ++ parting (rest.head?.any exits) done.2) ∧
        t.broken = done.2) ∧
    ∃ batches rest, Batched lines batches rest ∧
      let t := transcript ⟨listing, true⟩ (lines.map .line)
      let done := perform listing .withBuiltins (acts [] batches rest)
      t.output = greeting ⟨listing, true⟩ ++ (done.1 ++ parting (rest.any exits) done.2) ∧
        t.broken = done.2 := by
  constructor
  · obtain ⟨groups, rest, hgrouped, hplays⟩ :=
      plays_singleLine listing lines open_nil rfl
    obtain ⟨houtput, hbroken⟩ := hplays .withBuiltins
    exact ⟨groups, rest, hgrouped, congrArg (greeting ⟨listing, false⟩ ++ ·) houtput, hbroken⟩
  · obtain ⟨batches, rest, hbatched, hplays⟩ :=
      plays_multiLine listing [] lines
    obtain ⟨houtput, hbroken⟩ := hplays .withBuiltins
    exact ⟨batches, rest, hbatched, congrArg (greeting ⟨listing, true⟩ ++ ·) houtput, hbroken⟩

open Program (unlisted)

section Broken

variable {listing : Listing} {s : Session} {line : String}

/-- A line that is an entry of its own, as it stands. -/
structure StandsAlone (line : String) : Prop where
  stays : exits line = false
  closed : braceBalance [line] ≤ 0
  trimmed_eq : trimmed line = line
  ne_empty : line.isEmpty = false

theorem StandsAlone.step (h : StandsAlone line) (s : Session) :
    step ⟨listing, false⟩ ⟨s, []⟩ (.line line) = runEntry ⟨listing, false⟩ ⟨s, []⟩ line := by
  have hstay : ([] ++ [line]).head?.any exits = false := by
    rw [List.nil_append, head?_any_cons, h.stays]
  have hjoined : joined [line] = line := rfl
  rw [step_singleLine listing s hstay]
  simp only [List.nil_append, hjoined, h.trimmed_eq, if_pos h.closed, h.ne_empty]
  rfl

theorem StandsAlone.answered (h : StandsAlone line) (es : List Event)
    (hanswered : (Program.run listing s line.toList).ending.unanswered? = none) :
    let r := Program.run listing s line.toList
    let t := continueFrom ⟨listing, false⟩ ⟨s, []⟩ (.line line :: es)
    let rest := continueFrom ⟨listing, false⟩ ⟨r.session, []⟩ es
    t.broken = rest.broken ∧ t.prompts.length = rest.prompts.length + 1 := by
  simp only [continueFrom, h.step, runEntry_eq, hanswered]
  exact ⟨trivial, rfl⟩

theorem StandsAlone.unanswered {e : Program.Ending} (h : StandsAlone line) (es : List Event)
    (hanswered : (Program.run listing s line.toList).ending.unanswered? = some e) :
    let t := continueFrom ⟨listing, false⟩ ⟨s, []⟩ (.line line :: es)
    t.broken = some e ∧ t.prompts.length = 1 := by
  simp only [continueFrom, h.step, runEntry_eq, hanswered]
  exact ⟨trivial, rfl⟩

theorem run_wrapping_answered (v : Value) (mark : Nat) :
    (Program.run unlisted (.holding v mark) "a = [a]".toList).ending = .succeeded := by
  with_unfolding_all rfl

/-- With a value that is too deep to be shown the loop is broken off. -/
theorem continueFrom_wrapping (n k : Nat) (hdeep : Program.showingLimit < 3 * (n + k))
    (es : List Event) :
    let t := continueFrom ⟨unlisted, false⟩ ⟨.holding (.wrapped n) (n + 2), []⟩
      (List.replicate k (.line "a = [a]") ++ .line "a" :: es)
    t.broken = some .overflowed ∧ t.prompts.length = k + 1 := by
  induction k generalizing n with
  | zero =>
    have hending : (Program.run unlisted (.holding (.wrapped n) (n + 2)) "a".toList).ending =
        .overflowed := by
      rw [run_showing, Program.canShow, Program.hasRoomFor, Value.height_wrapped]
      exact if_neg (by simpa using hdeep)
    have halone : StandsAlone "a" := by constructor <;> decide +kernel
    exact halone.unanswered es (by rw [hending]; rfl)
  | succ k ih =>
    have halone : StandsAlone "a = [a]" := by constructor <;> decide +kernel
    obtain ⟨hbroken, hprompts⟩ := halone.answered
      (List.replicate k (.line "a = [a]") ++ .line "a" :: es)
      (by rw [run_wrapping_answered (.wrapped n) (n + 2)]; rfl)
    rw [run_wrapping] at hbroken hprompts
    obtain ⟨hlast, hlength⟩ := ih (n + 1) (by omega)
    exact ⟨hbroken.trans hlast, hprompts.trans (congrArg (· + 1) hlength)⟩

/-- The lines that bind a variable, put one row after the other around its value and show it, and
one line more. -/
def wrappingLines (n : Nat) : List String :=
  "let mut a = 1" :: (List.replicate n "a = [a]" ++ ["a", "1"])

theorem length_wrappingLines (n : Nat) : (wrappingLines n).length = n + 3 := by
  simp [wrappingLines]

theorem wrapping_loop_is_broken_off {n : Nat} (hdeep : Program.showingLimit < 3 * n) :
    let t := transcript ⟨unlisted, false⟩ ((wrappingLines n).map .line)
    t.broken = some .overflowed ∧ t.prompts.length = n + 2 := by
  have halone : StandsAlone "let mut a = 1" := by constructor <;> decide +kernel
  have hanswered : (Program.run unlisted .withBuiltins "let mut a = 1".toList).ending =
      .succeeded := by
    with_unfolding_all rfl
  obtain ⟨hbroken, hprompts⟩ := halone.answered
    (List.replicate n (.line "a = [a]") ++ [.line "a", .line "1"])
    (by rw [hanswered]; rfl)
  rw [run_binding] at hbroken hprompts
  obtain ⟨hlast, hlength⟩ := continueFrom_wrapping 0 n (by omega) [.line "1"]
  have hlines : (wrappingLines n).map Event.line = .line "let mut a = 1" ::
      (List.replicate n (.line "a = [a]") ++ [.line "a", .line "1"]) := by
    simp [wrappingLines]
  simp only [transcript, hlines]
  exact ⟨hbroken.trans hlast, hprompts.trans (congrArg (· + 1) hlength)⟩

end Broken

/-- Each of the lines is an entry of its own, but the last one is not asked for. -/
theorem broken_loop_loses_a_line :
    let lines := wrappingLines 327
    let t := transcript ⟨unlisted, false⟩ (lines.map .line)
    lines.length = 330 ∧ t.prompts.length = 329 ∧ t.broken = some .overflowed := by
  intro lines t
  obtain ⟨hbroken, hprompts⟩ := wrapping_loop_is_broken_off (n := 327) (by decide)
  exact ⟨length_wrappingLines 327, hprompts, hbroken⟩

end Interactive

end Scriptlet
