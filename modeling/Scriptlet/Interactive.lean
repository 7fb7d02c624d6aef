import Scriptlet.Program
import Scriptlet.Text.Character

/-!
# The interactive loop

A person types lines. In single-line mode an entry is run as soon as it closes as
many braces as it opens. In multi-line mode lines are collected until they are
asked to be run. All entries of one loop share a session.
-/

namespace Scriptlet

namespace Interactive

/-- What can happen at a prompt. -/
inductive Event where
  | line (s : String)
  | interrupt
  | endOfInput

structure Settings where
  listing : Listing
  multiline : Bool

structure State where
  session : Session
  pending : List String

/-- What follows an event. -/
inductive Next where
  | continue (s : State)
  | finished
  | broken (e : Program.Ending)

structure Step where
  output : String
  next : Next

def start : State := ⟨.withBuiltins, []⟩

def greeting (settings : Settings) : String :=
  let mode := if settings.multiline then "multi-line" else "single-line"
  s!"couch REPL [{mode}]. Type ':exit' to leave.\n"

def farewell : String := "Exiting couch REPL.\n"

def exitCommands : List String := [":exit", "exit", "quit"]

/-- How many more braces the lines open than they close, wherever the braces stand. -/
def braceBalance (lines : List String) : Int :=
  let count (c : Char) : Int := (lines.flatMap String.toList).count c
  count '\x7b' - count '\x7d'

/-- Lines as one text. -/
def joined (lines : List String) : String := "\n".intercalate lines

def trimmed (s : String) : String := String.ofList (Text.trim s.toList)

def prompt (settings : Settings) (s : State) : String :=
  if settings.multiline || s.pending.isEmpty then "> " else "... "

/-- Runs an entry and starts a new one. -/
def runEntry (settings : Settings) (s : State) (entry : String) : Step :=
  let r := Program.run settings.listing s.session entry.toList
  match r.ending with
  | .succeeded => ⟨r.output, .continue ⟨r.session, []⟩⟩
  | .failed => ⟨r.output, .continue ⟨r.session, []⟩⟩
  | e => ⟨r.output, .broken e⟩

/-- A line in multi-line mode is a command or part of the entry. -/
def multiLine (settings : Settings) (s : State) (line : String) : Step :=
  let command := trimmed line
  if exitCommands.contains command then ⟨farewell, .finished⟩
  else if command = ":show" then ⟨joined s.pending ++ "\n", .continue s⟩
  else if command = ":eval" then runEntry settings s (joined s.pending)
  else ⟨"", .continue { s with pending := s.pending ++ [line] }⟩

/-- A line in single-line mode leaves the loop at the start of an entry only. -/
def singleLine (settings : Settings) (s : State) (line : String) : Step :=
  if s.pending.isEmpty && exitCommands.contains (trimmed line) then ⟨farewell, .finished⟩
  else
    let lines := s.pending ++ [line]
    if braceBalance lines ≤ 0 then
      let entry := trimmed (joined lines)
      if entry.isEmpty then ⟨"", .continue { s with pending := [] }⟩
      else runEntry settings s entry
    else ⟨"", .continue { s with pending := lines }⟩

def step (settings : Settings) (s : State) : Event → Step
  | .line line =>
    if settings.multiline then multiLine settings s line else singleLine settings s line
  | .interrupt => ⟨"\n" ++ farewell, .finished⟩
  | .endOfInput => ⟨"\n" ++ farewell, .finished⟩

/-- All that is shown in a loop: the output, the prompts, and what broke it off. -/
structure Transcript where
  output : String
  prompts : List String
  broken : Option Program.Ending

/-- The part of a transcript from a state on. After the last event the input ends. -/
def continueFrom (settings : Settings) (s : State) : List Event → Transcript
  | [] => ⟨(step settings s .endOfInput).output, [prompt settings s], none⟩
  | e :: es =>
    let r := step settings s e
    match r.next with
    | .finished => ⟨r.output, [prompt settings s], none⟩
    | .broken ending => ⟨r.output, [prompt settings s], some ending⟩
    | .continue s' =>
      let t := continueFrom settings s' es
      ⟨r.output ++ t.output, prompt settings s :: t.prompts, t.broken⟩

def transcript (settings : Settings) (events : List Event) : Transcript :=
  let t := continueFrom settings start events
  { t with output := greeting settings ++ t.output }

end Interactive

end Scriptlet
