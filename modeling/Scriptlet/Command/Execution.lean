import Scriptlet.Command.Arguments
import Scriptlet.Interactive

/-!
# Carrying out a command line

The arguments give a plan: to show the help, to complain, to start the
interactive loop, or to run a source text, which is given on the command line or
in a file. The plan is carried out on the files and the typed lines.

A source file holds UTF-8. All three conventions for ending a line are read as
a single line feed; a byte order mark is an ordinary character.
-/

namespace Scriptlet

/-- Every line ending written as a line feed. -/
def Text.unifyLineEnds : List Char → List Char
  | [] => []
  | '\r' :: '\n' :: rest => '\n' :: unifyLineEnds rest
  | c :: rest => (if c = '\r' then '\n' else c) :: unifyLineEnds rest

/-- The text of a file, if its bytes are well-formed UTF-8. -/
def Text.ofBytes? (bytes : ByteArray) : Option String :=
  (String.fromUTF8? bytes).map fun s => String.ofList (unifyLineEnds s.toList)

end Scriptlet

namespace Scriptlet.Command

def usage : String := "usage: couch [-h] [-s] [-t] [-a] [-m] [--repl] [source]\n"

def helpText : String := usage ++ "
positional arguments:
  source        Filename or raw source (with -s)

options:
  -h, --help    show this help message and exit
  -s, --string  Interpret source as literal string
  -t, --tokens  Print the generated tokens
  -a, --ast     Print the generated AST
  -m, --multi   Multi-line REPL mode (if --repl)
  --repl        Launch interactive REPL instead of running a program
"

inductive Plan where
  | showHelp
  | complain (complaint : String)
  | interact (settings : Interactive.Settings)
  | runText (listing : Listing) (text : String)
  | runFile (listing : Listing) (name : String)

/-- Without a source, or when asked to, the loop is started. -/
def Plan.ofRequest (r : Request) : Plan :=
  let has (f : Flag) : Bool := r.flags.contains f
  let listing : Listing := ⟨has .tokens, has .tree⟩
  match r.source with
  | none => .interact ⟨listing, has .multi⟩
  | some source =>
    if has .repl then .interact ⟨listing, has .multi⟩
    else if has .string then .runText listing source
    else .runFile listing source

def plan (arguments : List String) : Plan :=
  match parse arguments with
  | .help => .showHelp
  | .wrong complaint => .complain complaint
  | .request r => Plan.ofRequest r

/-- Why a command ends without an exit status of its own. -/
inductive Failure where
  | unsupportedFile
  | unfitName
  | missingFile (name : String)
  | undecodable
  | aborted (f : Fault)
  | overflowed

namespace Failure

def message : Failure → String
  | unsupportedFile => "Only .couch files are supported."
  | unfitName => "embedded null byte"
  | missingFile name => s!"[Errno 2] No such file or directory: {Text.quoted name}"
  | undecodable => "the file is not valid UTF-8"
  | aborted f => f.message
  | overflowed => nestedTooDeeply

end Failure

/-- What a command shows, and its exit status. -/
structure Outcome where
  output : String
  errors : String
  prompts : List String
  status : Except Failure Nat

def statusOf : Program.Ending → Except Failure Nat
  | .succeeded => .ok 0
  | .failed => .ok 1
  | .aborted f => .error (.aborted f)
  | .overflowed => .error .overflowed

def runText (listing : Listing) (text : String) : Outcome :=
  let r := Program.run listing .withBuiltins text.toList
  ⟨r.output, "", [], statusOf r.ending⟩

/-- Runs the contents of a file, which `none` stands for when there is no such file. The name
of a file cannot hold the character zero. -/
def runFile (listing : Listing) (name : String) (contents : Option ByteArray) : Outcome :=
  if !name.endsWith ".couch" then ⟨"", "", [], .error .unsupportedFile⟩
  else if name.toList.contains '\x00' then ⟨"", "", [], .error .unfitName⟩
  else
    match contents with
    | none => ⟨"", "", [], .error (.missingFile name)⟩
    | some bytes =>
      match Text.ofBytes? bytes with
      | none => ⟨"", "", [], .error .undecodable⟩
      | some text => runText listing text

def complain (complaint : String) : Outcome :=
  ⟨"", usage ++ s!"couch: error: {complaint}\n", [], .ok 2⟩

def interact (settings : Interactive.Settings) (events : List Interactive.Event) : Outcome :=
  let t := Interactive.transcript settings events
  ⟨t.output, "", t.prompts, (t.broken.map statusOf).getD (.ok 0)⟩

/-- Carries out a command line on the given files and typed lines. -/
def execute (arguments : List String) (contents : String → Option ByteArray)
    (events : List Interactive.Event) : Outcome :=
  match plan arguments with
  | .showHelp => ⟨helpText, "", [], .ok 0⟩
  | .complain complaint => complain complaint
  | .interact settings => interact settings events
  | .runText listing text => runText listing text
  | .runFile listing name => runFile listing name (contents name)

end Scriptlet.Command
