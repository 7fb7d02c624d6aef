import Scriptlet.Grammar.Program
import Scriptlet.Session.Statements

/-!
# Running a source text

A text is read, and if there are no diagnostics evaluated in a session. The
output shows, in this order and as far as asked for, the tokens, the tree, what
the program prints, and the value or the errors. Showing the value is not part
of the evaluation: a value too deep to be shown ends the run without an answer.
-/

namespace Scriptlet

/-- What is shown besides the result. -/
structure Listing where
  tokens : Bool
  tree : Bool

/-- The text filled up with blanks on the right. -/
def padRight (width : Nat) (s : String) : String := s ++ "".pushn ' ' (width - s.length)

namespace Program

def tokenLine (t : Token) : String :=
  let kind := padRight 12 t.kind.name
  let lexeme := padRight 16 (Text.quoted t.lexeme)
  s!"  {kind} {lexeme} {t.position.line}:{t.position.column}\n"

def tokenListing (text : List Char) : String :=
  "[tokens] >>>\n" ++ String.join ((lex text).1.map tokenLine)

def treeHeading : String := "[ast] >>>\n"

def treeListing (ns : List Node) : String :=
  treeHeading ++ (Json.array (Node.allToJson ns)).render 0 ++ "\n"

def errorLine (d : Diagnostic) : String := s!"[error] >>> {d.report}\n"

/-- How many levels of a tree or a value can be shown. -/
def showingLimit : Nat := 980

def canShowTree (ns : List Node) : Bool := Node.documentDepthOfAll ns ≤ showingLimit

def canDescribe (ns : List Node) : Bool := ns.all fun n => n.describedDepth ≤ showingLimit

/-- Going through a value takes three levels for each of its own. -/
def hasRoomFor (depth : Nat) : Bool := 3 * depth ≤ showingLimit

def canShow (v : Value) : Bool := hasRoomFor v.height

/-- How a run ends: with a result, with errors, or without an answer. -/
inductive Ending where
  | succeeded
  | failed
  | aborted (f : Fault)
  | overflowed

structure Run where
  output : String
  ending : Ending
  session : Session

/-- The end of a run whose text was read without errors. -/
def finish (listing : String) (evaluated : Result × Session) : Run :=
  let (result, s) := evaluated
  let output := listing ++ s.printed
  let s := { s with printed := "" }
  match result with
  | .value none => ⟨output, .succeeded, s⟩
  | .value (some v) =>
    if canShow v then ⟨output ++ v.display ++ "\n", .succeeded, s⟩
    else ⟨output, .overflowed, s⟩
  | .error d => ⟨output ++ errorLine d, .failed, s⟩
  | .fault f => ⟨output, .aborted f, s⟩
  | .tooDeep => ⟨output, .overflowed, s⟩

def run (listing : Listing) (s : Session) (text : List Char) : Run :=
  let reading := Reading.ofText text
  let tokens := if listing.tokens then tokenListing text else ""
  if listing.tree && !canShowTree reading.statements then ⟨tokens ++ treeHeading, .overflowed, s⟩
  else
    let shown := tokens ++ if listing.tree then treeListing reading.statements else ""
    if reading.ok then
      finish shown (({ s with printed := "" } : Session).evaluate reading.statements)
    else ⟨shown ++ String.join (reading.diagnostics.map errorLine), .failed, s⟩

end Program

end Scriptlet
