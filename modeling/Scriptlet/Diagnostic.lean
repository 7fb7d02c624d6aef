import Scriptlet.Source.Position
import Scriptlet.Text.Quoted

/-!
# Diagnostics

A diagnostic names the phase that found a fault, says what is wrong, and where.
Two diagnostics agree when they would be reported alike: the offset in the text
is not reported and does not count.
-/

namespace Scriptlet

inductive Phase where
  | lexer
  | parser
  | runtime
deriving DecidableEq, Repr

namespace Phase

def name : Phase → String
  | lexer => "lexer"
  | parser => "parser"
  | runtime => "runtime"

def ofName? : String → Option Phase
  | "lexer" => some lexer
  | "parser" => some parser
  | "runtime" => some runtime
  | _ => none

/-- The kind of error that a report of this phase announces. -/
def errorKind : Phase → String
  | lexer => "LexerError"
  | parser => "ParserError"
  | runtime => "RuntimeError"

end Phase

/-- The complaint about a phase that does not exist. -/
def unknownPhase (name : String) : String := "Unknown error phase: " ++ Text.quoted name

/-- The complaint about a text or a tree for whose nesting there is no room. -/
def nestedTooDeeply : String := "expression nested too deeply"

structure Diagnostic where
  phase : Phase
  message : String
  position : Position
deriving DecidableEq, Repr

namespace Diagnostic

/-- The line shown to a user. -/
def report (d : Diagnostic) : String :=
  s!"{d.phase.errorKind}: {d.message}, at {d.position.line}:{d.position.column}"

/-- The form used inside descriptions of results. -/
def describe (d : Diagnostic) : String :=
  s!"CouchError({d.phase.name}, {Text.quoted d.message}, {d.position.line}, {d.position.column})"

def agrees (a b : Diagnostic) : Bool :=
  a.phase = b.phase && a.message = b.message &&
    a.position.line = b.position.line && a.position.column = b.position.column

/-- The diagnostics by position in the text; those at one position keep their order. -/
def ordered (ds : List Diagnostic) : List Diagnostic :=
  ds.mergeSort fun a b => a.position.index ≤ b.position.index

end Diagnostic

end Scriptlet
