import Scriptlet.Command.Execution

/-!
# The command

Reads files and lines, and prints; everything else is planned and computed by
the library.
-/

namespace Scriptlet

open Interactive

/-- Reads lines until the loop is left. -/
partial def interactFrom (settings : Settings) (s : State) : IO UInt32 := do
  let input ← IO.getStdin
  IO.print (prompt settings s)
  (← IO.getStdout).flush
  let line ← input.getLine
  let event : Event :=
    if line.isEmpty then .endOfInput else .line (line.dropEndWhile (· = '\n')).copy
  let r := step settings s event
  IO.print r.output
  match r.next with
  | .continue s => interactFrom settings s
  | .finished => return 0
  | .broken _ => return 1

def report (o : Command.Outcome) : IO UInt32 := do
  IO.print o.output
  IO.eprint o.errors
  match o.status with
  | .ok status => return status.toUInt32
  | .error failure =>
    IO.eprintln failure.message
    return 1

/-- The contents of a file, if there is one. -/
def contents? (name : String) : IO (Option ByteArray) := do
  try
    return some (← IO.FS.readBinFile name)
  catch _ => return none

end Scriptlet

def main (arguments : List String) : IO UInt32 := do
  match Scriptlet.Command.plan arguments with
  | .interact settings =>
    IO.print (Scriptlet.Interactive.greeting settings)
    Scriptlet.interactFrom settings Scriptlet.Interactive.start
  | .runFile listing name =>
    Scriptlet.report (Scriptlet.Command.runFile listing name (← Scriptlet.contents? name))
  | _ => Scriptlet.report (Scriptlet.Command.execute arguments (fun _ => none) [])
