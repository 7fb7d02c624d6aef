import Scriptlet.Value.Display

/-!
# Bindings and scopes

A session holds one list of bindings, the newest first, each with the depth of
the block that made it. A name means its newest binding. Leaving a block drops
the bindings made deeper than what is outside. A binding is known by its slot,
the number of older ones, which does not change as bindings come and go.

Trees made by hand may use other data than texts as names, which are told apart by
their meaning. The session also hands out the marks of values: `nextMark` and all above it are
still free.
-/

namespace Scriptlet

structure Binding where
  name : Datum Node
  value : Value
  isMutable : Bool
  depth : Int
  isFunction : Bool

def Binding.describe (b : Binding) : String :=
  let flag := if b.isMutable then "mut " else ""
  s!"Symbol({flag}{Node.valueText b.name}={b.value.describe} @{b.depth})"

/-- The newest binding of a name, with its slot. -/
def findBinding (name : Datum Node) : List Binding → Option (Nat × Binding)
  | [] => none
  | b :: older =>
    if b.name.equals name then some (older.length, b) else findBinding name older

/-- The bindings with a new value in one slot. -/
def setBinding (slot : Nat) (v : Value) : List Binding → List Binding
  | [] => []
  | b :: older =>
    if older.length = slot then { b with value := v } :: older else b :: setBinding slot v older

/-- The value in a slot. -/
def valueAt? (slot : Nat) : List Binding → Option Value
  | [] => none
  | b :: older => if older.length = slot then some b.value else valueAt? slot older

structure Session where
  depth : Int
  bindings : List Binding
  printed : String
  nextMark : Nat

namespace Session

def empty : Session := ⟨0, [], "", 1⟩

/-- A session in which the builtins are bound. -/
def withBuiltins : Session :=
  let bind (b : Builtin) : Binding := ⟨.text b.name, .function b, false, 0, true⟩
  let bindings := Builtin.all.map bind
  { empty with bindings := bindings.reverse }

def enter (s : Session) : Session := { s with depth := s.depth + 1 }

/-- Goes to a depth and drops the bindings made deeper than that. -/
def unwindTo (depth : Int) (s : Session) : Session :=
  { s with depth, bindings := s.bindings.filter fun b => b.depth ≤ depth }

def leave (s : Session) : Session := s.unwindTo (s.depth - 1)

def define (name : Datum Node) (v : Value) (isMutable : Bool) (s : Session) : Session :=
  { s with bindings := ⟨name, v, isMutable, s.depth, false⟩ :: s.bindings }

def find? (s : Session) (name : Datum Node) : Option (Nat × Binding) :=
  findBinding name s.bindings

def at? (s : Session) (slot : Nat) : Option Value := valueAt? slot s.bindings

def set (slot : Nat) (v : Value) (s : Session) : Session :=
  { s with bindings := setBinding slot v s.bindings }

/-- The value with a mark of its own. -/
def mark (v : Value) (s : Session) : Value × Session :=
  (v.withMark s.nextMark, { s with nextMark := s.nextMark + 1 })

def print (text : String) (s : Session) : Session := { s with printed := s.printed ++ text }

/-- The bindings in the order in which they were made. -/
def oldestFirst (s : Session) : List Binding := s.bindings.reverse

end Session

end Scriptlet
