import Scriptlet.Tree.Datum

/-!
# Values

What expressions evaluate to. Integers are whole numbers here; that they stay
within 64 bits is a matter of the operations that make them.

Floats and rows, which are the tuples and the arrays, carry a mark. A session
gives each of them a mark of its own when it is made, so that a value that is
bound to two names, or held in two rows, is still known to be one. Marks are
never shown.

A misfit is a value that the language has no literal for: a tree made by hand may
call something else an integer or a string, and the value keeps both, the kind and
what the tree holds. Programs that are read from a text make none.
-/

namespace Scriptlet

/-- The functions that are bound before a program starts. -/
inductive Builtin where
  | len
  | str
  | type
  | print
deriving DecidableEq, Repr

namespace Builtin

/-- All of them, in the order in which they are bound. -/
def all : List Builtin := [len, str, type, print]

def name : Builtin → String
  | len => "len"
  | str => "str"
  | type => "type"
  | print => "print"

def ofName? (n : String) : Option Builtin := all.find? fun b => b.name = n

/-- The number of arguments; `none` for any number. -/
def arity? : Builtin → Option Nat
  | len => some 1
  | str => some 1
  | type => some 1
  | print => none

end Builtin

/-- The kinds that trees made by hand can claim for data of other types. -/
inductive Misfit where
  | integer
  | string
deriving DecidableEq, Repr

inductive Value where
  | integer (n : Int)
  | float (x : Float) (mark : Nat)
  | bool (b : Bool)
  | string (s : String)
  | unit
  | tuple (items : List Value) (mark : Nat)
  | array (items : List Value) (mark : Nat)
  | function (b : Builtin)
  | misfit (claimed : Misfit) (data : Datum Node) (mark : Nat)
deriving Inhabited

inductive Value.Kind where
  | integer
  | float
  | bool
  | string
  | unit
  | tuple
  | array
  | function
deriving DecidableEq, Repr

def Value.Kind.name : Value.Kind → String
  | integer => "integer"
  | float => "float"
  | bool => "bool"
  | string => "string"
  | unit => "unit"
  | tuple => "tuple"
  | array => "array"
  | function => "function"

namespace Value

def kind : Value → Kind
  | integer _ => .integer
  | float _ _ => .float
  | bool _ => .bool
  | string _ => .string
  | unit => .unit
  | tuple _ _ => .tuple
  | array _ _ => .array
  | function _ => .function
  | misfit .integer _ _ => .integer
  | misfit .string _ _ => .string

def leastInteger : Int := -9223372036854775808

def greatestInteger : Nat := 9223372036854775807

/-- Does the number fit into 64 bits? -/
def inRange (n : Int) : Bool := leastInteger ≤ n && n ≤ greatestInteger

/-- The value with another mark, if it carries one. -/
def withMark (mark : Nat) : Value → Value
  | float x _ => float x mark
  | tuple vs _ => tuple vs mark
  | array vs _ => array vs mark
  | misfit claimed d _ => misfit claimed d mark
  | v => v

/-- Are the two one and the same row? -/
def isOneRow : Value → Value → Bool
  | tuple _ m, tuple _ n => m = n
  | array _ m, array _ n => m = n
  | _, _ => false

/-- Are the two one and the same value, of a sort that may differ from itself? -/
def isOneOdd : Value → Value → Bool
  | float x m, float y n => !(x == x) && !(y == y) && m = n
  | misfit _ _ m, misfit _ _ n => m = n
  | _, _ => false

-- Two values are the same when they are of one kind and have the same contents.
-- Floats are compared as numbers: the two zeros are the same, and a NaN is the same
-- as nothing. As an item of rows, though, one NaN is the same as itself. What misfits
-- hold is compared by its meaning.

mutual

def same : Value → Value → Bool
  | integer a, integer b => a = b
  | float x _, float y _ => x == y
  | bool a, bool b => a = b
  | string a, string b => a = b
  | unit, unit => true
  | tuple as _, tuple bs _ => sameAll as bs
  | array as _, array bs _ => sameAll as bs
  | function a, function b => a = b
  | misfit claimed d _, misfit claimed' e _ => claimed = claimed' && d.equals e
  | misfit .integer d _, integer b => d.equals (.int b)
  | integer a, misfit .integer e _ => Datum.equals (.int a) e
  | _, _ => false

def sameAll : List Value → List Value → Bool
  | [], [] => true
  | a :: as, b :: bs => (same a b || isOneOdd a b) && sameAll as bs
  | _, _ => false

end

mutual

theorem sameItem_self : (a : Value) → (same a a || isOneOdd a a) = true
  | integer _ => by simp [same]
  | float x _ => by cases h : x == x <;> simp [same, isOneOdd, h]
  | bool _ => by simp [same]
  | string _ => by simp [same]
  | unit => by simp [same]
  | tuple as _ => by simp [same, sameAll_self as]
  | array as _ => by simp [same, sameAll_self as]
  | function _ => by simp [same]
  | misfit _ _ _ => by simp [isOneOdd]

/-- Every list of items is the same as itself, whatever floats it holds. -/
theorem sameAll_self : (as : List Value) → sameAll as as = true
  | [] => by simp [sameAll]
  | a :: as => by simp only [sameAll, sameItem_self a, sameAll_self as, Bool.and_self]

end

-- Rows may share items, and a value written out in full may be far larger than
-- what a session holds of it. Comparing therefore passes over an item that stands on
-- both sides as one object in memory; `sameItem_self` says that nothing is missed.

mutual

/-- Whether two values are the same. -/
def compare : (a b : Value) → { r : Bool // r = same a b }
  | tuple as _, tuple bs _ => ⟨(compareAll as bs).1, by simp only [same, (compareAll as bs).2]⟩
  | array as _, array bs _ => ⟨(compareAll as bs).1, by simp only [same, (compareAll as bs).2]⟩
  | a, b => ⟨same a b, rfl⟩

def compareAll : (as bs : List Value) → { r : Bool // r = sameAll as bs }
  | a :: as, b :: bs =>
    ⟨withPtrEq a b (fun _ => (compare a b).1 || isOneOdd a b)
        (fun h => by rw [(compare a b).2, h, sameItem_self]) && (compareAll as bs).1,
      by simp only [withPtrEq, sameAll, (compare a b).2, (compareAll as bs).2]⟩
  | as, bs => ⟨sameAll as bs, rfl⟩

end

mutual

/-- Is there no function in the value? -/
def isPlain : Value → Bool
  | tuple vs _ => allPlain vs
  | array vs _ => allPlain vs
  | function _ => false
  | _ => true

def allPlain : List Value → Bool
  | [] => true
  | v :: vs => isPlain v && allPlain vs

end

/-- Does the value come back unchanged when it is handed out as plain data? -/
def comesBack : Value → Bool
  | float x _ => x == x
  | v => v.isPlain

end Value

end Scriptlet
