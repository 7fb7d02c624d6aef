import Scriptlet.Source.Position

/-!
# Syntax trees

A tree is made of nodes of one shape: a kind, a value, children, an else branch,
a flag for mutable bindings, and the position of the token the node starts at.
What the fields of each kind hold is a convention that the reader of programs
keeps and that trees made by hand may break:

* literals hold their value, identifiers and bindings their name, operators and
  assignments the name of the operator, error nodes their message;
* a call holds the called expression as its value, a block its last expression
  if that has no semicolon;
* operands, arguments, items and statements are children;
* a conditional has the condition and the block as children.
-/

namespace Scriptlet

inductive Node.Kind where
  | integer
  | float
  | string
  | bool
  | unit
  | identifier
  | unary
  | binary
  | call
  | index
  | tuple
  | array
  | block
  | conditional
  | binding
  | assign
  | giveBack
  | error
  | other (name : String)
deriving DecidableEq, Repr, Inhabited

namespace Node.Kind

def name : Node.Kind → String
  | integer => "integer"
  | float => "float"
  | string => "string"
  | bool => "bool"
  | unit => "unit"
  | identifier => "identifier"
  | unary => "unary"
  | binary => "binary"
  | call => "call"
  | index => "index"
  | tuple => "tuple"
  | array => "array"
  | block => "block"
  | conditional => "if"
  | binding => "let"
  | assign => "assign"
  | giveBack => "return"
  | error => "error"
  | other n => n

/-- Every kind that has a rule of evaluation. -/
def all : List Node.Kind := [
  integer, float, string, bool, unit, identifier, unary, binary, call, index, tuple, array, block,
  conditional, binding, assign, giveBack, error]

def ofName (n : String) : Node.Kind := (all.find? fun k => k.name = n).getD (other n)

end Node.Kind

/-- The value of a node, in a tree whose nodes have type `ν`. -/
inductive Datum (ν : Type) where
  | absent
  | bool (b : Bool)
  | text (s : String)
  | int (n : Int)
  | float (x : Float)
  | node (n : ν)

structure Node where
  kind : Node.Kind
  value : Datum Node
  children : List Node
  elseBranch : List Node
  isMutable : Bool
  position : Position

namespace Node

/-- A node without an else branch or a mutable flag. -/
def make (kind : Kind) (position : Position) (value : Datum Node) (children : List Node) : Node :=
  ⟨kind, value, children, [], false, position⟩

instance : Inhabited Node := ⟨make .unit {} .absent []⟩

/-- A node that stands for a part of the text that could not be read. -/
def ofError (message : String) (position : Position) : Node :=
  make .error position (.text message) []

def isError (n : Node) : Bool := n.kind = .error

/-- Does the node end in a closing brace, so that no semicolon need follow it? -/
def isBlockLike (n : Node) : Bool := n.kind = .block || n.kind = .conditional

-- Two trees are alike when they have the same shape, the same values and the
-- same lines and columns. Values of different types differ, and a NaN differs from
-- itself.

mutual

def alike : Node → Node → Bool
  | ⟨k₁, v₁, cs₁, es₁, m₁, p₁⟩, ⟨k₂, v₂, cs₂, es₂, m₂, p₂⟩ =>
    k₁ = k₂ && alikeValues v₁ v₂ && p₁.line = p₂.line && p₁.column = p₂.column && m₁ = m₂ &&
      alikeAll cs₁ cs₂ && alikeAll es₁ es₂

def alikeValues : Datum Node → Datum Node → Bool
  | .absent, .absent => true
  | .bool a, .bool b => a = b
  | .text a, .text b => a = b
  | .int a, .int b => a = b
  | .float a, .float b => a == b
  | .node a, .node b => alike a b
  | _, _ => false

def alikeAll : List Node → List Node → Bool
  | [], [] => true
  | a :: as, b :: bs => alike a b && alikeAll as bs
  | _, _ => false

end

-- The branches of a tree are always alike to themselves. Its own value is not if
-- that is a NaN, or a tree of which the same holds.

mutual

def isAlikeToItself : Node → Bool
  | ⟨_, v, _, _, _, _⟩ => isValueAlikeToItself v

def isValueAlikeToItself : Datum Node → Bool
  | .float x => x == x
  | .node n => isAlikeToItself n
  | _ => true

end

end Node

end Scriptlet
