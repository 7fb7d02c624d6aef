import Scriptlet.Decimal.Numeral
import Scriptlet.Text.Literal
import Scriptlet.Text.Quoted
import Scriptlet.Tree.Describe
import Scriptlet.Value

/-!
# Values as text

`display` writes a value as the language would, `text` likewise but with strings
bare, and `describe` writes it for reports. A misfit that is called a string has no
characters, and nothing that holds one can be displayed: `unreadable?` finds it.
-/

namespace Scriptlet.Value

/-- A tuple of one item keeps a comma. -/
def tupleText : List String → String
  | [one] => "(" ++ one ++ ",)"
  | parts => "(" ++ Text.commaSeparated parts ++ ")"

mutual

def display : Value → String
  | integer n => toString n
  | float x _ => String.ofList (Decimal.floatLiteral x)
  | bool b => if b then "true" else "false"
  | string s => String.ofList (Text.literal s.toList)
  | unit => "()"
  | tuple vs _ => tupleText (displayAll vs)
  | array vs _ => "[" ++ Text.commaSeparated (displayAll vs) ++ "]"
  | function b => s!"<builtin {b.name}>"
  | misfit _ d _ => Node.describeValue d

def displayAll : List Value → List String
  | [] => []
  | v :: vs => display v :: displayAll vs

end

def text : Value → String
  | string s => s
  | v => v.display

mutual

def describe : Value → String
  | integer n => s!"Value(integer, {n})"
  | float x _ => s!"Value(float, {String.ofList (Decimal.reportText x)})"
  | bool b => if b then "Value(bool, True)" else "Value(bool, False)"
  | string s => s!"Value(string, {Text.quoted s})"
  | unit => "Value(unit, None)"
  | tuple vs _ => s!"Value(tuple, [{Text.commaSeparated (describeAll vs)}])"
  | array vs _ => s!"Value(array, [{Text.commaSeparated (describeAll vs)}])"
  | function b => s!"Value(function, Builtin({b.name}))"
  | misfit .integer d _ => s!"Value(integer, {Node.describeValue d})"
  | misfit .string d _ => s!"Value(string, {Node.describeValue d})"

def describeAll : List Value → List String
  | [] => []
  | v :: vs => describe v :: describeAll vs

end

mutual

/-- The type of the first string in a value that has no characters. -/
def unreadable? : Value → Option String
  | tuple vs _ => firstUnreadable? vs
  | array vs _ => firstUnreadable? vs
  | misfit .string d _ => some d.typeName
  | _ => none

def firstUnreadable? : List Value → Option String
  | [] => none
  | v :: vs => (unreadable? v).or (firstUnreadable? vs)

end

end Scriptlet.Value
