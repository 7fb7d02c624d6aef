import Scriptlet.Text.Quoted

/-!
# JSON documents

Documents whose numbers are given as text, written over several lines in ASCII:
one item or member a line, two spaces for each level.
-/

namespace Scriptlet

inductive Json where
  | null
  | bool (b : Bool)
  | number (text : String)
  | string (s : String)
  | array (items : List Json)
  | object (members : List (String × Json))

namespace Json

/-- The UTF-16 code units of a code point. -/
def codeUnits (n : Nat) : List Nat :=
  if n < 0x10000 then [n]
  else [0xD800 + (n - 0x10000) / 0x400, 0xDC00 + (n - 0x10000) % 0x400]

/-- One character between quotation marks. -/
def escapedChar (c : Char) : List Char :=
  if c = '"' ∨ c = '\\' then ['\\', c]
  else if c = '\n' then ['\\', 'n']
  else if c = '\r' then ['\\', 'r']
  else if c = '\t' then ['\\', 't']
  else if c = '\x0c' then ['\\', 'f']
  else if c = '\x08' then ['\\', 'b']
  else if ' ' ≤ c ∧ c ≤ '~' then [c]
  else (codeUnits c.toNat).flatMap fun u => '\\' :: 'u' :: Text.hexadecimal 4 u

def stringText (s : String) : String :=
  String.ofList ('"' :: s.toList.flatMap escapedChar ++ ['"'])

/-- The start of a line at a given level. -/
def newLine (level : Nat) : String := "\n" ++ "".pushn ' ' (2 * level)

mutual

def render (level : Nat) : Json → String
  | null => "null"
  | bool b => if b then "true" else "false"
  | number text => text
  | string s => stringText s
  | array [] => "[]"
  | array (item :: items) =>
    "[" ++ newLine (level + 1) ++ render (level + 1) item ++ renderItems (level + 1) items ++
      newLine level ++ "]"
  | object [] => "\x7b\x7d"
  | object ((key, value) :: members) =>
    "\x7b" ++ newLine (level + 1) ++ stringText key ++ ": " ++ render (level + 1) value ++
      renderMembers (level + 1) members ++ newLine level ++ "\x7d"

/-- The items after the first. -/
def renderItems (level : Nat) : List Json → String
  | [] => ""
  | item :: items => "," ++ newLine level ++ render level item ++ renderItems level items

/-- The members after the first. -/
def renderMembers (level : Nat) : List (String × Json) → String
  | [] => ""
  | (key, value) :: members =>
    "," ++ newLine level ++ stringText key ++ ": " ++ render level value ++
      renderMembers level members

end

end Json

end Scriptlet
