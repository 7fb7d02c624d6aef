/-!
# String literals

A string literal stands between double quotes. A backslash gives the next
character its escaped meaning: `t`, `r`, `n` and `0` stand for a tab, a carriage
return, a line feed and the null character, and any other character for itself.
`escape` writes a text so that `unescape` reads it back.
-/

namespace Scriptlet.Text

/-- The meaning of a character after a backslash. -/
def escapedMeaning (c : Char) : Char :=
  if c = 't' then '\t'
  else if c = 'r' then '\r'
  else if c = 'n' then '\n'
  else if c = '0' then '\x00'
  else c

/-- The body of a literal with its escapes resolved; a last lone backslash is dropped. -/
def unescapeBody : List Char → List Char
  | [] => []
  | '\\' :: c :: rest => escapedMeaning c :: unescapeBody rest
  | ['\\'] => []
  | c :: rest => c :: unescapeBody rest

/-- The text that a literal stands for. The first and the last character are
dropped as quotation marks when the first is one. -/
def unescape : List Char → List Char
  | '"' :: c :: rest => unescapeBody ((c :: rest).dropLast)
  | s => unescapeBody s

def escapeChar (c : Char) : List Char :=
  if c = '"' then ['\\', '"']
  else if c = '\\' then ['\\', '\\']
  else if c = '\x00' then ['\\', '0']
  else if c = '\n' then ['\\', 'n']
  else if c = '\t' then ['\\', 't']
  else if c = '\r' then ['\\', 'r']
  else [c]

def escape (s : List Char) : List Char := s.flatMap escapeChar

/-- The literal that stands for `s`. -/
def literal (s : List Char) : List Char := '"' :: escape s ++ ['"']

end Scriptlet.Text
