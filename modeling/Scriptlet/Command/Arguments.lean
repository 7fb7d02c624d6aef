import Scriptlet.Text.Character
import Scriptlet.Text.Quoted

/-!
# Command-line arguments

Flags may stand before and after the one operand. Short flags combine behind one
hyphen, long ones may be cut short as long as one flag is meant, and `--` ends
the flags. A word that looks like a negative number or holds a blank is no flag.
-/

namespace Scriptlet.Command

inductive Flag where
  | help
  | string
  | tokens
  | tree
  | multi
  | repl
deriving DecidableEq, Repr

/-- The spellings of the flags, in the order in which messages list them. -/
def spellings : List (String × Flag) := [
  ("-h", .help), ("--help", .help), ("-s", .string), ("--string", .string), ("-t", .tokens),
  ("--tokens", .tokens), ("-a", .tree), ("--ast", .tree), ("-m", .multi), ("--multi", .multi),
  ("--repl", .repl)]

/-- A flag as messages name it, by all its spellings. -/
def Flag.title (f : Flag) : String :=
  "/".intercalate ((spellings.filter fun s => s.2 = f).map Prod.fst)

/-- What a word can mean. A short flag may have further letters behind it, and a long
one an argument behind an equals sign, which no flag takes. -/
inductive Word where
  | operand (s : String)
  | separator
  | flag (f : Flag)
  | flagGroup (f : Flag) (letters : List Char)
  | flagWith (f : Flag) (argument : List Char)
  | unknown (s : String)
deriving DecidableEq, Repr

/-- The parts before and behind the first equals sign, if there is one. -/
def splitEquals (s : List Char) : List Char × Option (List Char) :=
  match s.dropWhile (· ≠ '=') with
  | [] => (s, none)
  | _ :: rest => (s.takeWhile (· ≠ '='), some rest)

/-- A hyphen, digits of any script, and perhaps a point with digits behind it. One line feed may
stand at the end. -/
def isNegativeNumber : List Char → Bool
  | '-' :: s =>
    let number := if s.getLast? = some '\n' then s.dropLast else s
    match number.dropWhile Text.isDecimalDigit with
    | [] => !number.isEmpty
    | '.' :: fraction => !fraction.isEmpty && fraction.all Text.isDecimalDigit
    | _ => false
  | _ => false

/-- A flag, with the argument behind the equals sign if there is one. -/
def flagWord (f : Flag) : Option (List Char) → Word
  | none => .flag f
  | some argument => .flagWith f argument

/-- A word with an equals sign behind a flag spelled `stem`. What stands behind a short
flag counts as further letters, with or without the sign. -/
def flagBeforeEquals (f : Flag) (stem argument : List Char) : Word :=
  if stem.length = 2 ∧ argument ≠ [] then .flagGroup f argument else .flagWith f argument

/-- Which flags a word can mean when it is none in full, with their spellings. -/
def candidates (s : List Char) : List (String × Word) :=
  match s with
  | '-' :: '-' :: _ =>
    let (stem, argument) := splitEquals s
    (spellings.filter fun p => stem.isPrefixOf p.1.toList).map fun p => (p.1, flagWord p.2 argument)
  | _ =>
    (spellings.filter fun p => p.1.toList = s.take 2).map fun p => (p.1, .flagGroup p.2 (s.drop 2))

/-- A word that is a flag in full, or is one up to its equals sign. -/
def exactFlag? (s : List Char) : Option Word :=
  match spellings.lookup (String.ofList s) with
  | some f => some (.flag f)
  | none =>
    match splitEquals s with
    | (stem, some argument) =>
      (spellings.lookup (String.ofList stem)).map fun f => flagBeforeEquals f stem argument
    | (_, none) => none

/-- What one word means, or a complaint. -/
def classify (word : String) : Except String Word :=
  let s := word.toList
  if s.head? ≠ some '-' ∨ s = ['-'] then .ok (.operand word)
  else
    match exactFlag? s with
    | some w => .ok w
    | none =>
      match candidates s with
      | [(_, w)] => .ok w
      | [] =>
        if isNegativeNumber s || s.contains ' ' then .ok (.operand word) else .ok (.unknown word)
      | several =>
        .error s!"ambiguous option: {word} could match {Text.commaSeparated (several.map Prod.fst)}"

/-- The meaning of all words. After the separator every word is an operand. -/
def classifyAll : List String → Except String (List Word)
  | [] => .ok []
  | "--" :: words => .ok (.separator :: words.map .operand)
  | word :: words => do return (← classify word) :: (← classifyAll words)

/-- The complaint about an argument of a flag. -/
def ignoredArgument (f : Flag) (argument : List Char) : String :=
  s!"argument {f.title}: ignored explicit argument {Text.quoted (String.ofList argument)}"

/-- A short flag and the letters behind it, which all have to be short flags. -/
def cluster (f : Flag) : List Char → Except String (List Flag)
  | [] => .ok [f]
  | c :: more =>
    match spellings.lookup (String.ofList ['-', c]) with
    | none => .error (ignoredArgument f (c :: more))
    | some g => (cluster g more).map (f :: ·)

/-- What was asked for. -/
structure Request where
  flags : List Flag
  source : Option String
deriving DecidableEq, Repr

/-- What is known after some of the words. -/
structure Progress where
  request : Request
  isTaken : Bool
  extra : List String

inductive Parsed where
  | request (r : Request)
  | help
  | wrong (complaint : String)
deriving DecidableEq, Repr

def isOperand : Word → Bool
  | .operand _ => true
  | .separator => true
  | _ => false

/-- Operands and the separator as they were typed. -/
def typed : Word → List String
  | .operand s => [s]
  | .separator => ["--"]
  | _ => []

/-- Adds flags found together to what is known. Asking for help ends the reading. -/
def Progress.addFlags (p : Progress) : Except String (List Flag) → Except Parsed Progress
  | .error complaint => .error (.wrong complaint)
  | .ok flags =>
    if flags.contains .help then .error .help
    else .ok { p with request := { p.request with flags := p.request.flags ++ flags } }

/-- One word up to the last flag. The first operand is the source. -/
def takeWord (p : Progress) : Word → Except Parsed Progress
  | .operand s =>
    if p.isTaken then .ok { p with extra := p.extra ++ [s] }
    else .ok { p with isTaken := true, request := { p.request with source := some s } }
  | .separator => .ok p
  | .unknown s => .ok { p with extra := p.extra ++ [s] }
  | .flag f => p.addFlags (.ok [f])
  | .flagGroup f letters => p.addFlags (cluster f letters)
  | .flagWith f argument => .error (.wrong (ignoredArgument f argument))

/-- The words behind the last flag: the source if there was none before, with a
separator next to it; all else is too much. -/
def takeTail (p : Progress) (words : List Word) : Progress :=
  let notSeparator (ws : List Word) : List Word := ws.dropWhile (· = .separator)
  if p.isTaken then { p with extra := p.extra ++ words.flatMap typed }
  else
    match notSeparator words with
    | .operand s :: rest =>
      ⟨{ p.request with source := some s }, true, p.extra ++ (notSeparator rest).flatMap typed⟩
    | rest => { p with extra := p.extra ++ rest.flatMap typed }

/-- The words in order, then the complaint about what is too much. -/
def parseWords (words : List Word) : Parsed :=
  let tail := (words.reverse.takeWhile isOperand).reverse
  let front := words.take (words.length - tail.length)
  match front.foldlM takeWord ⟨⟨[], none⟩, false, []⟩ with
  | .error outcome => outcome
  | .ok p =>
    let p := takeTail p tail
    if p.extra.isEmpty then .request p.request
    else .wrong ("unrecognized arguments: " ++ " ".intercalate p.extra)

def parse (arguments : List String) : Parsed :=
  match classifyAll arguments with
  | .ok words => parseWords words
  | .error complaint => .wrong complaint

end Scriptlet.Command
