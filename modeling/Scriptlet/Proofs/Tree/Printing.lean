import Scriptlet.Proofs.Token.Words
import Scriptlet.Proofs.Tree.Term

/-!
# Printing

A term is printed as words with one blank between any two. Whatever is a part of an
expression stands in parentheses of its own, so that no level of operators matters, and
each statement of a program has a semicolon behind it.

Not every tree has a text: there are no negative numbers among the literals, a name may not
be a reserved word, and a tuple of no items would be the unit. `printable` says which terms
can be printed. Trees that are read again have new positions; `unplaced` leaves them out.
-/

namespace Scriptlet

namespace Node

mutual

/-- The tree with all positions at the start of the text. -/
def unplaced : Node → Node
  | ⟨k, v, cs, es, m, _⟩ => ⟨k, unplacedValue v, unplacedAll cs, unplacedAll es, m, {}⟩

def unplacedValue : Datum Node → Datum Node
  | .node n => .node (unplaced n)
  | .absent => .absent
  | .bool b => .bool b
  | .text s => .text s
  | .int n => .int n
  | .float x => .float x

def unplacedAll : List Node → List Node
  | [] => []
  | n :: ns => unplaced n :: unplacedAll ns

end

theorem unplacedAll_eq_map (ns : List Node) : unplacedAll ns = ns.map unplaced := by
  induction ns with
  | nil => rfl
  | cons n ns ih => rw [unplacedAll, ih, List.map_cons]

@[simp] theorem unplaced_kind (n : Node) : n.unplaced.kind = n.kind := by
  cases n
  rfl

@[simp] theorem unplaced_make (k : Kind) (p : Position) (v : Datum Node) (cs : List Node) :
    (make k p v cs).unplaced = make k {} (unplacedValue v) (cs.map unplaced) := by
  simp only [make, unplaced, unplacedAll_eq_map, List.map_nil]

/-- Is the node the tree of the term, up to positions? -/
def IsTreeOf (n : Node) (t : Term) : Prop := n.unplaced = t.toNode.unplaced

theorem IsTreeOf.eq {n : Node} {t : Term} (h : n.IsTreeOf t) : n.unplaced = t.toNode.unplaced := h

theorem IsTreeOf.kind {n : Node} {t : Term} (h : n.IsTreeOf t) : n.kind = t.toNode.kind := by
  rw [← unplaced_kind, h, unplaced_kind]

theorem IsTreeOf.isError {n : Node} {t : Term} (h : n.IsTreeOf t) : n.isError = false := by
  rw [Node.isError, h.kind]
  cases t <;> rfl

end Node

/-- The spelling of a reserved word, an operator or a mark of punctuation. -/
def Token.Kind.spelling (k : Token.Kind) : List Char :=
  match Token.keywords.find? (·.2 = k) with
  | some e => e.1.toList
  | none => ((Token.operators.find? (·.2 = k)).map Prod.fst).getD []

def BinaryOp.joint : BinaryOp → List Token.Kind
  | .arithmetic .add => [.plus]
  | .arithmetic .sub => [.minus]
  | .arithmetic .mul => [.times]
  | .arithmetic .div => [.divide]
  | .equal => [.equal]
  | .notEqual => [.notEqual]
  | .member => [.kwIn]
  | .notMember => [.kwNot, .kwIn]
  | .and => [.kwAnd]
  | .or => [.kwOr]

def UnaryOp.sign : UnaryOp → Token.Kind
  | .negate => .minus
  | .not => .bang

def AssignOp.sign : AssignOp → Token.Kind
  | .replace => .assign
  | .combine .add => .plusAssign
  | .combine .sub => .minusAssign
  | .combine .mul => .timesAssign
  | .combine .div => .divideAssign

namespace Word

def fixed (k : Token.Kind) : Word := ⟨k, k.spelling⟩

def name (s : String) : Word := ⟨.identifier, s.toList⟩

def integer (n : Nat) : Word := ⟨.integer, Nat.toDigits 10 n⟩

/-- The words between two brackets. -/
def enclosed (opening closing : Token.Kind) (ws : List Word) : List Word :=
  fixed opening :: ws ++ [fixed closing]

def grouped (ws : List Word) : List Word := enclosed .leftParen .rightParen ws

/-- Lists of words with a comma between any two. -/
def listed (wss : List (List Word)) : List Word := List.intercalate [fixed .comma] wss

theorem listed_singleton (ws : List Word) : listed [ws] = ws := by
  simp [listed, List.intercalate]

theorem listed_cons_cons (ws vs : List Word) (wss : List (List Word)) :
    listed (ws :: vs :: wss) = ws ++ fixed .comma :: listed (vs :: wss) := by
  simp [listed, List.intercalate]

theorem mem_listed {w : Word} {ws : List Word} {wss : List (List Word)} (hws : ws ∈ wss)
    (hw : w ∈ ws) : w ∈ listed wss := by
  induction wss with
  | nil => cases hws
  | cons vs wss ih =>
    cases wss with
    | nil =>
      obtain rfl := List.mem_singleton.mp hws
      rwa [listed_singleton]
    | cons us wss =>
      rw [listed_cons_cons, List.mem_append, List.mem_cons]
      rcases List.mem_cons.mp hws with rfl | hws
      · exact .inl hw
      · exact .inr (.inr (ih hws))

/-- Items in parentheses with commas between them. -/
def items (as : List (List Word)) : List Word := List.intercalate [fixed .comma] (as.map grouped)

theorem items_eq_listed (as : List (List Word)) : items as = listed (as.map grouped) := rfl

theorem items_singleton (ws : List Word) : items [ws] = grouped ws := listed_singleton _

theorem items_cons_cons (ws vs : List Word) (as : List (List Word)) :
    items (ws :: vs :: as) = grouped ws ++ fixed .comma :: items (vs :: as) :=
  listed_cons_cons _ _ _

/-- Statements, each with a semicolon behind it. -/
def terminated (ts : List (List Word)) : List Word := ts.flatMap (· ++ [fixed .semicolon])

end Word

namespace Term

open Word

mutual

def words : Term → List Word
  | integer _ n => [.integer n.1.toNat]
  | float _ x => [⟨.float, Decimal.floatLiteral x⟩]
  | string _ s => [⟨.string, Text.literal s.toList⟩]
  | bool _ b => [fixed (if b then .kwTrue else .kwFalse)]
  | unit _ => enclosed .leftParen .rightParen []
  | identifier _ name => [.name name]
  | unary _ op a => fixed op.sign :: grouped (words a)
  | binary _ op a b => grouped (words a) ++ op.joint.map fixed ++ grouped (words b)
  | call _ f as => grouped (words f) ++ enclosed .leftParen .rightParen (items (allWords as))
  | index _ a i => grouped (words a) ++ enclosed .leftBracket .rightBracket (grouped (words i))
  | tuple _ as => enclosed .leftParen .rightParen (items (allWords as) ++ [fixed .comma])
  | array _ as => enclosed .leftBracket .rightBracket (items (allWords as))
  | block _ ts last =>
    enclosed .leftBrace .rightBrace (terminated (allWords ts) ++ (words? last).getD [])
  | conditional _ c t e =>
    fixed .kwIf :: grouped (words c) ++ words t ++
      ((words? e).map (fixed .kwElse :: ·)).getD []
  | binding _ isMutable name a =>
    fixed .kwLet :: (if isMutable then [fixed .kwMut] else []) ++
      .name name :: fixed .assign :: grouped (words a)
  | assign _ op name a => .name name :: fixed op.sign :: grouped (words a)
  | giveBack _ a => fixed .kwReturn :: ((words? a).map grouped).getD []

def allWords : List Term → List (List Word)
  | [] => []
  | t :: ts => words t :: allWords ts

def words? : Option Term → Option (List Word)
  | none => none
  | some t => some (words t)

end

/-- The text of a program. -/
def print (ts : List Term) : List Char := Word.separated (terminated (ts.map words))

/-- Is it a name that is not reserved? -/
def isName (s : String) : Bool :=
  s.toList.head?.any Scan.isWordStart && s.toList.all Scan.isWordPart &&
    (Token.keywords.lookup s).isNone

/-- Where a term stands: among the statements of a body, or inside of an expression. -/
inductive Place where
  | statement
  | operand
deriving DecidableEq

def isBlock : Term → Bool
  | block .. => true
  | _ => false

/-- May the term stand behind `else`? -/
def isBranch : Term → Bool
  | block .. | conditional .. => true
  | _ => false

/-- Can the term be called or indexed? -/
def isCallable : Term → Bool
  | block .. | conditional .. | binding .. => false
  | _ => true

mutual

def printable (place : Place) : Term → Bool
  | integer _ n => decide (0 ≤ n.1)
  | float .. => false
  | string .. | bool .. | unit _ => true
  | identifier _ name => isName name
  | unary _ _ a => printable .operand a
  | binary _ _ a b => printable .operand a && printable .operand b
  | call _ f as => f.isCallable && printable .operand f && allPrintable .operand as
  | index _ a i => a.isCallable && printable .operand a && printable .operand i
  | tuple _ as => !as.isEmpty && allPrintable .operand as
  | array _ as => allPrintable .operand as
  | block _ ts last => allPrintable .statement ts && printable? .statement last
  | conditional _ c t e =>
    printable .operand c && t.isBlock && printable .operand t && e.all isBranch &&
      printable? .operand e
  | binding _ _ name a => isName name && printable .operand a
  | assign _ _ name a => isName name && printable .operand a
  | giveBack _ a => place = .statement && printable? .operand a

def allPrintable (place : Place) : List Term → Bool
  | [] => true
  | t :: ts => printable place t && allPrintable place ts

def printable? (place : Place) : Option Term → Bool
  | none => true
  | some t => printable place t

end

example : print [.conditional {} (.identifier {} "x") (.block {} [] (some (.unit {}))) none] =
    "if ( x ) \x7b ( ) \x7d ;".toList := by
  decide

section Parts

theorem allWords_eq_map (ts : List Term) : allWords ts = ts.map words := by
  induction ts with
  | nil => rfl
  | cons t ts ih => rw [allWords, ih, List.map_cons]

theorem allPrintable_iff {place : Place} {ts : List Term} :
    allPrintable place ts = true ↔ ∀ t ∈ ts, t.printable place = true := by
  induction ts with
  | nil => simp [allPrintable]
  | cons t ts ih => simp [allPrintable, ih]

theorem printable?_iff {place : Place} {t : Option Term} :
    printable? place t = true ↔ ∀ u ∈ t, u.printable place = true := by
  cases t <;> simp [printable?]

/-- The terms that a term is put together from. -/
def parts : Term → List Term
  | integer .. | float .. | string .. | bool .. | unit _ | identifier .. => []
  | unary _ _ a | binding _ _ _ a | assign _ _ _ a => [a]
  | binary _ _ a b | index _ a b => [a, b]
  | call _ f as => f :: as
  | tuple _ as | array _ as => as
  | block _ ts last => ts ++ last.toList
  | conditional _ c t e => c :: t :: e.toList
  | giveBack _ a => a.toList

theorem sizeOf_lt_of_mem_parts {t u : Term} (h : u ∈ t.parts) : sizeOf u < sizeOf t := by
  have hlist {ts : List Term} (hu : u ∈ ts) : sizeOf u < sizeOf ts := List.sizeOf_lt_of_mem hu
  have hoption {t : Option Term} (hu : u ∈ t.toList) : sizeOf u < sizeOf t := by
    obtain rfl := Option.mem_toList.mp hu
    simp only [Option.some.sizeOf_spec]
    omega
  cases t with simp only [parts, List.mem_cons, List.mem_append, List.not_mem_nil, or_false] at h
  | unary | binding | assign =>
    subst h
    simp +arith
  | binary | index => obtain rfl | rfl := h <;> simp +arith
  | call =>
    obtain rfl | hu := h
    · simp +arith
    · exact (hlist hu).trans (by simp +arith)
  | tuple | array => exact (hlist h).trans (by simp +arith)
  | block =>
    obtain hu | hu := h
    · exact (hlist hu).trans (by simp +arith)
    · exact (hoption hu).trans (by simp +arith)
  | conditional =>
    obtain rfl | rfl | hu := h
    · simp +arith
    · simp +arith
    · exact (hoption hu).trans (by simp +arith)
  | giveBack => exact (hoption h).trans (by simp +arith)

/-- What holds of a term when it holds of its parts holds of all terms. -/
theorem induction {motive : Term → Prop} (h : ∀ t, (∀ u ∈ t.parts, motive u) → motive t)
    (t : Term) : motive t := h t fun u _ => induction h u
termination_by sizeOf t
decreasing_by exact sizeOf_lt_of_mem_parts ‹_›

end Parts

end Term

namespace Decimal

theorem digits_toDigits (n : Nat) : Digits (Nat.toDigits 10 n) := by
  refine ⟨Nat.toDigits_ne_nil, fun c hc => ?_⟩
  exact Nat.isDigit_of_mem_toDigits (by decide) (by decide) hc

theorem natOfDigits_toDigits (n : Nat) : natOfDigits (Nat.toDigits 10 n) = n :=
  Nat.ofDigitChars_toDigits (by decide) (by decide)

end Decimal

namespace Word

theorem whole_fixed {k : Token.Kind} (h : k.spelling ≠ []) : (fixed k).Whole := by
  have hkeywords : ∀ e ∈ Token.keywords, e.1.toList.head?.any Scan.isWordStart = true ∧
      e.1.toList.all Scan.isWordPart = true ∧ Token.wordKind e.1 = e.2 := by
    decide
  unfold fixed
  unfold Token.Kind.spelling at h ⊢
  cases hword : Token.keywords.find? (·.2 = k) with
  | some e =>
    have hk : e.2 = k := by simpa using List.find?_some hword
    obtain ⟨hstart, hparts, hkind⟩ := hkeywords e (List.mem_of_find?_eq_some hword)
    rw [← hk, ← hkind]
    exact .word hstart hparts
  | none =>
    cases hglyph : Token.operators.find? (·.2 = k) with
    | none => simp [hword, hglyph] at h
    | some e =>
      have hk : e.2 = k := by simpa using List.find?_some hglyph
      rw [← hk]
      exact .operator (List.mem_of_find?_eq_some hglyph)

theorem whole_name {s : String} (h : Term.isName s = true) : (name s).Whole := by
  simp only [Term.isName, Bool.and_eq_true, Option.isNone_iff_eq_none] at h
  have hkind : Token.wordKind s = .identifier := by rw [Token.wordKind, h.2, Option.getD_none]
  rw [name, ← hkind]
  exact .word h.1.1 h.1.2

/-- A minus may have digits behind it, which do not make another operator with it. -/
theorem stands_minus {digits rest : List Char} (hdigits : Decimal.Digits digits) :
    (fixed .minus).Stands (digits ++ rest) := by
  have hglyph : (['-'], Token.Kind.minus) ∈ Token.operators := by decide
  obtain ⟨d, ds, hd⟩ := List.exists_cons_of_ne_nil hdigits.1
  refine Scan.stands_operator hglyph fun c hc => ?_
  rw [hd] at hc
  obtain rfl := Option.some.inj hc
  have hdigit : Decimal.isDigit d = true := hdigits.2 d (hd ▸ List.mem_cons_self)
  have hne : d ≠ '=' := by
    rintro rfl
    exact absurd hdigit (by decide)
  have hspelling : Token.Kind.minus.spelling = ['-'] := by decide
  simp [Scan.prolongs, Token.operators, hspelling, hne.symm]

theorem whole_integer (n : Nat) : (integer n).Whole := .integer (Decimal.digits_toDigits n)

/-- Is every word the text of a token? -/
def AllWhole (ws : List Word) : Prop := ∀ w ∈ ws, w.Whole

section Whole

variable {ws vs : List Word} {as : List (List Word)}

@[simp] theorem allWhole_nil : AllWhole [] := fun _ h => absurd h List.not_mem_nil

@[simp] theorem allWhole_cons {w : Word} : AllWhole (w :: ws) ↔ w.Whole ∧ AllWhole ws :=
  List.forall_mem_cons

@[simp] theorem allWhole_append : AllWhole (ws ++ vs) ↔ AllWhole ws ∧ AllWhole vs :=
  List.forall_mem_append

theorem AllWhole.enclosed {opening closing : Token.Kind} (hopening : opening.spelling ≠ [])
    (hclosing : closing.spelling ≠ []) (h : AllWhole ws) :
    AllWhole (enclosed opening closing ws) := by
  rw [Word.enclosed, allWhole_append, allWhole_cons, allWhole_cons]
  exact ⟨⟨whole_fixed hopening, h⟩, whole_fixed hclosing, allWhole_nil⟩

theorem AllWhole.grouped (h : AllWhole ws) : AllWhole (grouped ws) :=
  h.enclosed (by decide) (by decide)

theorem AllWhole.items (h : ∀ ws ∈ as, AllWhole ws) : AllWhole (items as) := by
  induction as with
  | nil => exact allWhole_nil
  | cons ws as ih =>
    obtain ⟨hws, has⟩ := List.forall_mem_cons.mp h
    cases as with
    | nil =>
      rw [items_singleton]
      exact hws.grouped
    | cons vs as =>
      rw [items_cons_cons, allWhole_append, allWhole_cons]
      exact ⟨hws.grouped, whole_fixed (by decide), ih has⟩

theorem AllWhole.terminated (h : ∀ ws ∈ as, AllWhole ws) : AllWhole (terminated as) := by
  intro w hw
  obtain ⟨ws, hws, hw⟩ := List.mem_flatMap.mp hw
  have hall : AllWhole (ws ++ [fixed .semicolon]) := by
    rw [allWhole_append, allWhole_cons]
    exact ⟨h ws hws, whole_fixed (by decide), allWhole_nil⟩
  exact hall w hw

end Whole

end Word

namespace Term

open Word

theorem allWhole_joint (op : BinaryOp) : AllWhole (op.joint.map fixed) := by
  have hspelling : ∀ k ∈ op.joint, k.spelling ≠ [] := by
    rcases op with op | _
    · cases op <;> decide
    all_goals decide
  intro w hw
  obtain ⟨k, hk, rfl⟩ := List.mem_map.mp hw
  exact whole_fixed (hspelling k hk)

theorem allWhole_words (t : Term) : ∀ place, t.printable place = true → AllWhole t.words := by
  induction t using Term.induction with
  | _ t ih =>
  have hall {place : Place} {ts : List Term} (hts : ts ⊆ t.parts)
      (h : allPrintable place ts = true) : ∀ ws ∈ allWords ts, AllWhole ws := by
    rw [allWords_eq_map]
    intro ws hws
    obtain ⟨u, hu, rfl⟩ := List.mem_map.mp hws
    exact ih u (hts hu) place (allPrintable_iff.mp h u hu)
  intro place h
  cases t with
  | integer p n =>
    rw [words, allWhole_cons]
    exact ⟨whole_integer _, allWhole_nil⟩
  | float => cases h
  | string p s =>
    rw [words, allWhole_cons]
    exact ⟨.string _, allWhole_nil⟩
  | bool p b =>
    rw [words, allWhole_cons]
    exact ⟨whole_fixed (by cases b <;> decide), allWhole_nil⟩
  | unit => exact allWhole_nil.enclosed (by decide) (by decide)
  | identifier p name =>
    rw [words, allWhole_cons]
    exact ⟨whole_name h, allWhole_nil⟩
  | unary p op a =>
    rw [words, allWhole_cons]
    exact ⟨whole_fixed (by cases op <;> decide), (ih a (by simp [parts]) .operand h).grouped⟩
  | binary p op a b =>
    simp only [printable, Bool.and_eq_true] at h
    rw [words, allWhole_append, allWhole_append]
    exact ⟨⟨(ih a (by simp [parts]) .operand h.1).grouped, allWhole_joint op⟩,
      (ih b (by simp [parts]) .operand h.2).grouped⟩
  | call p f as =>
    simp only [printable, Bool.and_eq_true] at h
    rw [words, allWhole_append]
    exact ⟨(ih f (by simp [parts]) .operand h.1.2).grouped,
      (AllWhole.items (hall (by simp [parts]) h.2)).enclosed (by decide) (by decide)⟩
  | index p a i =>
    simp only [printable, Bool.and_eq_true] at h
    rw [words, allWhole_append]
    exact ⟨(ih a (by simp [parts]) .operand h.1.2).grouped,
      (ih i (by simp [parts]) .operand h.2).grouped.enclosed (by decide) (by decide)⟩
  | tuple p as =>
    simp only [printable, Bool.and_eq_true] at h
    refine AllWhole.enclosed (by decide) (by decide) ?_
    rw [allWhole_append, allWhole_cons]
    exact ⟨.items (hall (by simp [parts]) h.2), whole_fixed (by decide), allWhole_nil⟩
  | array p as => exact (AllWhole.items (hall (by simp [parts]) h)).enclosed (by decide) (by decide)
  | block p ts last =>
    simp only [printable, Bool.and_eq_true] at h
    refine AllWhole.enclosed (by decide) (by decide) ?_
    rw [allWhole_append]
    refine ⟨.terminated (hall (by simp [parts]) h.1), ?_⟩
    cases last with
    | none => exact allWhole_nil
    | some t => exact ih t (by simp [parts]) .statement h.2
  | conditional p c t e =>
    simp only [printable, Bool.and_eq_true] at h
    rw [words, allWhole_append, allWhole_append, allWhole_cons]
    refine ⟨⟨⟨whole_fixed (by decide), (ih c (by simp [parts]) .operand h.1.1.1.1).grouped⟩,
      ih t (by simp [parts]) .operand h.1.1.2⟩, ?_⟩
    cases e with
    | none => exact allWhole_nil
    | some e => exact allWhole_cons.mpr ⟨whole_fixed (by decide), ih e (by simp [parts]) .operand h.2⟩
  | binding p isMutable name a =>
    simp only [printable, Bool.and_eq_true] at h
    rw [words, allWhole_append, allWhole_cons, allWhole_cons, allWhole_cons]
    refine ⟨⟨whole_fixed (by decide), ?_⟩, whole_name h.1, whole_fixed (by decide),
      (ih a (by simp [parts]) .operand h.2).grouped⟩
    cases isMutable with
    | false => exact allWhole_nil
    | true => exact allWhole_cons.mpr ⟨whole_fixed (by decide), allWhole_nil⟩
  | assign p op name a =>
    simp only [printable, Bool.and_eq_true] at h
    rw [words, allWhole_cons, allWhole_cons]
    refine ⟨whole_name h.1, whole_fixed ?_, (ih a (by simp [parts]) .operand h.2).grouped⟩
    rcases op with _ | op
    · decide
    · cases op <;> decide
  | giveBack p a =>
    simp only [printable, Bool.and_eq_true] at h
    rw [words, allWhole_cons]
    refine ⟨whole_fixed (by decide), ?_⟩
    cases a with
    | none => exact allWhole_nil
    | some a => exact (ih a (by simp [parts]) .operand h.2).grouped

/-- The text of a program is lexed into the words that it was put together from. -/
theorem lex_print {ts : List Term} (h : ∀ t ∈ ts, t.printable .statement = true) :
    (lex (print ts)).1.map Token.word = terminated (ts.map words) ∧
      (lex (print ts)).2.diagnostics = [] := by
  refine lex_separated (AllWhole.terminated fun ws hws => ?_)
  obtain ⟨t, ht, rfl⟩ := List.mem_map.mp hws
  exact allWhole_words t .statement (h t ht)

end Term

end Scriptlet
