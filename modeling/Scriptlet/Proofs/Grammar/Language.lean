import Scriptlet.Grammar.Rule
import Scriptlet.Proofs.Token.Numeral

/-!
# The grammar of the language

The grammar as a relation between lists of tokens and trees, which says nothing about how
a text is read: no token is looked at ahead, and each rule takes its tokens wherever they
are split. From loosest to tightest the levels are assignment, `or`, `and`, equality, sums,
products, prefix operators, calls and indexes, operands.

A tree has the position of its first token, parentheses around an expression apart.
-/

namespace Scriptlet

open Grammar (binaryNode)

namespace Language

def assignments : List (Token.Kind × AssignOp) := [
  (.assign, .replace), (.plusAssign, .combine .add), (.minusAssign, .combine .sub),
  (.timesAssign, .combine .mul), (.divideAssign, .combine .div)]

/-- The joints of comparisons and tests, one of which has two words. -/
def equalities : List (List Token.Kind × BinaryOp) := [
  ([.equal], .equal), ([.notEqual], .notEqual), ([.kwIn], .member), ([.kwNot, .kwIn], .notMember)]

def sums : List (Token.Kind × BinaryOp) := [
  (.plus, .arithmetic .add), (.minus, .arithmetic .sub)]

def products : List (Token.Kind × BinaryOp) := [
  (.times, .arithmetic .mul), (.divide, .arithmetic .div)]

def prefixes : List (Token.Kind × UnaryOp) := [
  (.minus, .negate), (.bang, .not), (.kwNot, .not)]

/-- Integers are in range, and floats are finite. -/
inductive Atom (t : Token) : Node → Prop where
  | integer : t.kind = .integer → Decimal.Digits t.lexeme.toList →
      (Decimal.natOfDigits t.lexeme.toList : Int) ≤ Value.greatestInteger →
      Atom t (.make .integer t.position (.int (Decimal.natOfDigits t.lexeme.toList)) [])
  | float {whole fraction : List Char} : t.kind = .float →
      t.lexeme.toList = whole ++ '.' :: fraction → Decimal.Digits whole →
      (∀ c ∈ fraction, Decimal.isDigit c = true) →
      (Decimal.Numeral.mk false whole fraction none).toFloat.isInf = false →
      Atom t (.make .float t.position
        (.float (Decimal.Numeral.mk false whole fraction none).toFloat) [])
  | string : t.kind = .string →
      Atom t (.make .string t.position (.text (String.ofList (Text.unescape t.lexeme.toList))) [])
  | true : t.kind = .kwTrue → Atom t (.make .bool t.position (.bool Bool.true) [])
  | false : t.kind = .kwFalse → Atom t (.make .bool t.position (.bool Bool.false) [])
  | identifier : t.kind = .identifier → Atom t (.make .identifier t.position (.text t.lexeme) [])

/-- What a list of tokens is to be, together with its trees. The body of a program or of
a block has the statement that ends it without a semicolon apart from the others; items
come with whether there is a comma among them. -/
inductive Phrase where
  | body (statements : List Node) (last : Option Node)
  | statement (n : Node)
  | binding (n : Node)
  | expression (n : Node)
  | disjunction (n : Node)
  | conjunction (n : Node)
  | equality (n : Node)
  | sum (n : Node)
  | product (n : Node)
  | prefixed (n : Node)
  | applied (n : Node)
  | callee (n : Node)
  | operand (n : Node)
  | items (read : List Node) (comma : Bool)
  | block (n : Node)
  | conditional (n : Node)
  | branch (n : Node)

/-- The trees of a phrase. -/
def Phrase.nodes : Phrase → List Node
  | body ns last => ns ++ last.toList
  | items read _ => read
  | statement n | binding n | expression n | disjunction n | conjunction n | equality n | sum n
  | product n | prefixed n | applied n | callee n | operand n | block n | conditional n
  | branch n => [n]

inductive Derives : Phrase → List Token → Prop where
  -- Bodies
  | empty : Derives (.body [] none) []
  | separator {semicolon ts ns last} : semicolon.kind = .semicolon →
      Derives (.body ns last) ts → Derives (.body ns last) (semicolon :: ts)
  | terminated {n ts semicolon ns last rest} : Derives (.statement n) ts →
      semicolon.kind = .semicolon → Derives (.body ns last) rest →
      Derives (.body (n :: ns) last) (ts ++ semicolon :: rest)
  | unterminated {n ts ns last rest} : Derives (.statement n) ts → n.isBlockLike = true →
      Derives (.body ns last) rest → rest ≠ [] → Derives (.body (n :: ns) last) (ts ++ rest)
  | last {n ts} : Derives (.statement n) ts → Derives (.body [] (some n)) ts
  -- Statements
  | bindingStatement {n ts} : Derives (.binding n) ts → Derives (.statement n) ts
  | bareReturn {keyword} : keyword.kind = .kwReturn →
      Derives (.statement (.make .giveBack keyword.position .absent [])) [keyword]
  | returnOf {keyword n ts} : keyword.kind = .kwReturn → Derives (.expression n) ts →
      Derives (.statement (.make .giveBack keyword.position .absent [n])) (keyword :: ts)
  | expressionStatement {n ts} : Derives (.expression n) ts → Derives (.statement n) ts
  | immutable {keyword name equals n ts} : keyword.kind = .kwLet → name.kind = .identifier →
      equals.kind = .assign → Derives (.expression n) ts →
      Derives (.binding (.make .binding keyword.position (.text name.lexeme) [n]))
        (keyword :: name :: equals :: ts)
  | mutable {keyword marker name equals n ts} : keyword.kind = .kwLet → marker.kind = .kwMut →
      name.kind = .identifier → equals.kind = .assign → Derives (.expression n) ts →
      Derives (.binding { Node.make .binding keyword.position (.text name.lexeme) [n] with
        isMutable := true }) (keyword :: marker :: name :: equals :: ts)
  -- Operators
  | expression {n ts} : Derives (.disjunction n) ts → Derives (.expression n) ts
  | assignment {l ts sign op r rest} : Derives (.disjunction l) ts → l.kind = .identifier →
      (sign.kind, op) ∈ assignments → Derives (.expression r) rest →
      Derives (.expression (.make .assign l.position (.text op.name) [l, r])) (ts ++ sign :: rest)
  | disjunction {n ts} : Derives (.conjunction n) ts → Derives (.disjunction n) ts
  | or {l ts joint r rest} : Derives (.disjunction l) ts → joint.kind = .kwOr →
      Derives (.conjunction r) rest →
      Derives (.disjunction (binaryNode .or l r)) (ts ++ joint :: rest)
  | conjunction {n ts} : Derives (.equality n) ts → Derives (.conjunction n) ts
  | and {l ts joint r rest} : Derives (.conjunction l) ts → joint.kind = .kwAnd →
      Derives (.equality r) rest →
      Derives (.conjunction (binaryNode .and l r)) (ts ++ joint :: rest)
  | equality {n ts} : Derives (.sum n) ts → Derives (.equality n) ts
  | compare {l ts joint op r rest} : Derives (.sum l) ts →
      (joint.map Token.kind, op) ∈ equalities → Derives (.equality r) rest →
      Derives (.equality (binaryNode op l r)) (ts ++ joint ++ rest)
  | sum {n ts} : Derives (.product n) ts → Derives (.sum n) ts
  | add {l ts joint op r rest} : Derives (.product l) ts → (joint.kind, op) ∈ sums →
      Derives (.sum r) rest → Derives (.sum (binaryNode op l r)) (ts ++ joint :: rest)
  | product {n ts} : Derives (.prefixed n) ts → Derives (.product n) ts
  | multiply {l ts joint op r rest} : Derives (.prefixed l) ts → (joint.kind, op) ∈ products →
      Derives (.product r) rest → Derives (.product (binaryNode op l r)) (ts ++ joint :: rest)
  | prefixed {n ts} : Derives (.applied n) ts → Derives (.prefixed n) ts
  | unary {sign op n ts} : (sign.kind, op) ∈ prefixes → Derives (.prefixed n) ts →
      Derives (.prefixed (.make .unary sign.position (.text op.name) [n])) (sign :: ts)
  -- Calls and indexes
  | applied {n ts} : Derives (.callee n) ts → Derives (.applied n) ts
  | unapplied {n ts} : Derives (.operand n) ts → n.isBlockLike = true ∨ n.kind = .binding →
      Derives (.applied n) ts
  | callee {n ts} : Derives (.operand n) ts → n.isBlockLike = false → n.kind ≠ .binding →
      Derives (.callee n) ts
  | call {n ts opening read comma inner closing} : Derives (.callee n) ts →
      opening.kind = .leftParen → Derives (.items read comma) inner →
      closing.kind = .rightParen →
      Derives (.callee (.make .call n.position (.node n) read)) (ts ++ opening :: inner ++ [closing])
  | index {n ts opening i inner closing} : Derives (.callee n) ts →
      opening.kind = .leftBracket → Derives (.expression i) inner →
      closing.kind = .rightBracket →
      Derives (.callee (.make .index n.position .absent [n, i])) (ts ++ opening :: inner ++ [closing])
  -- Operands
  | atom {t n} : Atom t n → Derives (.operand n) [t]
  | unit {opening closing} : opening.kind = .leftParen → closing.kind = .rightParen →
      Derives (.operand (.make .unit opening.position .absent [])) [opening, closing]
  | grouped {opening n ts closing} : opening.kind = .leftParen → Derives (.expression n) ts →
      closing.kind = .rightParen → Derives (.operand n) (opening :: ts ++ [closing])
  | tuple {opening read ts closing} : opening.kind = .leftParen → Derives (.items read true) ts →
      closing.kind = .rightParen →
      Derives (.operand (.make .tuple opening.position .absent read)) (opening :: ts ++ [closing])
  | array {opening read comma ts closing} : opening.kind = .leftBracket →
      Derives (.items read comma) ts → closing.kind = .rightBracket →
      Derives (.operand (.make .array opening.position .absent read)) (opening :: ts ++ [closing])
  | blockOperand {n ts} : Derives (.block n) ts → Derives (.operand n) ts
  | conditionalOperand {n ts} : Derives (.conditional n) ts → Derives (.operand n) ts
  | bindingOperand {n ts} : Derives (.binding n) ts → Derives (.operand n) ts
  -- Items
  | noItems : Derives (.items [] false) []
  | lastItem {n ts} : Derives (.expression n) ts → Derives (.items [n] false) ts
  | item {n ts comma ns commas rest} : Derives (.expression n) ts → comma.kind = .comma →
      Derives (.items ns commas) rest → Derives (.items (n :: ns) true) (ts ++ comma :: rest)
  -- Blocks
  | block {opening ns last ts closing} : opening.kind = .leftBrace → Derives (.body ns last) ts →
      closing.kind = .rightBrace →
      Derives (.block (.make .block opening.position (last.elim .absent .node) ns))
        (opening :: ts ++ [closing])
  | ifThen {keyword c ts t inner} : keyword.kind = .kwIf → Derives (.expression c) ts →
      Derives (.block t) inner →
      Derives (.conditional (.make .conditional keyword.position .absent [c, t]))
        (keyword :: ts ++ inner)
  | ifThenElse {keyword c ts t inner otherwise e rest} : keyword.kind = .kwIf →
      Derives (.expression c) ts → Derives (.block t) inner → otherwise.kind = .kwElse →
      Derives (.branch e) rest →
      Derives (.conditional { Node.make .conditional keyword.position .absent [c, t] with
        elseBranch := [e] }) (keyword :: ts ++ inner ++ otherwise :: rest)
  | elseBlock {n ts} : Derives (.block n) ts → Derives (.branch n) ts
  | elseIf {n ts} : Derives (.conditional n) ts → Derives (.branch n) ts

/-- The tokens of a program and its statements. -/
def Program (tokens : List Token) (statements : List Node) : Prop :=
  ∃ ns last, statements = ns ++ last.toList ∧ Derives (.body ns last) tokens

/-- Are the tokens of the kind neither integers nor braces? -/
def IsPlain (k : Token.Kind) : Prop := k ∉ [.integer, .leftBrace, .rightBrace]

instance (k : Token.Kind) : Decidable (IsPlain k) := inferInstanceAs (Decidable (k ∉ _))

/-- What it takes for a property to hold of the tokens of all phrases: it holds of a single
atom or plain token, of lists one behind the other, and of a list between braces. -/
structure Compositional (P : List Token → Prop) : Prop where
  nil : P []
  append {ts us : List Token} : P ts → P us → P (ts ++ us)
  atom {t : Token} {n : Node} : Atom t n → P [t]
  plain {t : Token} : IsPlain t.kind → P [t]
  braces {opening closing : Token} {ts : List Token} : opening.kind = .leftBrace → P ts →
    closing.kind = .rightBrace → P (opening :: ts ++ [closing])

namespace Compositional

variable {P : List Token → Prop} {t u : Token} {ts us : List Token} (hP : Compositional P)

include hP

theorem cons (ht : IsPlain t.kind) (hts : P ts) : P (t :: ts) := hP.append (hP.plain ht) hts

theorem concat (hts : P ts) (ht : IsPlain t.kind) : P (ts ++ [t]) := hP.append hts (hP.plain ht)

theorem joint (hts : P ts) (ht : IsPlain t.kind) (hus : P us) : P (ts ++ t :: us) :=
  hP.append hts (hP.cons ht hus)

theorem all_plain (h : ∀ t ∈ ts, IsPlain t.kind) : P ts := by
  induction ts with
  | nil => exact hP.nil
  | cons t ts ih =>
    obtain ⟨ht, hts⟩ := List.forall_mem_cons.mp h
    exact hP.cons ht (ih hts)

end Compositional

theorem isPlain_assignment {k : Token.Kind} {op : AssignOp} (h : (k, op) ∈ assignments) :
    IsPlain k := by
  have hall : ∀ e ∈ assignments, IsPlain e.1 := by decide
  exact hall _ h

theorem isPlain_equality {joint : List Token} {op : BinaryOp}
    (h : (joint.map Token.kind, op) ∈ equalities) : ∀ t ∈ joint, IsPlain t.kind := by
  have hall : ∀ e ∈ equalities, ∀ k ∈ e.1, IsPlain k := by decide
  exact fun t ht => hall _ h _ (List.mem_map_of_mem ht)

theorem isPlain_sum {k : Token.Kind} {op : BinaryOp} (h : (k, op) ∈ sums) : IsPlain k := by
  have hall : ∀ e ∈ sums, IsPlain e.1 := by decide
  exact hall _ h

theorem isPlain_product {k : Token.Kind} {op : BinaryOp} (h : (k, op) ∈ products) : IsPlain k := by
  have hall : ∀ e ∈ products, IsPlain e.1 := by decide
  exact hall _ h

theorem isPlain_prefixes {k : Token.Kind} {op : UnaryOp} (h : (k, op) ∈ prefixes) : IsPlain k := by
  have hall : ∀ e ∈ prefixes, IsPlain e.1 := by decide
  exact hall _ h

/-- A compositional property holds of the tokens of every phrase. -/
theorem Derives.tokens {P : List Token → Prop} (hP : Compositional P) {phrase : Phrase}
    {ts : List Token} (h : Derives phrase ts) : P ts := by
  have hplain {t : Token} {k : Token.Kind} (h : t.kind = k) (hk : IsPlain k) : IsPlain t.kind :=
    h ▸ hk
  induction h with
  | empty | noItems => exact hP.nil
  | separator hsemicolon _ ih => exact hP.cons (hplain hsemicolon (by decide)) ih
  | terminated _ hsemicolon _ ihn ih => exact hP.joint ihn (hplain hsemicolon (by decide)) ih
  | unterminated _ _ _ _ ihn ih => exact hP.append ihn ih
  | bareReturn hkeyword => exact hP.plain (hplain hkeyword (by decide))
  | returnOf hkeyword _ ih => exact hP.cons (hplain hkeyword (by decide)) ih
  | immutable hlet hname hequals _ ih =>
    have hvalue := hP.cons (hplain hequals (by decide)) ih
    exact hP.cons (hplain hlet (by decide)) (hP.cons (hplain hname (by decide)) hvalue)
  | mutable hlet hmut hname hequals _ ih =>
    have hvalue := hP.cons (hplain hequals (by decide)) ih
    have hnamed := hP.cons (hplain hname (by decide)) hvalue
    exact hP.cons (hplain hlet (by decide)) (hP.cons (hplain hmut (by decide)) hnamed)
  | assignment _ _ hsign _ ihl ihr => exact hP.joint ihl (isPlain_assignment hsign) ihr
  | or _ hjoint _ ihl ihr | and _ hjoint _ ihl ihr =>
    exact hP.joint ihl (hplain hjoint (by decide)) ihr
  | compare _ hjoint _ ihl ihr =>
    exact hP.append (hP.append ihl (hP.all_plain (isPlain_equality hjoint))) ihr
  | add _ hjoint _ ihl ihr => exact hP.joint ihl (isPlain_sum hjoint) ihr
  | multiply _ hjoint _ ihl ihr => exact hP.joint ihl (isPlain_product hjoint) ihr
  | unary hsign _ ih => exact hP.cons (isPlain_prefixes hsign) ih
  | call _ hopening _ hclosing ihn ih | index _ hopening _ hclosing ihn ih =>
    have happlied := hP.joint ihn (hplain hopening (by decide)) ih
    exact hP.concat happlied (hplain hclosing (by decide))
  | atom hatom => exact hP.atom hatom
  | unit hopening hclosing =>
    exact hP.cons (hplain hopening (by decide)) (hP.plain (hplain hclosing (by decide)))
  | grouped hopening _ hclosing ih | tuple hopening _ hclosing ih | array hopening _ hclosing ih =>
    exact hP.concat (hP.cons (hplain hopening (by decide)) ih) (hplain hclosing (by decide))
  | item _ hcomma _ ihn ih => exact hP.joint ihn (hplain hcomma (by decide)) ih
  | block hopening _ hclosing ih => exact hP.braces hopening ih hclosing
  | ifThen hkeyword _ _ ihc iht => exact hP.append (hP.cons (hplain hkeyword (by decide)) ihc) iht
  | ifThenElse hkeyword _ _ helse _ ihc iht ihe =>
    have hthen := hP.append (hP.cons (hplain hkeyword (by decide)) ihc) iht
    exact hP.joint hthen (hplain helse (by decide)) ihe
  -- The other rules have the tokens of their part.
  | _ => assumption

/-- Is the token no integer, or one that is in range? -/
def Holdable (t : Token) : Prop :=
  t.kind = .integer → Decimal.natOfDigits t.lexeme.toList ≤ Value.greatestInteger

theorem Atom.holdable {t : Token} {n : Node} (h : Atom t n) : Holdable t := by
  intro hk
  cases h with
  | integer _ _ hrange => exact Int.ofNat_le.mp hrange
  | _ => simp_all

theorem holdable_of_isPlain {t : Token} (h : IsPlain t.kind) : Holdable t :=
  fun hk => absurd (hk ▸ h) (by decide)

theorem compositional_holdable : Compositional fun ts => ∀ t ∈ ts, Holdable t where
  nil := nofun
  append hts hus := List.forall_mem_append.mpr ⟨hts, hus⟩
  atom hatom := List.forall_mem_singleton.mpr hatom.holdable
  plain hplain := List.forall_mem_singleton.mpr (holdable_of_isPlain hplain)
  braces hopening hts hclosing := by
    have hfirst : Holdable _ := nofun ∘ hopening.symm.trans
    have hlast : Holdable _ := nofun ∘ hclosing.symm.trans
    exact List.forall_mem_append.mpr
      ⟨List.forall_mem_cons.mpr ⟨hfirst, hts⟩, List.forall_mem_singleton.mpr hlast⟩

/-- No phrase has an integer in it that is out of range. -/
theorem Derives.holdable {phrase : Phrase} {ts : List Token} (h : Derives phrase ts) :
    ∀ t ∈ ts, Holdable t := h.tokens compositional_holdable

end Language

end Scriptlet
