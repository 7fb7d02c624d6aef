import Scriptlet.Operator
import Scriptlet.Proofs.Tree.Errors
import Scriptlet.Value

/-!
# Terms

The abstract syntax of the language, in which each form has exactly its own parts:
no operator without a name that it goes by, no integer beyond 64 bits. `toNode` is the
tree of a term. Whatever trees hold an error or are trees of terms can be put together
to a tree of which this holds again.
-/

namespace Scriptlet

/-- A position is that of the token which the form starts at. -/
inductive Term where
  | integer (p : Position) (n : { n : Int // Value.inRange n = true })
  | float (p : Position) (x : Float)
  | string (p : Position) (s : String)
  | bool (p : Position) (b : Bool)
  | unit (p : Position)
  | identifier (p : Position) (name : String)
  | unary (p : Position) (op : UnaryOp) (operand : Term)
  | binary (p : Position) (op : BinaryOp) (left right : Term)
  | call (p : Position) (callee : Term) (arguments : List Term)
  | index (p : Position) (subject place : Term)
  | tuple (p : Position) (items : List Term)
  | array (p : Position) (items : List Term)
  | block (p : Position) (statements : List Term) (last : Option Term)
  | conditional (p : Position) (condition thenBlock : Term) (otherwise : Option Term)
  | binding (p : Position) (isMutable : Bool) (name : String) (value : Term)
  | assign (p : Position) (op : AssignOp) (name : String) (source : Term)
  | giveBack (p : Position) (value : Option Term)

namespace Term

/-- The tree of a name. -/
def nameNode (p : Position) (name : String) : Node := .make .identifier p (.text name) []

mutual

def toNode : Term → Node
  | integer p n => .make .integer p (.int n) []
  | float p x => .make .float p (.float x) []
  | string p s => .make .string p (.text s) []
  | bool p b => .make .bool p (.bool b) []
  | unit p => .make .unit p .absent []
  | identifier p name => nameNode p name
  | unary p op a => .make .unary p (.text op.name) [toNode a]
  | binary p op a b => .make .binary p (.text op.name) [toNode a, toNode b]
  | call p f as => .make .call p (.node (toNode f)) (toNodes as)
  | index p a i => .make .index p .absent [toNode a, toNode i]
  | tuple p as => .make .tuple p .absent (toNodes as)
  | array p as => .make .array p .absent (toNodes as)
  | block p ts last => .make .block p ((toNode? last).elim .absent .node) (toNodes ts)
  | conditional p c t e =>
    { Node.make .conditional p .absent [toNode c, toNode t] with elseBranch := (toNode? e).toList }
  | binding p isMutable name a =>
    { Node.make .binding p (.text name) [toNode a] with isMutable }
  | assign p op name a => .make .assign p (.text op.name) [nameNode p name, toNode a]
  | giveBack p a => .make .giveBack p .absent (toNode? a).toList

def toNodes : List Term → List Node
  | [] => []
  | t :: ts => toNode t :: toNodes ts

def toNode? : Option Term → Option Node
  | none => none
  | some t => some (toNode t)

end

def position (t : Term) : Position := t.toNode.position

end Term

open Node (containsErrors)

/-- Does the tree hold an error, or is it that of a term? -/
def Proper (n : Node) : Prop := containsErrors [n] = true ∨ ∃ t : Term, t.toNode = n

def AllProper (ns : List Node) : Prop := ∀ n ∈ ns, Proper n

@[simp] theorem allProper_nil : AllProper [] := fun _ h => absurd h List.not_mem_nil

@[simp] theorem allProper_cons (n : Node) (ns : List Node) :
    AllProper (n :: ns) ↔ Proper n ∧ AllProper ns := List.forall_mem_cons

theorem allProper_singleton {n : Node} : AllProper [n] ↔ Proper n := List.forall_mem_singleton

@[simp] theorem allProper_append (ms ns : List Node) :
    AllProper (ms ++ ns) ↔ AllProper ms ∧ AllProper ns := List.forall_mem_append

theorem proper_toNode (t : Term) : Proper t.toNode := .inr ⟨t, rfl⟩

theorem Proper.of_isError {n : Node} (h : n.isError = true) : Proper n :=
  .inl (Node.containsErrors_of_isError h)

theorem AllProper.terms {ns : List Node} (h : AllProper ns) :
    containsErrors ns = true ∨ ∃ ts : List Term, Term.toNodes ts = ns := by
  induction ns with
  | nil => exact .inr ⟨[], rfl⟩
  | cons n ns ih =>
    rw [allProper_cons] at h
    rw [Node.containsErrors_cons]
    rcases h.1 with hn | ⟨t, rfl⟩
    · exact .inl (by rw [hn, Bool.true_or])
    · rcases ih h.2 with hns | ⟨ts, rfl⟩
      · exact .inl (by rw [hns, Bool.or_true])
      · exact .inr ⟨t :: ts, rfl⟩

/-- It is enough to find a term for parts that are trees of terms. -/
theorem proper_of_parts {n : Node} (hparts : AllProper n.parts)
    (hterm : ∀ ts, Term.toNodes ts = n.parts → ∃ t : Term, t.toNode = n) : Proper n := by
  rcases hparts.terms with herrors | ⟨ts, hts⟩
  · exact .inl (by rw [Node.containsErrors_singleton, herrors, Bool.or_true])
  · exact .inr (hterm ts hts)

section Parts

variable {p : Position} {a b : Node} {ns : List Node}

theorem toNodes_eq_cons {ts : List Term} (h : Term.toNodes ts = a :: ns) :
    ∃ (t : Term) (rest : List Term), t.toNode = a ∧ Term.toNodes rest = ns := by
  cases ts with
  | nil => cases h
  | cons t rest => exact ⟨t, rest, List.cons.inj h⟩

theorem toNodes_eq_toList {ts : List Term} {n : Option Node} (h : Term.toNodes ts = n.toList) :
    ∃ t : Option Term, Term.toNode? t = n := by
  cases n with
  | none => exact ⟨none, rfl⟩
  | some n =>
    obtain ⟨t, -, rfl, -⟩ := toNodes_eq_cons h
    exact ⟨some t, rfl⟩

theorem proper_unary (op : UnaryOp) (ha : Proper a) :
    Proper (.make .unary p (.text op.name) [a]) := by
  refine proper_of_parts (by simpa [Node.parts, Node.make, Node.ofValue]) fun ts hts => ?_
  obtain ⟨t, -, rfl, -⟩ := toNodes_eq_cons hts
  exact ⟨.unary p op t, rfl⟩

theorem proper_binary (op : BinaryOp) (ha : Proper a) (hb : Proper b) :
    Proper (.make .binary p (.text op.name) [a, b]) := by
  refine proper_of_parts (by simp [Node.parts, Node.make, Node.ofValue, ha, hb]) fun ts hts => ?_
  obtain ⟨l, rest, rfl, hrest⟩ := toNodes_eq_cons hts
  obtain ⟨r, -, rfl, -⟩ := toNodes_eq_cons hrest
  exact ⟨.binary p op l r, rfl⟩

theorem proper_call (ha : Proper a) (hns : AllProper ns) :
    Proper (.make .call p (.node a) ns) := by
  refine proper_of_parts (by simpa [Node.parts, Node.make, Node.ofValue, ha]) fun ts hts => ?_
  have hparts : Term.toNodes ts = a :: ns := hts.trans (congrArg (a :: ·) (List.append_nil ns))
  obtain ⟨f, rest, rfl, rfl⟩ := toNodes_eq_cons hparts
  exact ⟨.call p f rest, rfl⟩

theorem proper_index (ha : Proper a) (hb : Proper b) :
    Proper (.make .index p .absent [a, b]) := by
  refine proper_of_parts (by simp [Node.parts, Node.make, Node.ofValue, ha, hb]) fun ts hts => ?_
  obtain ⟨l, rest, rfl, hrest⟩ := toNodes_eq_cons hts
  obtain ⟨r, -, rfl, -⟩ := toNodes_eq_cons hrest
  exact ⟨.index p l r, rfl⟩

theorem parts_of_absent (k : Node.Kind) (p : Position) (ns : List Node) :
    (Node.make k p .absent ns).parts = ns := List.append_nil ns

theorem proper_tuple (hns : AllProper ns) : Proper (.make .tuple p .absent ns) := by
  refine proper_of_parts (by rwa [parts_of_absent]) fun ts hts => ?_
  exact ⟨.tuple p ts, by rw [Term.toNode, hts, parts_of_absent]⟩

theorem proper_array (hns : AllProper ns) : Proper (.make .array p .absent ns) := by
  refine proper_of_parts (by rwa [parts_of_absent]) fun ts hts => ?_
  exact ⟨.array p ts, by rw [Term.toNode, hts, parts_of_absent]⟩

theorem proper_block {last : Option Node} (hns : AllProper ns)
    (hlast : AllProper last.toList) :
    Proper (.make .block p (last.elim .absent .node) ns) := by
  rcases hns.terms with herrors | ⟨ts, rfl⟩
  · refine .inl ?_
    rw [Node.containsErrors_make (by decide), herrors, Bool.or_true]
  · rcases hlast.terms with herrors | ⟨ls, hls⟩
    · refine .inl ?_
      rw [Node.containsErrors_make (by decide)]
      cases last with
      | none => cases herrors
      | some n => exact Bool.or_eq_true_iff.mpr (.inl herrors)
    · obtain ⟨l, rfl⟩ := toNodes_eq_toList hls
      exact .inr ⟨.block p ts l, rfl⟩

theorem proper_conditional {c t : Node} {e : Option Node} (hc : Proper c) (ht : Proper t)
    (he : AllProper e.toList) :
    Proper { Node.make .conditional p .absent [c, t] with elseBranch := e.toList } := by
  refine proper_of_parts (by simpa [Node.parts, Node.make, Node.ofValue, hc, ht] using he)
    fun ts hts => ?_
  obtain ⟨c', rest, rfl, hrest⟩ := toNodes_eq_cons hts
  obtain ⟨t', rest', rfl, hrest'⟩ := toNodes_eq_cons hrest
  obtain ⟨e', rfl⟩ := toNodes_eq_toList hrest'
  exact ⟨.conditional p c' t' e', rfl⟩

theorem proper_binding (isMutable : Bool) (name : String) (ha : Proper a) :
    Proper { Node.make .binding p (.text name) [a] with isMutable } := by
  refine proper_of_parts (by simpa [Node.parts, Node.make, Node.ofValue]) fun ts hts => ?_
  obtain ⟨t, -, rfl, -⟩ := toNodes_eq_cons hts
  exact ⟨.binding p isMutable name t, rfl⟩

/-- The target of an assignment is a name, and the assignment has its position. -/
theorem proper_assign (op : AssignOp) (ha : Proper a) (hkind : a.kind = .identifier)
    (hb : Proper b) : Proper (.make .assign a.position (.text op.name) [a, b]) := by
  refine proper_of_parts (by simp [Node.parts, Node.make, Node.ofValue, ha, hb]) fun ts hts => ?_
  obtain ⟨l, rest, rfl, hrest⟩ := toNodes_eq_cons hts
  obtain ⟨r, -, rfl, -⟩ := toNodes_eq_cons hrest
  cases l with
  | identifier q name => exact ⟨.assign q op name r, rfl⟩
  | _ => cases hkind

theorem proper_giveBack {n : Option Node} (hn : AllProper n.toList) :
    Proper (.make .giveBack p .absent n.toList) := by
  refine proper_of_parts (by rwa [parts_of_absent]) fun ts hts => ?_
  rw [parts_of_absent] at hts
  obtain ⟨t, rfl⟩ := toNodes_eq_toList hts
  exact ⟨.giveBack p t, rfl⟩

end Parts

end Scriptlet
