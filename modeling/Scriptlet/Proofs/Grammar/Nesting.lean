import Scriptlet.Proofs.Grammar.Recovery

/-!
# How deep trees are nested

Tuples and arrays are the rows of a tree. Each takes the rules through at least four levels
before an item of it is read, so that what is read in a room has no more than a quarter as
many rows inside one another. The bound is far from the best; it is good enough for
evaluation, which goes through three levels for a row.
-/

namespace Scriptlet

namespace Node

def isRow (k : Kind) : Bool := k = .tuple || k = .array

mutual

/-- How many tuples and arrays lie inside one another. -/
def rows : Node → Nat
  | ⟨k, v, cs, es, _, _⟩ =>
    max (rowsOfValue v) (max (rowsOfAll cs) (rowsOfAll es)) + (isRow k).toNat

def rowsOfValue : Datum Node → Nat
  | .node n => rows n
  | _ => 0

def rowsOfAll : List Node → Nat
  | [] => 0
  | n :: ns => max (rows n) (rowsOfAll ns)

end

@[simp] theorem rowsOfAll_nil : rowsOfAll [] = 0 := rfl

@[simp] theorem rowsOfAll_cons (n : Node) (ns : List Node) :
    rowsOfAll (n :: ns) = max n.rows (rowsOfAll ns) := rfl

@[simp] theorem rowsOfAll_append (ms ns : List Node) :
    rowsOfAll (ms ++ ns) = max (rowsOfAll ms) (rowsOfAll ns) := by
  induction ms with
  | nil => simp
  | cons m ms ih => simp [ih, Nat.max_assoc]

theorem rows_eq (n : Node) : n.rows = rowsOfAll n.parts + (isRow n.kind).toNat := by
  obtain ⟨k, v, cs, es, m, p⟩ := n
  cases v <;> simp [rows, parts, ofValue, rowsOfValue]

theorem rows_make (k : Kind) (p : Position) (v : Datum Node) (cs : List Node) :
    (make k p v cs).rows = max (rowsOfAll (ofValue v)) (rowsOfAll cs) + (isRow k).toNat := by
  rw [rows_eq]
  simp [make, parts]

end Node

namespace Grammar

open Scriptlet.Parser
open Node (rowsOfAll)

/-- What the levels that lead to the next row have used up already. -/
def slack : Rule → Nat
  | .applied => 1
  | .operand => 2
  | .group | .array => 3
  | _ => 0

def Task.slack : Task → Nat
  | .rule r => Grammar.slack r
  | .chain _ _ tighter _ => Grammar.slack tighter
  | _ => 0

section Slack

variable {k : Token.Kind} {rule tighter : Rule} {op? : Token.Kind → Option BinaryOp}

theorem slack_le (rule : Rule) : slack rule ≤ 3 := by
  cases rule <;> decide

theorem slack_branch (h : branch? k = some rule) : slack rule = 0 := by
  unfold branch? at h
  split at h <;> cases h <;> rfl

theorem slack_rightLevel (h : RightLevel rule op? tighter) :
    slack rule = 0 ∧ slack tighter = 0 := by
  cases h <;> exact ⟨rfl, rfl⟩

end Slack

section Rows

variable {b : Nat} {p : Position} {k : Node.Kind} {v : Datum Node} {n l r : Node}
  {cs es : List Node}

/-- No more rows lie inside one another than a bound for four times their number allows. -/
def Within (b : Nat) (ns : List Node) : Prop := 4 * rowsOfAll ns ≤ b

theorem within_nil : Within b [] := Nat.zero_le b

theorem within_of_eq_zero (h : n.rows = 0) : Within b [n] := by
  rw [Within, Node.rowsOfAll_cons, h]
  exact Nat.zero_le b

theorem within_leaf {t : Token} (h : Leaf t n) : Within b [n] :=
  within_of_eq_zero (by cases h <;> rfl)

theorem within_append (h : Within b cs) (h' : Within b es) : Within b (cs ++ es) := by
  rw [Within, Node.rowsOfAll_append]
  unfold Within at h h'
  omega

theorem within_of_append_left (h : Within b (cs ++ es)) : Within b cs := by
  rw [Within, Node.rowsOfAll_append] at h
  unfold Within
  omega

theorem within_of_append_right (h : Within b (cs ++ es)) : Within b es := by
  rw [Within, Node.rowsOfAll_append] at h
  unfold Within
  omega

theorem within_make (hk : Node.isRow k = false) (hv : Within b (Node.ofValue v))
    (hcs : Within b cs) : Within b [.make k p v cs] := by
  rw [Within, Node.rowsOfAll_cons, Node.rows_make, hk]
  unfold Within at hv hcs
  simp only [Node.rowsOfAll_nil, Bool.toNat_false]
  omega

/-- A row makes up for four levels of rules. -/
theorem within_row (hb : 4 ≤ b) (h : Within (b - 4) cs) : Within b [.make k p .absent cs] := by
  have hrow : (Node.isRow k).toNat ≤ 1 := Bool.toNat_le _
  rw [Within, Node.rowsOfAll_cons, Node.rows_make]
  unfold Within at h
  simp only [Node.ofValue, Node.rowsOfAll_nil]
  omega

theorem within_binaryNode (op : BinaryOp) (hl : Within b [l]) (hr : Within b [r]) :
    Within b [binaryNode op l r] := within_make rfl within_nil (within_append hl hr)

theorem within_elseBranch (hcs : Within b cs) (hes : Within b es) :
    Within b [{ Node.make .conditional p .absent cs with elseBranch := es }] := by
  rw [Within, Node.rowsOfAll_cons, Node.rows_eq]
  unfold Within at hcs hes
  simp [Node.parts, Node.make, Node.ofValue, Node.isRow]
  omega

theorem within_isMutable (isMutable : Bool) (hv : Within b (Node.ofValue v)) (hcs : Within b cs) :
    Within b [{ Node.make .binding p v cs with isMutable }] := by
  rw [Within, Node.rowsOfAll_cons, Node.rows_eq]
  unfold Within at hv hcs
  simp [Node.parts, Node.make, Node.isRow]
  omega

end Rows

section Levels

variable {room b : Nat} {task task' : Task}

/-- A rule leads to one that has used up a level more at most. -/
theorem room_of_rule (hb : room + 1 + task.slack ≤ b) (h : task'.slack ≤ task.slack + 1) :
    room + task'.slack ≤ b := by omega

theorem room_of_inner {inner : Nat} (hb : room + task.slack ≤ b) (h : task'.slack = 0)
    (hle : inner ≤ room) : inner + task'.slack ≤ b := by omega

end Levels

/-- What is read in a room has no more than a quarter as many rows inside one another. -/
theorem Reads.rows {room b : Nat} {task : Task} {s s' : State} {y : Yield}
    (h : Reads room task s y s') (hb : room + task.slack ≤ b) (hread : Within b task.nodes) :
    Within b y.nodes := by
  induction h generalizing b with
  | bindingStatement _ _ ih | returnStatement _ _ ih | expressionStatement _ _ _ ih
  | expression _ ih | unassigning _ _ ih | unprefixed _ _ ih | unapplied _ _ ih
  | badCondition _ _ _ ih => exact ih (room_of_rule hb (by decide)) within_nil
  | chainless hlevel _ _ _ ih =>
    exact ih (room_of_rule hb (by simp [Task.slack, slack_rightLevel hlevel])) within_nil
  | compound _ _ ih => exact ih (room_of_rule hb (slack_le _)) within_nil
  | chainEnd | applicationsEnd | itemsEnd => exact hread
  -- Trees of a single node
  | unnamed | unassigned | invalidTarget | notAlone | openIndex | refused | invalidToken | missing
  | openBlock | noBlock | noBranch | openItems | bareReturn | unit =>
    exact within_of_eq_zero rfl
  | leaf hleaf => exact within_leaf hleaf
  -- Trees of parts that are read with less room
  | binding _ _ _ _ _ ih =>
    exact within_isMutable _ within_nil (ih (room_of_rule hb (by decide)) within_nil)
  | returnOf _ _ _ ih | prefixed _ _ ih =>
    exact within_make rfl within_nil (ih (room_of_rule hb (by decide)) within_nil)
  | assignment _ _ _ _ _ ihl ihr =>
    have hl := ihl (room_of_rule hb (by decide)) within_nil
    have hr := ihr (room_of_rule hb (by decide)) within_nil
    exact within_make rfl within_nil (within_append hl hr)
  | assignmentToError _ _ _ _ ihl => exact ihl (room_of_rule hb (by decide)) within_nil
  | disjunction _ _ ihl ih | conjunction _ _ ihl ih | applied _ _ _ ihl ih =>
    have hl := ihl (room_of_rule hb (by decide)) within_nil
    exact ih (room_of_rule hb (Nat.zero_le _)) hl
  | chainLink _ _ _ ihr ih => exact ih hb (within_binaryNode _ hread (ihr hb within_nil))
  | rightChain hlevel _ _ _ ihl ihr =>
    have hslack := slack_rightLevel hlevel
    have hl := ihl (room_of_rule hb (by simp [Task.slack, hslack])) within_nil
    have hr := ihr (room_of_rule hb (by simp [Task.slack, hslack])) within_nil
    exact within_binaryNode _ hl hr
  | notMember _ _ _ _ ihl ihr =>
    have hl := ihl (room_of_rule hb (by decide)) within_nil
    have hr := ihr (room_of_rule hb (by decide)) within_nil
    exact within_binaryNode _ hl hr
  | call _ _ _ ihitems ih =>
    exact ih hb (within_make rfl hread (ihitems (room_of_inner hb rfl (Nat.sub_le ..)) within_nil))
  | badCall _ _ ih => exact ih (room_of_inner hb rfl (Nat.sub_le ..)) within_nil
  | index _ _ _ _ _ ihi ih =>
    exact ih hb (within_make rfl within_nil (within_append hread (ihi hb within_nil)))
  | badIndex _ _ _ ih => exact ih hb within_nil
  | grouped _ _ _ ih | badGroup _ _ _ ih | badArray _ _ ih =>
    exact ih (room_of_inner hb rfl (by omega)) within_nil
  -- A row makes up for the levels that led to it.
  | tuple _ _ _ _ ih | array _ _ ih =>
    have hlevels : _ + 1 + 3 ≤ b := hb
    refine within_row (by omega) (ih ?_ within_nil)
    change _ - 1 + 0 ≤ b - 4
    omega
  | block _ _ _ ih =>
    have hstatements := ih (room_of_inner hb rfl (by omega)) within_nil
    refine within_make rfl ?_ ?_
    · rw [Node.ofValue_last]
      exact within_of_append_right hstatements
    · exact within_of_append_left hstatements
  | badBlock _ _ _ _ _ _ _ iht => exact iht (room_of_rule hb (by decide)) within_nil
  | ifThen _ _ _ _ _ _ _ ihc iht =>
    have hc := ihc (room_of_rule hb (by decide)) within_nil
    have ht := iht (room_of_rule hb (by decide)) within_nil
    exact within_make rfl within_nil (within_append hc ht)
  | badBranch _ _ _ _ _ _ _ hrule _ _ _ _ ihe =>
    exact ihe (room_of_inner hb (slack_branch hrule) (Nat.le_succ _)) within_nil
  | ifThenElse _ _ _ _ _ _ _ hrule _ _ ihc iht ihe =>
    have hc := ihc (room_of_rule hb (by decide)) within_nil
    have ht := iht (room_of_rule hb (by decide)) within_nil
    have he := ihe (room_of_inner hb (slack_branch hrule) (Nat.le_succ _)) within_nil
    exact within_elseBranch (within_append hc ht) he
  -- Loops, each behind what was read before
  | badItem _ _ _ ih => exact ih hb within_nil
  | item _ _ _ _ _ ihn ih => exact ih hb (within_append hread (ihn hb within_nil))
  | lastItem _ _ _ _ _ ihn => exact within_append hread (ihn hb within_nil)
  | sequenceEnd => exact within_append hread within_nil
  | separator _ _ _ ih => exact ih hb hread
  | terminated _ _ _ _ _ ihn ih | recovered _ _ _ _ _ _ _ ihn ih
  | unterminated _ _ _ _ _ _ _ _ ihn ih =>
    exact ih hb (within_append hread (ihn hb within_nil))
  | trailing _ _ _ _ _ ihn => exact within_append hread (ihn hb within_nil)
  | unseparated _ _ _ _ _ _ _ _ ihn ih =>
    exact ih hb (within_append hread (within_append (ihn hb within_nil) (within_of_eq_zero rfl)))

end Grammar

end Scriptlet
