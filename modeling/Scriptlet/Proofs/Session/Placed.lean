import Scriptlet.Proofs.Session.Rule
import Scriptlet.Proofs.Tree.Placing

/-!
# Evaluation of trees with other positions

The position of a node shows in nothing but the errors that are reported there, and what was
printed before in nothing at all. So a tree that is placed anew, evaluated in a session with
some more text in front of what was printed, comes to the same: only errors are placed anew
with it, and the text is in front again.
-/

namespace Scriptlet

namespace Term

variable (g : Position → Position)

mutual

def place : Term → Term
  | integer p n => .integer (g p) n
  | float p x => .float (g p) x
  | string p s => .string (g p) s
  | bool p b => .bool (g p) b
  | unit p => .unit (g p)
  | identifier p name => .identifier (g p) name
  | unary p op a => .unary (g p) op (place a)
  | binary p op a b => .binary (g p) op (place a) (place b)
  | call p f as => .call (g p) (place f) (placeAll as)
  | index p a i => .index (g p) (place a) (place i)
  | tuple p as => .tuple (g p) (placeAll as)
  | array p as => .array (g p) (placeAll as)
  | block p ts last => .block (g p) (placeAll ts) (place? last)
  | conditional p c t e => .conditional (g p) (place c) (place t) (place? e)
  | binding p isMutable name a => .binding (g p) isMutable name (place a)
  | assign p op name a => .assign (g p) op name (place a)
  | giveBack p a => .giveBack (g p) (place? a)

def placeAll : List Term → List Term
  | [] => []
  | t :: ts => place t :: placeAll ts

def place? : Option Term → Option Term
  | none => none
  | some t => some (place t)

end

mutual

theorem toNode_place : (t : Term) → (t.place g).toNode = t.toNode.place g
  | integer .. | float .. | string .. | bool .. | unit .. | identifier .. => rfl
  | unary _ op a => by
    simp only [place, toNode, Node.place_make, toNode_place a]
    rfl
  | binary _ op a b => by
    simp only [place, toNode, Node.place_make, toNode_place a, toNode_place b]
    rfl
  | call _ f as => by
    simp only [place, toNode, Node.place_make, toNode_place f, toNodes_place as]
    rfl
  | index _ a i => by
    simp only [place, toNode, Node.place_make, toNode_place a, toNode_place i]
    rfl
  | tuple _ as => by
    simp only [place, toNode, Node.place_make, toNodes_place as]
    rfl
  | array _ as => by
    simp only [place, toNode, Node.place_make, toNodes_place as]
    rfl
  | block _ ts last => by
    simp only [place, toNode, Node.place_make, toNodes_place ts, toNode?_place last]
    cases last <;> rfl
  | conditional _ c t e => by
    simp only [place, toNode, toNode_place c, toNode_place t, toNode?_place e]
    cases e <;> rfl
  | binding _ isMutable name a => by
    simp only [place, toNode, toNode_place a]
    rfl
  | assign _ op name a => by
    simp only [place, toNode, Node.place_make, toNode_place a]
    rfl
  | giveBack _ a => by
    simp only [place, toNode, Node.place_make, toNode?_place a]
    cases a <;> rfl

theorem toNodes_place : (ts : List Term) → toNodes (placeAll g ts) = (toNodes ts).map (Node.place g)
  | [] => rfl
  | t :: ts => by
    rw [placeAll, toNodes, toNodes, toNode_place t, toNodes_place ts, List.map_cons]

theorem toNode?_place : (t : Option Term) →
    toNode? (place? g t) = (toNode? t).map (Node.place g)
  | none => rfl
  | some t => by rw [place?, toNode?, toNode?, toNode_place t, Option.map_some]

end

theorem position_place (t : Term) : (t.place g).toNode.position = g t.toNode.position := by
  rw [toNode_place, Node.place_position]

end Term

/-- The session with more text in front of what was printed. -/
def Session.behind (earlier : String) (s : Session) : Session :=
  { s with printed := earlier ++ s.printed }

namespace Session

variable (earlier : String) (s : Session)

theorem print_behind (text : String) :
    print text (s.behind earlier) = (s.print text).behind earlier := by
  simp only [print, behind, String.append_assoc]

theorem behind_empty : s.behind "" = s := by
  rw [behind, String.empty_append]

/-- Text in front of nothing that was printed. -/
theorem behind_printed : ({ s with printed := "" } : Session).behind s.printed = s := by
  rw [behind, String.append_empty]

end Session

def Interrupt.place (g : Position → Position) : Interrupt → Interrupt
  | .error d => .error (d.place g)
  | i => i

namespace Eval

open ExceptT (outcome_bind outcome_get_bind)

variable {α β : Type} {g : Position → Position} {earlier : String}

/-- The end of an evaluation, with its error placed anew, in a session that printed more. -/
def moved (g : Position → Position) (earlier : String) :
    Except Interrupt α × Session → Except Interrupt α × Session
  | (r, s) => (r.mapError (Interrupt.place g), s.behind earlier)

/-- What the first evaluation comes to, the second comes to from a session that printed more,
with errors placed anew. -/
def Follows (g : Position → Position) (earlier : String) (x y : Eval α) : Prop :=
  ∀ s : Session, y.outcome (s.behind earlier) = moved g earlier (x.outcome s)

section Pieces

variable {x y : Eval α} {m n : Node}

theorem follows_pure (a : α) : Follows g earlier (pure a) (pure a) := fun _ => rfl

theorem follows_tooDeep : Follows g earlier (tooDeep : Eval α) tooDeep := fun _ => rfl

theorem follows_returned (v : Value) :
    Follows g earlier (throw (.returned v) : Eval α) (throw (.returned v)) := fun _ => rfl

theorem follows_fail (e : RuntimeError) (hn : n.position = g m.position) :
    Follows g earlier (fail e m : Eval α) (fail e n) := by
  rw [fail, fail, hn]
  exact fun _ => rfl

theorem follows_bind {f h : α → Eval β} (hx : Follows g earlier x y)
    (hf : ∀ a, Follows g earlier (f a) (h a)) : Follows g earlier (x >>= f) (y >>= h) := by
  intro s
  rw [outcome_bind, outcome_bind, hx s]
  rcases x.outcome s with ⟨i | a, m⟩
  · rfl
  · exact hf a m

theorem follows_get_bind {f h : Session → Eval β}
    (hf : ∀ s : Session, Follows g earlier (f s) (h (s.behind earlier))) :
    Follows g earlier (get >>= f) (get >>= h) := by
  intro s
  rw [outcome_get_bind, outcome_get_bind]
  exact hf s s

theorem follows_modify {f : Session → Session}
    (hf : ∀ s : Session, f (s.behind earlier) = (f s).behind earlier) :
    Follows g earlier (modify f : Eval Unit) (modify f) :=
  fun s => congrArg (Prod.mk (Except.ok ())) (hf s)

theorem follows_made (v : Value) : Follows g earlier (made v) (made v) := fun _ => rfl

theorem follows_needDepth (room depth : Nat) :
    Follows g earlier (needDepth room depth) (needDepth room depth) := by
  rw [needDepth]
  split
  · exact follows_tooDeep
  · exact follows_pure ()

theorem follows_ofAny (hn : n.position = g m.position) (r : Except Failure α) :
    Follows g earlier (ofAny m r) (ofAny n r) := by
  rcases r with (e | e | e) | a
  · exact follows_fail _ hn
  all_goals exact fun _ => rfl

theorem follows_inScope (h : Follows g earlier x y) :
    Follows g earlier (inScope x) (inScope y) := by
  intro s
  rw [outcome_inScope, outcome_inScope]
  have hs : y.outcome (s.behind earlier).enter = moved g earlier (x.outcome s.enter) := h s.enter
  rw [hs]
  rfl

end Pieces

section Rules

variable {call call' within within' : Term → Eval Value} {m n : Node}

/-- The second evaluates terms that are placed anew as the first does those that are not. -/
def Places (g : Position → Position) (earlier : String) (call call' : Term → Eval Value) : Prop :=
  ∀ t, Follows g earlier (call t) (call' (t.place g))

theorem follows_mapM (hcall : Places g earlier call call') (ts : List Term) :
    Follows g earlier (ts.mapM call) ((Term.placeAll g ts).mapM call') := by
  induction ts with
  | nil => exact follows_pure []
  | cons t ts ih =>
    rw [Term.placeAll, List.mapM_cons, List.mapM_cons]
    exact follows_bind (hcall t) fun v => follows_bind ih fun vs => follows_pure _

theorem follows_forM (hcall : Places g earlier call call') (ts : List Term) :
    Follows g earlier (ts.forM fun t => discard (call t))
      ((Term.placeAll g ts).forM fun t => discard (call' t)) := by
  induction ts with
  | nil => exact follows_pure ()
  | cons t ts ih =>
    exact follows_bind (follows_bind (hcall t) fun _ => follows_pure ()) fun _ => ih

theorem follows_truth (op : BinaryOp) (hn : n.position = g m.position) (v : Value) :
    Follows g earlier (truth op m v) (truth op n v) := by
  cases v with
  | bool b => exact follows_pure b
  | _ => exact follows_fail _ hn

theorem follows_logical (hwithin : Places g earlier within within') (op : BinaryOp)
    (decisive : Bool) (left right : Term) :
    Follows g earlier (Term.logical within op decisive left right)
      (Term.logical within' op decisive (left.place g) (right.place g)) := by
  refine follows_bind (hwithin left) fun v =>
    follows_bind (follows_truth op (left.position_place g) v) fun first => ?_
  split
  · exact follows_pure _
  · exact follows_bind (hwithin right) fun w =>
      follows_bind (follows_truth op (right.position_place g) w) fun _ => follows_pure _

theorem follows_operator (room : Nat) (hcall : Places g earlier call call')
    (hn : n.position = g m.position) (op : BinaryOp) (left right : Term) :
    Follows g earlier (Term.operator room call m op left right)
      (Term.operator room call' n op (left.place g) (right.place g)) :=
  follows_bind (hcall left) fun _ => follows_bind (hcall right) fun _ =>
    follows_bind (follows_needDepth room _) fun _ =>
      follows_bind (follows_ofAny hn _) fun _ => follows_made _

theorem follows_application (room : Nat) (hwithin : Places g earlier within within')
    (hn : n.position = g m.position) (arguments : List Term) (v : Value) :
    Follows g earlier (Term.application room within m arguments v)
      (Term.application room within' n (Term.placeAll g arguments) v) := by
  cases v with
  | function b =>
    exact follows_bind (follows_mapM hwithin arguments) fun _ =>
      follows_bind (follows_needDepth room _) fun _ =>
        follows_bind (follows_ofAny hn _) fun reply =>
          follows_bind (follows_modify fun s => s.print_behind earlier reply.printed) fun _ =>
            follows_made _
  | _ => exact follows_fail _ hn

theorem follows_optionally (hcall : Places g earlier call call') (t : Option Term) :
    Follows g earlier (Term.optionally call t) (Term.optionally call' (Term.place? g t)) := by
  cases t with
  | none => exact follows_pure _
  | some t => exact hcall t

theorem follows_choose (hcall : Places g earlier call call') (condition thenBlock : Term)
    (otherwise : Option Term) (v : Value) :
    Follows g earlier (Term.choose call condition thenBlock otherwise v)
      (Term.choose call' (condition.place g) (thenBlock.place g) (Term.place? g otherwise) v) := by
  cases v with
  | bool b =>
    cases b with
    | true => exact hcall thenBlock
    | false => exact follows_optionally hcall otherwise
  | _ => exact follows_fail _ (condition.position_place g)

theorem follows_write (room : Nat) (hn : n.position = g m.position) (op : AssignOp) (slot : Nat)
    (b : Binding) (v : Value) :
    Follows g earlier (Term.write room m op slot b v) (Term.write room n op slot b v) := by
  cases op with
  | replace => exact follows_modify fun _ => rfl
  | combine op =>
    exact follows_get_bind fun s => follows_bind (follows_needDepth room _) fun _ =>
      follows_bind (follows_ofAny hn _) fun w => follows_bind (follows_made w) fun _ =>
        follows_modify fun _ => rfl

theorem follows_assignment (room : Nat) (hcall : Places g earlier call call')
    {target target' : Node} (hn : n.position = g m.position)
    (htarget : target'.position = g target.position) (op : AssignOp) (name : String)
    (source : Term) (found : Option (Nat × Binding)) :
    Follows g earlier (Term.assignment room call m target op name source found)
      (Term.assignment room call' n target' op name (source.place g) found) := by
  rcases found with - | ⟨slot, b⟩
  · exact follows_fail _ htarget
  · rw [Term.assignment, Term.assignment]
    split
    · exact follows_fail _ htarget
    · split
      · exact follows_fail _ htarget
      · exact follows_bind (hcall source) fun v =>
          follows_bind (follows_write room hn op slot b v) fun _ => follows_pure _

theorem follows_rule (room : Nat) (hcall : Places g earlier call call')
    (hwithin : Places g earlier within within') :
    Places g earlier (Term.rule room call within) (Term.rule room call' within') := by
  intro t
  have hn : (t.place g).toNode.position = g t.toNode.position := t.position_place g
  cases t with
  | integer | float | string => exact follows_made _
  | bool | unit => exact follows_pure _
  | identifier p name =>
    refine follows_get_bind fun s => ?_
    have hfind : (s.behind earlier).find? (.text name) = s.find? (.text name) := rfl
    rw [hfind]
    rcases s.find? (.text name) with - | ⟨slot, b⟩
    · exact follows_fail _ hn
    · exact follows_pure _
  | unary p op a =>
    exact follows_bind (hcall a) fun v => follows_bind (follows_ofAny hn _) fun _ => follows_made _
  | binary p op a b =>
    cases op with
    | and | or => exact follows_logical hwithin _ _ a b
    | _ => exact follows_operator room hcall hn _ a b
  | call p f as =>
    exact follows_bind (hcall f) fun v => follows_application room hwithin hn as v
  | index p a i =>
    exact follows_bind (hcall a) fun v => follows_bind (hcall i) fun w => follows_ofAny hn _
  | tuple p as | array p as =>
    exact follows_bind (follows_mapM hwithin as) fun _ => follows_made _
  | block p ts last =>
    exact follows_inScope
      (follows_bind (follows_forM hcall ts) fun _ => follows_optionally hcall last)
  | conditional p c a e => exact follows_bind (hcall c) fun v => follows_choose hcall c a e v
  | binding p isMutable name a =>
    exact follows_bind (hcall a) fun v =>
      follows_bind (follows_modify fun _ => rfl) fun _ => follows_pure _
  | assign p op name a =>
    exact follows_get_bind fun s => follows_assignment room hcall hn rfl op name a
      (s.find? (.text name))
  | giveBack p a =>
    exact follows_bind (follows_optionally hcall a) fun v => follows_returned v

end Rules

theorem follows_eval (room : Nat) :
    Places g earlier (fun t => eval room t.toNode) fun t => eval room t.toNode :=
  eval_invariant
    (P := fun call => Places g earlier (fun t => call t.toNode) fun t => call t.toNode)
    (fun _ => follows_tooDeep)
    (fun room call within hcall hwithin t => by
      simp only [Term.rule_toNode]
      exact follows_rule room hcall hwithin t)
    room

theorem follows_statement (room : Nat) (t : Term) :
    Follows g earlier (statement room t.toNode) (statement room (t.toNode.place g)) := by
  intro s
  have hs : (eval room (t.place g).toNode).outcome (s.behind earlier) =
      moved g earlier ((eval room t.toNode).outcome s) := follows_eval room t s
  rw [Term.toNode_place] at hs
  rw [outcome_statement, outcome_statement, hs]
  rcases (eval room t.toNode).outcome s with ⟨i | v, m⟩
  · cases i with
    | tooDeep =>
      simp only [moved, Except.mapError, Interrupt.place, Node.place_position]
      rfl
    | _ => rfl
  · rfl

theorem follows_statements (room : Nat) (ts : List Term) : ∀ last : Option Value,
    Follows g earlier (statements room last (Term.toNodes ts))
      (statements room last ((Term.toNodes ts).map (Node.place g))) := by
  induction ts with
  | nil => exact fun last => follows_pure last
  | cons t ts ih => exact fun _ => follows_bind (follows_statement room t) fun v => ih (some v)

end Eval

/-- The result of a program, with its error placed anew. -/
def Result.place (g : Position → Position) : Result → Result
  | .error d => .error (d.place g)
  | r => r

theorem Result.ofOutcome_mapError (g : Position → Position)
    (r : Except Interrupt (Option Value)) :
    ofOutcome (r.mapError (Interrupt.place g)) = (ofOutcome r).place g := by
  rcases r with i | v
  · cases i <;> rfl
  · rfl

/-- A program that is placed anew does the same in a session that printed more. -/
theorem Session.evaluate_place {ts : List Term}
    (hclean : Node.containsErrors (Term.toNodes ts) = false) (g : Position → Position)
    (earlier : String) (s : Session) :
    (s.behind earlier).evaluate ((Term.toNodes ts).map (Node.place g)) =
      ((s.evaluate (Term.toNodes ts)).1.place g, (s.evaluate (Term.toNodes ts)).2.behind earlier) := by
  have hplaced : Node.containsErrors ((Term.toNodes ts).map (Node.place g)) = false := by
    rw [Node.containsErrors_place, hclean]
  rw [evaluate_eq hclean, evaluate_eq hplaced, Eval.follows_statements evaluationLimit ts none s]
  exact congrArg (·, _) (Result.ofOutcome_mapError g _)

/-- An error of a program lies at one of its nodes: a map that moves no node of the program
moves no error of it either. -/
theorem Session.error_at_node {ts : List Term}
    (hclean : Node.containsErrors (Term.toNodes ts) = false) {s : Session} {d : Diagnostic}
    (h : (s.evaluate (Term.toNodes ts)).1 = .error d) :
    ∃ n ∈ Node.preorderOfAll (Term.toNodes ts), d.position = n.position := by
  by_contra hnone
  push Not at hnone
  let g (p : Position) : Position := if p = d.position then { p with index := p.index + 1 } else p
  have hkept : (Term.toNodes ts).map (Node.place g) = Term.toNodes ts :=
    Node.map_place_eq_self fun n hn => if_neg (hnone n hn).symm
  have hplaced := s.evaluate_place hclean g ""
  rw [behind_empty, hkept] at hplaced
  have herror : Result.error d = .error (d.place g) := by
    rw [← h, hplaced]
    simp only [h, Result.place]
  have hposition : d.position = g d.position := congrArg Diagnostic.position (Result.error.inj herror)
  have hindex : d.position.index = d.position.index + 1 := by
    have hmoved : g d.position = { d.position with index := d.position.index + 1 } := if_pos rfl
    exact congrArg Position.index (hposition.trans hmoved)
  omega

end Scriptlet
