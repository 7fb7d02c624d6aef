import Scriptlet.Proofs.Grammar.Syntax
import Scriptlet.Proofs.Lexical.Evaluator
import Scriptlet.Proofs.Session.Rule

/-!
# The flat list of bindings stands for a stack of scopes

A session and an environment are related when the one list is all scopes behind each
other. Evaluation then does the same on both sides, as long as its room suffices. An
assignment hits the same binding because the scopes around the innermost one keep their
lengths, so that an address keeps its slot.
-/

namespace Scriptlet.Lexical

open ExceptT (outcome_bind)

structure Related (s : Session) (e : Env) : Prop where
  depth : s.depth = e.outer.length
  bindings : s.oldestFirst = flat e.scopes
  printed : s.printed = e.printed
  nextMark : s.nextMark = e.nextMark

/-- A later environment in the same block: only the innermost scope may be longer. -/
structure Env.Grows (e e' : Env) : Prop where
  top : e.top.length ≤ e'.top.length
  outer : e'.outer.map List.length = e.outer.map List.length

namespace Env.Grows

theorem refl (e : Env) : Grows e e := ⟨Nat.le_refl _, rfl⟩

theorem trans {e f g : Env} (h : Grows e f) (h' : Grows f g) : Grows e g :=
  ⟨Nat.le_trans h.top h'.top, h'.outer.trans h.outer⟩

theorem levels {e e' : Env} (h : Grows e e') : e'.outer.length = e.outer.length := by
  simpa using congrArg List.length h.outer

/-- Addresses keep their slots. -/
theorem slot {e e' : Env} {a : Address} (h : Grows e e') (ha : Holds a e.scopes) :
    slot a e'.scopes = slot a e.scopes ∧ Holds a e'.scopes := by
  obtain ⟨hflat, hslot, hholds⟩ := slot_congr h.outer a
  rw [scopes, Holds] at ha
  rw [scopes, scopes, Lexical.slot, Lexical.slot, Holds, h.levels, hflat, hslot, hholds]
  refine ⟨rfl, ?_⟩
  split at ha
  · next hlevel =>
    rw [if_pos hlevel]
    exact Nat.lt_of_lt_of_le ha h.top
  · next hlevel =>
    rw [if_neg hlevel]
    exact ha

end Env.Grows

namespace Related

variable {s m : Session} {e e' : Env}

theorem find (h : Related s e) (name : String) :
    s.find? (.text name) =
      (Lexical.find name e.scopes).map fun found =>
        (slot found.1 e.scopes, found.2.at found.1.level) := by
  rw [← findBinding_flat, ← h.bindings, Session.oldestFirst, List.reverse_reverse, Session.find?]

theorem read (h : Related s e) {a : Address} (ha : Holds a e.scopes) :
    s.at? (slot a e.scopes) = read? a e.scopes := by
  rw [Session.at?, valueAt?_eq, ← read?_eq ha, ← h.bindings, Session.oldestFirst]

theorem scopes_set (e : Env) (a : Address) (v : Value) :
    (e.set a v).scopes = write a v e.scopes := by
  have hlength := length_write a v e.scopes
  rw [Env.set]
  rw [Env.scopes] at hlength ⊢
  cases hwrite : write a v (e.top :: e.outer) with
  | nil =>
    rw [hwrite] at hlength
    cases hlength
  | cons scope outer => rw [Env.scopes, hwrite]

theorem set (h : Related s e) {a : Address} (ha : Holds a e.scopes) (v : Value) :
    Related (s.set (slot a e.scopes) v) (e.set a v) ∧ e.Grows (e.set a v) := by
  have hscopes := scopes_set e a v
  have hlengths := (congrArg (List.map List.length) hscopes).trans (lengths_write a v e.scopes)
  rw [Env.scopes, Env.scopes, List.map_cons, List.map_cons, List.cons.injEq] at hlengths
  have hgrows : e.Grows (e.set a v) := ⟨Nat.le_of_eq hlengths.1.symm, hlengths.2⟩
  have hsame : (e.set a v).printed = e.printed ∧ (e.set a v).nextMark = e.nextMark := by
    rw [Env.set]
    split <;> exact ⟨rfl, rfl⟩
  refine ⟨⟨?_, ?_, h.printed.trans hsame.1.symm, h.nextMark.trans hsame.2.symm⟩, hgrows⟩
  · exact h.depth.trans (congrArg Nat.cast hgrows.levels.symm)
  · refine List.ext_getElem? fun i => ?_
    rw [hscopes, getElem?_flat_write v i ha, ← h.bindings, Session.oldestFirst, Session.set,
      getElem?_setBinding]
    rfl

theorem define (h : Related s e) (name : String) (v : Value) (isMutable : Bool) :
    Related (s.define (.text name) v isMutable) (e.define name v isMutable) ∧
      e.Grows (e.define name v isMutable) := by
  refine ⟨⟨h.depth, ?_, h.printed, h.nextMark⟩, ⟨?_, rfl⟩⟩
  · have hnew : (s.define (.text name) v isMutable).oldestFirst =
        s.oldestFirst ++ [⟨.text name, v, isMutable, s.depth, false⟩] := List.reverse_cons
    rw [hnew, h.bindings, h.depth, Env.scopes, Env.scopes, flat, Env.define, flat, List.map_append,
      List.append_assoc]
    rfl
  · rw [Env.define, List.length_append]
    exact Nat.le_add_right ..

theorem push (h : Related s e) : Related s.enter e.push where
  depth := by
    rw [Session.enter, h.depth]
    rfl
  bindings := by
    have hflat : flat e.push.scopes = flat e.scopes ++ [] := rfl
    rw [hflat, List.append_nil]
    exact h.bindings
  printed := h.printed
  nextMark := h.nextMark

/-- What a block leaves behind when it is left. -/
theorem pop (h : Related m e') (hgrows : e.push.Grows e') :
    Related m.leave e'.pop ∧ e.Grows e'.pop := by
  obtain ⟨top, outer, printed, nextMark⟩ := e'
  cases outer with
  | nil => cases hgrows.outer
  | cons scope outer =>
    have hlengths := hgrows.outer
    rw [List.map_cons, Env.push, List.map_cons, List.cons.injEq] at hlengths
    have hdepth : m.depth - 1 = outer.length := by
      have hlevels : m.depth = (outer.length + 1 : Nat) := h.depth
      omega
    refine ⟨⟨hdepth, ?_, h.printed, h.nextMark⟩, ⟨Nat.le_of_eq hlengths.1.symm, hlengths.2⟩⟩
    have hleave : m.leave.oldestFirst =
        m.oldestFirst.filter fun b => b.depth ≤ (outer.length : Int) := by
      rw [← hdepth, Session.oldestFirst, Session.oldestFirst, List.filter_reverse]
      rfl
    have hkept : ∀ b ∈ flat (scope :: outer), b.depth ≤ outer.length := by
      intro b hb
      have := depth_lt hb
      rw [List.length_cons] at this
      omega
    have hdropped : ∀ b ∈ top.map (Local.at (scope :: outer).length), ¬ b.depth ≤ outer.length := by
      intro b hb
      obtain ⟨c, -, rfl⟩ := List.mem_map.mp hb
      simp only [Local.at, List.length_cons]
      omega
    rw [hleave, h.bindings, Env.scopes, flat, List.filter_append,
      List.filter_eq_self.mpr (by simpa using hkept),
      List.filter_eq_nil_iff.mpr (by simpa using hdropped), List.append_nil]
    rfl

end Related

variable {α β : Type}

/-- From these states both sides come to the same and to related states, unless the room
runs out. -/
def AgreeAt (x : Eval α) (y : Run α) (s : Session) (e : Env) : Prop :=
  (x.outcome s).1 = .error .tooDeep ∨
    ((x.outcome s).1 = (y.outcome e).1 ∧ Related (x.outcome s).2 (y.outcome e).2 ∧
      e.Grows (y.outcome e).2)

def Agree (x : Eval α) (y : Run α) : Prop := ∀ s e, Related s e → AgreeAt x y s e

section Pieces

variable {x : Eval α} {y : Run α} {s : Session} {e : Env}

theorem agree_pure (a : α) : Agree (pure a) (pure a) := fun _ e h => .inr ⟨rfl, h, .refl e⟩

theorem agree_throw (i : Interrupt) : Agree (throw i : Eval α) (throw i) :=
  fun _ e h => .inr ⟨rfl, h, .refl e⟩

theorem agree_fail (r : RuntimeError) (n : Node) :
    Agree (Eval.fail r n : Eval α) (fail r n.position) :=
  agree_throw _

theorem agree_tooDeep (y : Run α) : Agree Eval.tooDeep y := fun _ _ _ => .inl rfl

theorem agreeAt_bind {f : α → Eval β} {g : α → Run β} (hx : AgreeAt x y s e)
    (hf : ∀ a s' e', Related s' e' → e.Grows e' → AgreeAt (f a) (g a) s' e') :
    AgreeAt (x >>= f) (y >>= g) s e := by
  rw [AgreeAt] at hx ⊢
  rw [outcome_bind, outcome_bind]
  rcases hs : x.outcome s with ⟨r, s'⟩
  rcases he : y.outcome e with ⟨r', e'⟩
  rw [hs, he] at hx
  rcases hx with hdeep | ⟨hsame, hm, hgrows⟩
  · cases hdeep
    exact .inl rfl
  · cases hsame
    cases r with
    | error i => exact .inr ⟨rfl, hm, hgrows⟩
    | ok a =>
      rcases hf a s' e' hm hgrows with hdeep | ⟨hsame, hm', hgrows'⟩
      · exact .inl hdeep
      · exact .inr ⟨hsame, hm', hgrows.trans hgrows'⟩

theorem agree_bind {f : α → Eval β} {g : α → Run β} (hx : Agree x y)
    (hf : ∀ a, Agree (f a) (g a)) : Agree (x >>= f) (y >>= g) :=
  fun s e h => agreeAt_bind (hx s e h) fun a s' e' h' _ => hf a s' e' h'

theorem agreeAt_get_bind {f : Session → Eval β} {g : Env → Run β} (h : AgreeAt (f s) (g e) s e) :
    AgreeAt (get >>= f) (get >>= g) s e := h

theorem agree_get_bind {f : Session → Eval β} {g : Env → Run β}
    (h : ∀ s e, Related s e → AgreeAt (f s) (g e) s e) : Agree (get >>= f) (get >>= g) := h

theorem agree_modify {f : Session → Session} {g : Env → Env}
    (h : ∀ s e, Related s e → Related (f s) (g e) ∧ e.Grows (g e)) :
    Agree (modify f : Eval Unit) (modify g) := fun s e hs => .inr ⟨rfl, h s e hs⟩

theorem agree_discard (h : Agree x y) : Agree (discard x) (discard y) :=
  agree_bind h fun _ => agree_pure _

theorem agree_made (v : Value) : Agree (Eval.made v) (made v) := by
  intro s e h
  refine .inr ⟨?_, ⟨h.depth, h.bindings, h.printed, ?_⟩, ⟨Nat.le_refl _, rfl⟩⟩
  · exact congrArg (fun m => Except.ok (v.withMark m)) h.nextMark
  · exact congrArg (· + 1) h.nextMark

theorem agree_print (text : String) :
    Agree (modify (Session.print text) : Eval Unit) (modify (Env.print text)) :=
  agree_modify fun _ _ h =>
    ⟨⟨h.depth, h.bindings, congrArg (· ++ text) h.printed, h.nextMark⟩,
      ⟨Nat.le_refl _, rfl⟩⟩

theorem agreeAt_needDepth_bind {f : Unit → Eval β} {z : Run β} (room depth : Nat)
    (hf : AgreeAt (f ()) z s e) : AgreeAt (Eval.needDepth room depth >>= f) z s e := by
  rw [Eval.needDepth]
  split
  · exact .inl rfl
  · exact hf

theorem agree_needDepth_bind {f : Unit → Eval β} {z : Run β} (room depth : Nat)
    (hf : Agree (f ()) z) : Agree (Eval.needDepth room depth >>= f) z :=
  fun s e h => agreeAt_needDepth_bind room depth (hf s e h)

theorem agree_ofAny (n : Node) (r : Except Failure α) :
    Agree (Eval.ofAny n r) (ofAny n.position r) := by
  rcases r with (x | m | m) | a
  · exact agree_fail _ n
  · exact agree_throw _
  · exact agree_throw _
  · exact agree_pure a

theorem agree_inScope (h : Agree x y) : Agree (Eval.inScope x) (inBlock y) := by
  intro s e hs
  rcases h s.enter e.push hs.push with hdeep | ⟨hsame, hm, hgrows⟩
  · exact .inl hdeep
  · exact .inr ⟨hsame, hm.pop hgrows⟩

theorem agree_runAll {f : Term → Eval Value} (hf : ∀ t, Agree (f t) (run t)) (ts : List Term) :
    Agree (ts.mapM f) (runAll ts) := by
  induction ts with
  | nil => exact agree_pure []
  | cons t ts ih =>
    rw [List.mapM_cons, runAll]
    exact agree_bind (hf t) fun v => agree_bind ih fun vs => agree_pure _

theorem agree_runEach {f : Term → Eval Value} (hf : ∀ t, Agree (f t) (run t)) (ts : List Term) :
    Agree (ts.forM fun t => discard (f t)) (runEach ts) := by
  induction ts with
  | nil => exact agree_pure ()
  | cons t ts ih =>
    rw [runEach]
    exact agree_bind (agree_discard (hf t)) fun _ => ih

theorem agree_runLast {f : Term → Eval Value} (hf : ∀ t, Agree (f t) (run t)) (t : Option Term) :
    Agree (Term.optionally f t) (runLast t) := by
  cases t with
  | none => exact agree_pure _
  | some t =>
    rw [runLast]
    exact hf t

end Pieces

section Rules

variable {call within : Term → Eval Value}

theorem agree_truth (op : BinaryOp) (t : Term) (v : Value) :
    Agree (Eval.truth op t.toNode v) (truth op t.position v) := by
  cases v with
  | bool b => exact agree_pure b
  | _ => exact agree_fail _ t.toNode

theorem agree_logical (op : BinaryOp) (decisive : Bool) (a b : Term)
    (hwithin : ∀ t, Agree (within t) (run t)) :
    Agree (Term.logical within op decisive a b)
      (logical op decisive (a.position, run a) (b.position, run b)) := by
  refine agree_bind (hwithin a) fun v => agree_bind (agree_truth op a v) fun first => ?_
  split
  · exact agree_pure _
  · exact agree_bind (hwithin b) fun w => agree_bind (agree_truth op b w) fun _ => agree_pure _

theorem agree_operator (room : Nat) (n : Node) (op : BinaryOp) (a b : Term)
    (hcall : ∀ t, Agree (call t) (run t)) :
    Agree (Term.operator room call n op a b) (operator n.position op (run a) (run b)) :=
  agree_bind (hcall a) fun _ => agree_bind (hcall b) fun _ =>
    agree_needDepth_bind _ _ (agree_bind (agree_ofAny n _) fun _ => agree_made _)

theorem agree_application (room : Nat) (n : Node) (as : List Term) (v : Value)
    (hwithin : ∀ t, Agree (within t) (run t)) :
    Agree (Term.application room within n as v) (apply n.position (runAll as) v) := by
  cases v with
  | function b =>
    exact agree_bind (agree_runAll hwithin as) fun _ => agree_needDepth_bind _ _
      (agree_bind (agree_ofAny n _) fun _ => agree_bind (agree_print _) fun _ => agree_made _)
  | _ => exact agree_fail _ n

theorem agree_choose (c a : Term) (e : Option Term) (v : Value)
    (hcall : ∀ t, Agree (call t) (run t)) :
    Agree (Term.choose call c a e v) (choose c.position (run a) (runLast e) v) := by
  cases v with
  | bool b =>
    cases b with
    | true => exact hcall a
    | false => exact agree_runLast hcall e
  | _ => exact agree_fail _ c.toNode

/-- The slot that was found at first is still that of the address. -/
theorem agree_write (room : Nat) (n : Node) (op : AssignOp) {e : Env} {a : Address} (b : Local)
    (v : Value) (ha : Holds a e.scopes) {s' : Session} {e' : Env} (h : Related s' e')
    (hgrows : e.Grows e') :
    AgreeAt (Term.write room n op (slot a e.scopes) (b.at a.level) v)
      (assign n.position op a b v) s' e' := by
  have hset (w : Value) {m : Session} {f : Env} (hm : Related m f) (hf : e.Grows f) :
      AgreeAt (modify (Session.set (slot a e.scopes) w) : Eval Unit) (modify (Env.set a w))
        m f := by
    obtain ⟨hslot, hholds⟩ := hf.slot ha
    rw [← hslot]
    exact .inr ⟨rfl, hm.set hholds w⟩
  cases op with
  | replace => exact hset v h hgrows
  | combine op =>
    obtain ⟨hslot, hholds⟩ := hgrows.slot ha
    have hold : (s'.at? (slot a e.scopes)).getD b.value = (read? a e'.scopes).getD b.value := by
      rw [← hslot, h.read hholds]
    rw [Term.write, assign]
    refine agreeAt_get_bind ?_
    dsimp only [Local.at]
    rw [hold]
    refine agreeAt_needDepth_bind _ _ (agreeAt_bind (agree_ofAny n _ s' e' h) ?_)
    intro r m f hm hf
    refine agreeAt_bind (agree_made r m f hm) fun w m' f' hm' hf' => ?_
    exact hset w hm' (hgrows.trans (hf.trans hf'))

theorem agree_assignment (room : Nat) (n : Node) (p : Position) (op : AssignOp) (name : String)
    (a : Term) (hp : n.position = p) (hcall : ∀ t, Agree (call t) (run t)) :
    Agree (get >>= fun s => Term.assignment room call n (Term.nameNode p name) op name a
      (s.find? (.text name))) (assignment p op name (run a)) := by
  subst hp
  refine agree_get_bind fun s e h => ?_
  rw [h.find name]
  cases hfind : find name e.scopes with
  | none => exact agree_fail _ (Term.nameNode n.position name) s e h
  | some found =>
    obtain ⟨at_, b⟩ := found
    simp only [Option.map_some, Term.assignment, Local.at]
    cases hfunction : b.isFunction with
    | true => exact agree_fail _ n s e h
    | false =>
      cases hmutable : b.isMutable with
      | false => exact agree_fail _ n s e h
      | true =>
        refine agreeAt_bind (hcall a s e h) fun v s' e' h' hgrows => ?_
        have hwrite := agree_write room n op b v (holds_of_find hfind) h' hgrows
        exact agreeAt_bind hwrite fun _ s'' e'' h'' _ => agree_pure _ s'' e'' h''

theorem agree_rule (room : Nat) (hcall : ∀ t, Agree (call t) (run t))
    (hwithin : ∀ t, Agree (within t) (run t)) (t : Term) :
    Agree (Term.rule room call within t) (run t) := by
  cases t with
  | integer p n => rw [run]; exact agree_made _
  | float p x => rw [run]; exact agree_made _
  | string p s => rw [run]; exact agree_made _
  | bool p b => rw [run]; exact agree_pure _
  | unit p => rw [run]; exact agree_pure _
  | identifier p name =>
    rw [run]
    refine agree_get_bind fun s e h => ?_
    rw [h.find name]
    cases find name e.scopes with
    | none => exact agree_fail _ (Term.identifier p name).toNode s e h
    | some found => exact agree_pure _ s e h
  | unary p op a =>
    rw [run]
    exact agree_bind (hcall a) fun _ => agree_bind (agree_ofAny _ _) fun _ => agree_made _
  | binary p op a b =>
    cases op with
    | and => rw [run]; exact agree_logical _ _ a b hwithin
    | or => rw [run]; exact agree_logical _ _ a b hwithin
    | _ =>
      rw [run]
      · exact agree_operator room _ _ a b hcall
      · simp
      · simp
  | call p f as =>
    rw [run]
    exact agree_bind (hcall f) fun v => agree_application room _ as v hwithin
  | index p a i =>
    rw [run]
    exact agree_bind (hcall a) fun _ => agree_bind (hcall i) fun _ => agree_ofAny _ _
  | tuple p as =>
    rw [run]
    exact agree_bind (agree_runAll hwithin as) fun _ => agree_made _
  | array p as =>
    rw [run]
    exact agree_bind (agree_runAll hwithin as) fun _ => agree_made _
  | block p ts last =>
    rw [run]
    exact agree_inScope (agree_bind (agree_runEach hcall ts) fun _ => agree_runLast hcall last)
  | conditional p c a e =>
    rw [run]
    exact agree_bind (hcall c) fun v => agree_choose c a e v hcall
  | binding p isMutable name a =>
    rw [run]
    exact agree_bind (hcall a) fun v =>
      agree_bind (agree_modify fun _ _ h => h.define name v isMutable) fun _ => agree_pure _
  | assign p op name a =>
    rw [run]
    exact agree_assignment room _ p op name a rfl hcall
  | giveBack p a =>
    rw [run]
    exact agree_bind (agree_runLast hcall a) fun _ => agree_throw _

end Rules

theorem agree_eval (room : Nat) (t : Term) : Agree (eval room t.toNode) (run t) := by
  refine eval_invariant (P := fun call => ∀ t : Term, Agree (call t.toNode) (run t))
    (fun t => agree_tooDeep (run t)) (fun room call within hcall hwithin t => ?_) room t
  rw [Term.rule_toNode]
  exact agree_rule room hcall hwithin t

/-- A program was given up at a place where the room ran out. -/
def GivenUp (result : Result) : Prop :=
  ∃ p, result = .error ⟨.runtime, RuntimeError.nestedTooDeeply.message, p⟩

theorem outcome_statements_cons (last : Option Value) (t : Term) (ts : List Term) (e : Env) :
    (statements last (t :: ts)).outcome e =
      match (run t).outcome e with
      | (.ok v, f) => (statements (some v) ts).outcome f
      | (.error i, f) => (.error i, f) := by
  rw [statements, outcome_bind]
  rcases (run t).outcome e with ⟨i | v, f⟩ <;> rfl

theorem agree_statements (room : Nat) (ts : List Term) (last : Option Value) {s : Session} {e : Env}
    (h : Related s e) :
    let ended := (Eval.statements room last (Term.toNodes ts)).outcome s
    GivenUp (.ofOutcome ended.1) ∨
      (ended.1 = ((statements last ts).outcome e).1 ∧
        Related ended.2 ((statements last ts).outcome e).2) := by
  induction ts generalizing last s e with
  | nil => exact .inr ⟨rfl, h⟩
  | cons t ts ih =>
    have hhead := agree_eval room t s e h
    simp only [Term.toNodes, Eval.outcome_statements_cons, Eval.outcome_statement,
      outcome_statements_cons]
    rw [AgreeAt] at hhead
    rcases hs : (eval room t.toNode).outcome s with ⟨r, m⟩
    rcases he : (run t).outcome e with ⟨r', f⟩
    rw [hs, he] at hhead
    rcases hhead with hdeep | ⟨hsame, hm, -⟩
    · cases hdeep
      exact .inl ⟨t.toNode.position, rfl⟩
    · cases hsame
      cases r with
      | ok v => exact ih (some v) hm
      | error i =>
        cases i with
        | tooDeep => exact .inl ⟨t.toNode.position, rfl⟩
        | _ => exact .inr ⟨rfl, hm⟩

theorem Env.evaluate_eq (e : Env) (ts : List Term) :
    e.evaluate ts =
      (.ofOutcome ((statements none ts).outcome e).1, ((statements none ts).outcome e).2) := by
  have hrun : e.evaluate ts =
      match (statements none ts).outcome e with
      | (.ok v, e) => (.value v, e)
      | (.error i, e) => (Result.ofInterrupt i, e) := rfl
  rw [hrun]
  rcases (statements none ts).outcome e with ⟨i | v, f⟩ <;> rfl

theorem related_withBuiltins : Related .withBuiltins .withBuiltins where
  depth := rfl
  bindings := by
    have horder : Session.withBuiltins.oldestFirst =
        Builtin.all.map fun b => ⟨.text b.name, .function b, false, 0, true⟩ :=
      List.reverse_reverse _
    have hflat : flat Env.withBuiltins.scopes =
        (Builtin.all.map fun b => ⟨b.name, .function b, false, true⟩).map (Local.at 0) :=
      List.nil_append _
    rw [horder, hflat, List.map_map]
    rfl
  printed := rfl
  nextMark := rfl

/-- Programs without error nodes stand for terms, and from related states their
evaluation comes to what the terms come to with lexical scopes, in related states again,
unless it is given up for want of room. -/
theorem flat_bindings_refine_scopes {text : List Char}
    (hclean : Node.containsErrors (Reading.ofText text).statements = false) :
    let ns := (Reading.ofText text).statements
    (∃ ts, Term.toNodes ts = ns) ∧
      ∀ ts, Term.toNodes ts = ns → ∀ s e, Related s e → ¬ GivenUp (s.evaluate ns).1 →
        ((Eval.statements evaluationLimit none ns).outcome s).1 =
            ((statements none ts).outcome e).1 ∧
          (s.evaluate ns).1 = (e.evaluate ts).1 ∧
          (s.evaluate ns).2.printed = (e.evaluate ts).2.printed ∧
          Related (s.evaluate ns).2 (e.evaluate ts).2 := by
  refine ⟨Reading.terms_of_text hclean, ?_⟩
  rintro ts hts s e hrelated hroom
  rw [← hts] at hclean hroom ⊢
  rw [Session.evaluate_eq hclean] at hroom ⊢
  rw [Env.evaluate_eq]
  rcases agree_statements evaluationLimit ts none hrelated with hgivenUp | ⟨hsame, hend⟩
  · exact absurd hgivenUp hroom
  · exact ⟨hsame, congrArg Result.ofOutcome hsame, hend.printed, hend⟩

/-- The source of an assignment shadows its target, which is then written. -/
theorem scopes_of_shadowed_target :
    let text := "let mut x = 1; x = { let x = 5; x + 1 }; print(x); [x]"
    let ns := (Reading.ofText text.toList).statements
    ∃ ts, Term.toNodes ts = ns ∧
      (Session.withBuiltins.evaluate ns).1 = (Env.withBuiltins.evaluate ts).1 ∧
      Related (Session.withBuiltins.evaluate ns).2 (Env.withBuiltins.evaluate ts).2 := by
  intro text ns
  have hclean : Node.containsErrors ns = false := Reading.containsErrors_of_ok (by decide +kernel)
  obtain ⟨⟨ts, hts⟩, hrefines⟩ := flat_bindings_refine_scopes hclean
  have hvalue : (match (Session.withBuiltins.evaluate ns).1 with
      | .value _ => true
      | _ => false) = true := by
    decide +kernel
  have hroom : ¬ GivenUp (Session.withBuiltins.evaluate ns).1 := by
    rintro ⟨p, hp⟩
    rw [hp] at hvalue
    cases hvalue
  obtain ⟨-, hresult, -, hend⟩ := hrefines ts hts _ _ related_withBuiltins hroom
  exact ⟨ts, hts, hresult, hend⟩

end Scriptlet.Lexical
