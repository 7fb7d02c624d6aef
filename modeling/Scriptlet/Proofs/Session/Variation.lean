import Mathlib.Data.List.Forall2
import Scriptlet.Proofs.Session.Outcome
import Scriptlet.Proofs.Session.Slot
import Scriptlet.Proofs.Tree.Errors

/-!
# Sessions that vary in what evaluation does not look at

Where a session stands and how deep its bindings lie matters only for which of them a block
drops. Whether a variable is mutable matters only to assignments to it. So two sessions that
differ in nothing else are told apart by no evaluation that assigns to none of these
variables: it comes to the same in both, and leaves sessions that differ no more than before.
The second evaluation may have less room than the first; then it may also run out of it.
-/

namespace Scriptlet

open ExceptT (outcome_bind)

/-- In what two sessions may differ: bindings deeper than `floor` lie `lift` levels deeper in
the second one, and those with a `frozen` name may be mutable in one of the two only. -/
structure Variation where
  floor : Int
  lift : Nat
  frozen : String → Prop

namespace Datum

theorem equals_text_left {name : String} {v : Datum Node} (h : equals (.text name) v = true) :
    v = .text name := by
  cases v <;> simp_all [equals, number?]

end Datum

/-- An assignment to a variable of the name. -/
def Node.AssignsTo (name : String) (n : Node) : Prop :=
  n.kind = .assign ∧ ∃ target ∈ n.children.head?, target.value = .text name

/-- No part of the tree assigns to a frozen variable. -/
def Variation.Spares (k : Variation) (n : Node) : Prop :=
  n.Everywhere fun m => ∀ name, k.frozen name → ¬ m.AssignsTo name

theorem Variation.Spares.part {k : Variation} {n m : Node} (h : k.Spares n) (hm : m ∈ n.parts) :
    k.Spares m := (Node.everywhere_iff.mp h).2 m hm

structure Binding.Varies (k : Variation) (b b' : Binding) : Prop where
  name : b'.name = b.name
  value : b'.value = b.value
  isFunction : b'.isFunction = b.isFunction
  isMutable : b'.isMutable = b.isMutable ∨ ∃ name, k.frozen name ∧ b.name = .text name
  depth : b'.depth = b.depth + k.lift ∨ (b'.depth = b.depth ∧ b.depth ≤ k.floor)

/-- The first session stands at the given depth, and the second one differs from it in what
may vary. -/
structure Session.Varies (k : Variation) (level : Int) (s s' : Session) : Prop where
  floor : k.floor ≤ level
  depth : s.depth = level
  depth' : s'.depth = level + k.lift
  bindings : List.Forall₂ (Binding.Varies k) s.bindings s'.bindings
  printed : s'.printed = s.printed
  nextMark : s'.nextMark = s.nextMark

/-- Bindings at the same depth, of which neither is frozen, vary in nothing. -/
theorem Binding.Varies.eq {k : Variation} {b b' : Binding} (h : b.Varies k b')
    (hfrozen : ∀ name, ¬ k.frozen name) (hdepth : b'.depth = b.depth) : b' = b := by
  obtain ⟨hname, hvalue, hfunction, hmutable, -⟩ := h
  have hmutable : b'.isMutable = b.isMutable :=
    hmutable.resolve_right fun ⟨name, hname, _⟩ => hfrozen name hname
  cases b
  cases b'
  simp_all

section Bindings

variable {k : Variation} {bs bs' : List Binding}

theorem findBinding_varies (h : List.Forall₂ (Binding.Varies k) bs bs') (name : Datum Node) :
    (findBinding name bs = none ∧ findBinding name bs' = none) ∨
      ∃ slot b b', findBinding name bs = some (slot, b) ∧ findBinding name bs' = some (slot, b') ∧
        b.Varies k b' := by
  induction h with
  | nil => exact .inl ⟨rfl, rfl⟩
  | @cons b b' older older' hb holder ih =>
    rw [findBinding, findBinding, hb.name, holder.length_eq]
    cases b.name.equals name with
    | true => exact .inr ⟨_, b, b', rfl, rfl, hb⟩
    | false => exact ih

theorem valueAt?_varies (h : List.Forall₂ (Binding.Varies k) bs bs') (slot : Nat) :
    valueAt? slot bs' = valueAt? slot bs := by
  induction h with
  | nil => rfl
  | cons hb holder ih => rw [valueAt?, valueAt?, hb.value, holder.length_eq, ih]

theorem setBinding_varies (h : List.Forall₂ (Binding.Varies k) bs bs') (slot : Nat) (v : Value) :
    List.Forall₂ (Binding.Varies k) (setBinding slot v bs) (setBinding slot v bs') := by
  induction h with
  | nil => exact .nil
  | cons hb holder ih =>
    rw [setBinding, setBinding, holder.length_eq]
    split
    · exact .cons ⟨hb.name, rfl, hb.isFunction, hb.isMutable, hb.depth⟩ holder
    · exact .cons hb ih

end Bindings

namespace Session.Varies

variable {k : Variation} {level : Int} {s s' : Session}

theorem enter (h : Varies k level s s') : Varies k (level + 1) s.enter s'.enter where
  floor := Int.le_add_one h.floor
  depth := congrArg (· + 1) h.depth
  depth' := (congrArg (· + 1) h.depth').trans (Int.add_right_comm ..)
  bindings := h.bindings
  printed := h.printed
  nextMark := h.nextMark

/-- The same bindings are dropped: those at the floor or below stay in either session. -/
theorem leave (h : Varies k (level + 1) s s') (hfloor : k.floor ≤ level) :
    Varies k level s.leave s'.leave where
  floor := hfloor
  depth := (congrArg (· - 1) h.depth).trans (by omega)
  depth' := (congrArg (· - 1) h.depth').trans (by omega)
  bindings := by
    refine List.rel_filter (fun b b' hb => ?_) h.bindings
    have hdepth := h.depth
    have hdepth' := h.depth'
    have hb := hb.depth
    simp only [decide_eq_true_eq]
    omega
  printed := h.printed
  nextMark := h.nextMark

theorem define (h : Varies k level s s') (name : Datum Node) (v : Value) (isMutable : Bool) :
    Varies k level (s.define name v isMutable) (s'.define name v isMutable) := by
  refine ⟨h.floor, h.depth, h.depth', .cons ⟨rfl, rfl, rfl, .inl rfl, .inl ?_⟩ h.bindings,
    h.printed, h.nextMark⟩
  rw [h.depth, h.depth']

theorem set (h : Varies k level s s') (slot : Nat) (v : Value) :
    Varies k level (s.set slot v) (s'.set slot v) :=
  ⟨h.floor, h.depth, h.depth', setBinding_varies h.bindings slot v, h.printed, h.nextMark⟩

theorem print (h : Varies k level s s') (text : String) :
    Varies k level (s.print text) (s'.print text) :=
  ⟨h.floor, h.depth, h.depth', h.bindings, congrArg (· ++ text) h.printed, h.nextMark⟩

/-- Bindings in the same slot vary from each other. -/
theorem slot (h : Varies k level s s') {i : Nat} {b b' : Binding}
    (hb : s.oldestFirst[i]? = some b) (hb' : s'.oldestFirst[i]? = some b') : b.Varies k b' := by
  obtain ⟨hi, rfl⟩ := List.getElem?_eq_some_iff.mp hb
  obtain ⟨hi', rfl⟩ := List.getElem?_eq_some_iff.mp hb'
  exact (List.forall₂_reverse_iff.mpr h.bindings).get hi hi'

end Session.Varies

namespace Eval

variable {α β : Type} {k : Variation} {level : Int}

/-- In a session that varies, `x` comes to the same as `y`, in a session that varies, unless
it runs out of room. -/
def Lags (k : Variation) (level : Int) (x y : Eval α) : Prop :=
  ∀ s s', Session.Varies k level s s' → (x.outcome s').1 = .error .tooDeep ∨
    ((x.outcome s').1 = (y.outcome s).1 ∧ Session.Varies k level (y.outcome s).2 (x.outcome s').2)

section Pieces

variable {x y : Eval α}

theorem lags_pure (a : α) : Lags k level (pure a) (pure a) := fun _ _ h => .inr ⟨rfl, h⟩

theorem lags_throw (i : Interrupt) : Lags k level (throw i : Eval α) (throw i) :=
  fun _ _ h => .inr ⟨rfl, h⟩

theorem lags_fail (e : RuntimeError) (n : Node) : Lags k level (fail e n : Eval α) (fail e n) :=
  lags_throw _

theorem lags_fault (f : Fault) : Lags k level (fault f : Eval α) (fault f) := lags_throw _

theorem lags_tooDeep (y : Eval α) : Lags k level tooDeep y := fun _ _ _ => .inl rfl

theorem lags_bind {f g : α → Eval β} (hx : Lags k level x y)
    (hf : ∀ a, Lags k level (f a) (g a)) : Lags k level (x >>= f) (y >>= g) := by
  intro s s' h
  have hmid := hx s s' h
  rw [outcome_bind, outcome_bind]
  rcases hs : x.outcome s' with ⟨r, m'⟩
  rcases hs' : y.outcome s with ⟨r', m⟩
  rw [hs, hs'] at hmid
  rcases hmid with hdeep | ⟨hsame, hm⟩
  · cases hdeep
    exact .inl rfl
  · cases hsame
    cases r with
    | error i => exact .inr ⟨rfl, hm⟩
    | ok a => exact hf a m m' hm

theorem lags_get_bind {f g : Session → Eval β}
    (h : ∀ s s', Session.Varies k level s s' → Lags k level (f s') (g s)) :
    Lags k level (get >>= f) (get >>= g) := fun s s' hs => h s s' hs s s' hs

theorem lags_modify {f : Session → Session}
    (h : ∀ s s', Session.Varies k level s s' → Session.Varies k level (f s) (f s')) :
    Lags k level (modify f : Eval Unit) (modify f) := fun s s' hs => .inr ⟨rfl, h s s' hs⟩

theorem lags_discard (h : Lags k level x y) : Lags k level (discard x) (discard y) :=
  lags_bind h fun _ => lags_pure _

theorem lags_made (v : Value) : Lags k level (made v) (made v) := by
  intro s s' h
  refine .inr ⟨?_, h.floor, h.depth, h.depth', h.bindings, h.printed, ?_⟩
  · exact congrArg (fun m => Except.ok (v.withMark m)) h.nextMark
  · exact congrArg (· + 1) h.nextMark

theorem lags_needDepth {room room' : Nat} (h : room ≤ room') (levels : Nat) :
    Lags k level (needDepth room levels) (needDepth room' levels) := by
  unfold needDepth
  by_cases hroom : room < 3 * levels
  · rw [if_pos hroom]
    exact lags_tooDeep _
  · rw [if_neg hroom, if_neg (by omega)]
    exact lags_pure _

theorem lags_ofAny (n : Node) (r : Except Failure α) : Lags k level (ofAny n r) (ofAny n r) := by
  rcases r with (e | m | m) | a
  · exact lags_fail _ _
  · exact lags_fault _
  · exact lags_fault _
  · exact lags_pure a

theorem lags_inScope (h : Lags k (level + 1) x y) : Lags k level (inScope x) (inScope y) := by
  intro s s' hs
  rcases h s.enter s'.enter hs.enter with hdeep | ⟨hsame, hm⟩
  · exact .inl hdeep
  · exact .inr ⟨hsame, hm.leave hs.floor⟩

theorem lags_twoParts_bind {ns : List Node} {f g : Node × Node → Eval β}
    (h : ∀ a b, ns = [a, b] → Lags k level (f (a, b)) (g (a, b))) :
    Lags k level (twoParts ns >>= f) (twoParts ns >>= g) := by
  unfold twoParts
  split
  · next a b => exact h a b rfl
  · exact fun _ _ h => .inr ⟨rfl, h⟩

theorem lags_part_bind {ns : List Node} {i : Nat} {f g : Node → Eval β}
    (h : ∀ a ∈ ns, Lags k level (f a) (g a)) :
    Lags k level (part ns i >>= f) (part ns i >>= g) := by
  rw [part]
  split
  · next a ha => exact h a (List.mem_of_getElem? ha)
  · exact fun _ _ h => .inr ⟨rfl, h⟩

theorem lags_mapM {f g : Node → Eval Value} {ns : List Node}
    (h : ∀ a ∈ ns, Lags k level (f a) (g a)) : Lags k level (ns.mapM f) (ns.mapM g) := by
  induction ns with
  | nil => exact lags_pure []
  | cons n ns ih =>
    rw [List.forall_mem_cons] at h
    rw [mapM_cons, mapM_cons]
    exact lags_bind h.1 fun _ => lags_bind (ih h.2) fun _ => lags_pure _

theorem lags_forM {f g : Node → Eval Unit} {ns : List Node}
    (h : ∀ a ∈ ns, Lags k level (f a) (g a)) : Lags k level (ns.forM f) (ns.forM g) := by
  induction ns with
  | nil => exact lags_pure ()
  | cons n ns ih =>
    rw [List.forall_mem_cons] at h
    exact lags_bind h.1 fun _ => ih h.2

end Pieces

section Rules

variable {call call' within within' : Node → Eval Value} {room room' : Nat} {n : Node}

/-- On the parts of a node, `call` lags behind `call'` at every depth. -/
def PartsLag (k : Variation) (call call' : Node → Eval Value) (n : Node) : Prop :=
  ∀ m ∈ n.parts, ∀ level, Lags k level (call m) (call' m)

theorem PartsLag.child (h : PartsLag k call call' n) :
    ∀ m ∈ n.children, Lags k level (call m) (call' m) :=
  fun m hm => h m (by simp [Node.parts, hm]) level

theorem PartsLag.ofValue (h : PartsLag k call call' n) {m : Node} (hm : n.value = .node m) :
    Lags k level (call m) (call' m) :=
  h m (by simp [Node.parts, Node.ofValue, hm]) level

theorem lags_identifier : Lags k level (identifier n) (identifier n) := by
  refine lags_get_bind fun s s' h => ?_
  rw [Session.find?, Session.find?]
  rcases findBinding_varies h.bindings n.value with ⟨hs, hs'⟩ | ⟨slot, b, b', hs, hs', hb⟩
  · rw [hs, hs']
    exact lags_fail _ _
  · rw [hs, hs']
    dsimp only
    rw [hb.value]
    exact lags_pure _

theorem lags_unary (hcall : PartsLag k call call' n) :
    Lags k level (unary call n) (unary call' n) := by
  refine lags_part_bind fun a ha => lags_bind (hcall.child a ha) fun v => ?_
  split
  · exact lags_bind (lags_ofAny _ _) fun _ => lags_made _
  · exact lags_fault _

theorem lags_truth (op : BinaryOp) (n : Node) (v : Value) :
    Lags k level (truth op n v) (truth op n v) := by
  unfold truth
  split
  · exact lags_pure _
  · exact lags_fail _ _

theorem lags_logical (op : BinaryOp) (decisive : Bool) {left right : Node}
    (hleft : Lags k level (within left) (within' left))
    (hright : Lags k level (within right) (within' right)) :
    Lags k level (logical within op decisive left right)
      (logical within' op decisive left right) := by
  refine lags_bind hleft fun v => lags_bind (lags_truth _ _ _) fun first => ?_
  split
  · exact lags_pure _
  · exact lags_bind hright fun w => lags_bind (lags_truth _ _ _) fun _ => lags_pure _

theorem lags_binary (hroom : room ≤ room') (hcall : PartsLag k call call' n)
    (hwithin : PartsLag k within within' n) :
    Lags k level (binary room call within n) (binary room' call' within' n) := by
  refine lags_twoParts_bind fun a b hparts => ?_
  have ha : a ∈ n.children := by simp [hparts]
  have hb : b ∈ n.children := by simp [hparts]
  dsimp only
  split
  · exact lags_bind (lags_discard (hcall.child a ha)) fun _ =>
      lags_bind (lags_discard (hcall.child b hb)) fun _ => lags_fault _
  · split
    · exact lags_logical _ _ (hwithin.child a ha) (hwithin.child b hb)
    · exact lags_logical _ _ (hwithin.child a ha) (hwithin.child b hb)
    · exact lags_bind (hcall.child a ha) fun _ => lags_bind (hcall.child b hb) fun _ =>
        lags_bind (lags_needDepth hroom _) fun _ => lags_bind (lags_ofAny _ _) fun _ =>
        lags_made _

theorem lags_application (hroom : room ≤ room') (hcall : PartsLag k call call' n)
    (hwithin : PartsLag k within within' n) :
    Lags k level (application room call within n) (application room' call' within' n) := by
  rw [application, application]
  split
  · next callee hcallee =>
    refine lags_bind (hcall.ofValue hcallee) fun v => ?_
    split
    · exact lags_bind (lags_mapM hwithin.child) fun _ =>
        lags_bind (lags_needDepth hroom _) fun _ => lags_bind (lags_ofAny _ _) fun _ =>
        lags_bind (lags_modify fun _ _ h => h.print _) fun _ => lags_made _
    · exact lags_fail _ _
  · exact lags_fault _

theorem lags_indexing (hcall : PartsLag k call call' n) :
    Lags k level (indexing call n) (indexing call' n) :=
  lags_part_bind fun a ha => lags_bind (hcall.child a ha) fun _ =>
    lags_part_bind fun i hi => lags_bind (hcall.child i hi) fun _ => lags_ofAny _ _

theorem lags_block (hcall : PartsLag k call call' n) :
    Lags k level (block call n) (block call' n) := by
  refine lags_inScope (lags_bind (lags_forM fun a ha => lags_discard (hcall.child a ha))
    fun _ => ?_)
  split
  · exact lags_pure _
  · next last hlast => exact hcall.ofValue hlast
  · exact lags_fault _

theorem lags_conditional (hcall : PartsLag k call call' n) :
    Lags k level (conditional call n) (conditional call' n) := by
  refine lags_twoParts_bind fun c t hparts => ?_
  have hc : c ∈ n.children := by simp [hparts]
  have ht : t ∈ n.children := by simp [hparts]
  refine lags_bind (hcall.child c hc) fun v => ?_
  split
  · exact hcall.child t ht
  · split
    · exact lags_pure _
    · next branch _ hbranch =>
      exact hcall branch (by simp [Node.parts, hbranch]) level
  · exact lags_fail _ _

theorem lags_binding (hcall : PartsLag k call call' n) :
    Lags k level (binding call n) (binding call' n) :=
  lags_part_bind fun a ha => lags_bind (hcall.child a ha) fun _ =>
    lags_bind (lags_modify fun _ _ h => h.define _ _ _) fun _ => lags_pure _

/-- The target is none of the frozen variables, so that it is mutable in both sessions or in
neither. -/
theorem lags_assignment (hroom : room ≤ room') (hcall : PartsLag k call call' n)
    (hkind : n.kind = .assign) (hspares : ∀ name, k.frozen name → ¬ n.AssignsTo name) :
    Lags k level (assignment room call n) (assignment room' call' n) := by
  refine lags_twoParts_bind fun target source hparts => lags_get_bind fun s s' h => ?_
  have hsource : source ∈ n.children := by simp [hparts]
  rw [Session.find?, Session.find?]
  rcases findBinding_varies h.bindings target.value with ⟨hs, hs'⟩ | ⟨slot, b, b', hs, hs', hb⟩
  · rw [hs, hs']
    exact lags_fail _ _
  have hmutable : b'.isMutable = b.isMutable := by
    refine hb.isMutable.resolve_right ?_
    rintro ⟨name, hfrozen, hname⟩
    have hequals := (findBinding_slot hs).2
    rw [hname] at hequals
    refine hspares name hfrozen ⟨hkind, target, by simp [hparts], ?_⟩
    exact Datum.equals_text_left hequals
  rw [hs, hs']
  dsimp only
  rw [hb.isFunction, hmutable]
  split
  · exact lags_fail _ _
  split
  · exact lags_fail _ _
  have hset (v : Value) :
      Lags k level (modify (Session.set slot v) : Eval Unit) (modify (Session.set slot v)) :=
    lags_modify fun _ _ h => h.set slot v
  refine lags_bind (hcall.child source hsource) fun v => ?_
  split
  · exact lags_fault _
  split
  · exact lags_bind (hset v) fun _ => lags_pure _
  · refine lags_get_bind fun m m' hm => ?_
    rw [Session.at?, Session.at?, valueAt?_varies hm.bindings, hb.value]
    exact lags_bind (lags_needDepth hroom _) fun _ => lags_bind (lags_ofAny _ _) fun _ =>
      lags_bind (lags_made _) fun w => lags_bind (hset w) fun _ => lags_pure _

theorem lags_giveBack (hcall : PartsLag k call call' n) :
    Lags k level (giveBack call n) (giveBack call' n) := by
  rw [giveBack, giveBack]
  split
  · exact lags_throw _
  · next source _ hsource =>
    exact lags_bind (hcall.child source (by simp [hsource])) fun _ => lags_throw _

theorem lags_integerLiteral : Lags k level (integerLiteral n) (integerLiteral n) := by
  have hrange (a : Number) :
      Lags k level (integerLiteral.inRange a) (integerLiteral.inRange a) := by
    rw [integerLiteral.inRange]
    split
    · exact lags_made _
    · exact lags_fault _
  rw [integerLiteral]
  split
  · exact hrange _
  · exact hrange _
  · exact lags_made _
  · exact lags_fault _

theorem lags_floatLiteral : Lags k level (floatLiteral n) (floatLiteral n) := by
  rw [floatLiteral]
  split
  · exact lags_made _
  · exact lags_made _
  · unfold floatLiteral.ofWhole
    dsimp only
    split
    · exact lags_fault _
    · exact lags_made _
  · rw [floatLiteral.fromText]
    split
    · exact lags_made _
    · exact lags_fault _
  · exact lags_fault _

theorem lags_rule (hroom : room ≤ room') (hcall : PartsLag k call call' n)
    (hwithin : PartsLag k within within' n)
    (hspares : ∀ name, k.frozen name → ¬ n.AssignsTo name) :
    Lags k level (rule room call within n) (rule room' call' within' n) := by
  rw [rule, rule]
  split
  · exact lags_integerLiteral
  · exact lags_floatLiteral
  · exact lags_made _
  · exact lags_pure _
  · exact lags_pure _
  · exact lags_bind (lags_mapM hwithin.child) fun _ => lags_made _
  · exact lags_bind (lags_mapM hwithin.child) fun _ => lags_made _
  · exact lags_identifier
  · exact lags_unary hcall
  · exact lags_binary hroom hcall hwithin
  · exact lags_application hroom hcall hwithin
  · exact lags_indexing hcall
  · exact lags_block hcall
  · exact lags_conditional hcall
  · exact lags_binding hcall
  · next hkind => exact lags_assignment hroom hcall hkind hspares
  · exact lags_giveBack hcall
  · exact lags_fault _
  · exact lags_fault _

end Rules

end Eval

/-- With less room, in a session that varies, a tree that spares the frozen variables is
evaluated to the same, if the room suffices. -/
theorem lags_eval {k : Variation} (room : Nat) : ∀ {room' : Nat}, room ≤ room' → ∀ n : Node,
    k.Spares n → ∀ level, Eval.Lags k level (eval room n) (eval room' n) := by
  induction room using Nat.strongRecOn with
  | ind room ih =>
    intro room' hroom n hspares level
    have hroot := (Node.everywhere_iff.mp hspares).1
    match room, room' with
    | 0, _ => exact Eval.lags_tooDeep _
    | 1, _ => exact Eval.lags_tooDeep _
    | 2, 2 =>
      exact Eval.lags_rule (Nat.le_refl _) (fun _ _ _ => Eval.lags_tooDeep _)
        (fun _ _ _ => Eval.lags_tooDeep _) hroot
    | 2, room' + 3 =>
      exact Eval.lags_rule (Nat.zero_le _) (fun _ _ _ => Eval.lags_tooDeep _)
        (fun _ _ _ => Eval.lags_tooDeep _) hroot
    | room + 3, room' + 3 =>
      have hpart : ∀ m ∈ n.parts, k.Spares m := fun m hm => hspares.part hm
      exact Eval.lags_rule (by omega)
        (fun m hm => ih (room + 1) (by omega) (by omega) m (hpart m hm))
        (fun m hm => ih room (by omega) (by omega) m (hpart m hm)) hroot

/-- Nothing is frozen, so every tree is spared. -/
theorem Variation.spares_of_not_frozen {k : Variation} (h : ∀ name, ¬ k.frozen name) (n : Node) :
    k.Spares n := fun _ _ name hname => absurd hname (h name)

namespace Session.Varies

variable {level : Int} {s s' : Session}

theorem refl (s : Session) : Varies ⟨s.depth, 0, fun _ => False⟩ s.depth s s where
  floor := Int.le_refl _
  depth := rfl
  depth' := (Int.add_zero _).symm
  bindings := List.forall₂_same.mpr fun _ _ =>
    ⟨rfl, rfl, rfl, .inl rfl, .inl (Int.add_zero _).symm⟩
  printed := rfl
  nextMark := rfl

/-- Where nothing may vary, nothing does. -/
theorem eq {floor : Int} (h : Varies ⟨floor, 0, fun _ => False⟩ level s s') : s' = s := by
  have hbindings : s.bindings = s'.bindings := by
    refine List.forall₂_eq_eq_eq ▸ h.bindings.imp fun _ _ hb => ?_
    refine (hb.eq (fun _ => id) ?_).symm
    exact hb.depth.elim (fun hlift => hlift.trans (Int.add_zero _)) And.left
  have hdepth : s'.depth = s.depth := h.depth'.trans ((Int.add_zero _).trans h.depth.symm)
  obtain ⟨-, -, -, -, hprinted, hmark⟩ := h
  cases s
  cases s'
  simp_all

end Session.Varies

/-- Where the room suffices, more room changes nothing. -/
theorem outcome_eval_of_le {room room' : Nat} (h : room ≤ room') (n : Node) (s : Session) :
    ((eval room n).outcome s).1 = .error .tooDeep ∨
      (eval room n).outcome s = (eval room' n).outcome s := by
  have hspares := Variation.spares_of_not_frozen (k := ⟨s.depth, 0, fun _ => False⟩) (fun _ => id) n
  exact (lags_eval room h n hspares s.depth s s (.refl s)).imp_right fun ⟨hsame, hvaries⟩ =>
    Prod.ext hsame hvaries.eq

end Scriptlet
