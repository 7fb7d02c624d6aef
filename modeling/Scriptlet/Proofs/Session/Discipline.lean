import Scriptlet.Proofs.Session.Outcome
import Scriptlet.Proofs.Session.Slot

/-!
# What evaluations do to the bindings

However an evaluation ends, it comes back to the depth where it began, leaves the
bindings that were there in place, and adds its own behind them, all at this depth.
Only the value of a mutable variable may be another one. It does not matter what the
tree is: trees made by hand are covered.
-/

namespace Scriptlet

/-- The same binding later on: its value changes only where assignments may go. -/
structure Binding.Kept (b b' : Binding) : Prop where
  name : b'.name = b.name
  isMutable : b'.isMutable = b.isMutable
  depth : b'.depth = b.depth
  isFunction : b'.isFunction = b.isFunction
  value : b.isMutable = false ∨ b.isFunction = true → b'.value = b.value

namespace Binding.Kept

theorem refl (b : Binding) : Kept b b := ⟨rfl, rfl, rfl, rfl, fun _ => rfl⟩

theorem trans {a b c : Binding} (hab : Kept a b) (hbc : Kept b c) : Kept a c where
  name := hbc.name.trans hab.name
  isMutable := hbc.isMutable.trans hab.isMutable
  depth := hbc.depth.trans hab.depth
  isFunction := hbc.isFunction.trans hab.isFunction
  value h := (hbc.value (by rwa [hab.isMutable, hab.isFunction])).trans (hab.value h)

/-- A new value for a variable. -/
theorem assigned {b : Binding} (v : Value) (hmutable : b.isMutable = true)
    (hfunction : b.isFunction = false) : Kept b { b with value := v } :=
  ⟨rfl, rfl, rfl, rfl, by simp [hmutable, hfunction]⟩

end Binding.Kept

namespace Session

/-- Nothing is bound deeper than the session stands. -/
def Tidy (s : Session) : Prop := ∀ b ∈ s.oldestFirst, b.depth ≤ s.depth

/-- A later session at the same depth: the bindings are kept, in their order, and new
ones come behind them. -/
structure Extends (s s' : Session) : Prop where
  depth : s'.depth = s.depth
  kept : ∀ {i : Nat} {b : Binding}, s.oldestFirst[i]? = some b →
    ∃ b', s'.oldestFirst[i]? = some b' ∧ b.Kept b'
  added : ∀ {i : Nat} {b : Binding}, s.oldestFirst[i]? = none →
    s'.oldestFirst[i]? = some b → b.depth = s.depth

namespace Extends

variable {s m s' : Session}

/-- Marks and output do not touch bindings. -/
theorem of_bindings (hdepth : s'.depth = s.depth) (h : s'.bindings = s.bindings) :
    Extends s s' where
  depth := hdepth
  kept hb := ⟨_, by rwa [oldestFirst, h], .refl _⟩
  added hnone hsome := by
    rw [oldestFirst, h] at hsome
    cases hnone.symm.trans hsome

theorem refl (s : Session) : Extends s s := of_bindings rfl rfl

theorem trans (h : Extends s m) (h' : Extends m s') : Extends s s' where
  depth := h'.depth.trans h.depth
  kept hb := by
    obtain ⟨b₁, hb₁, hkept₁⟩ := h.kept hb
    obtain ⟨b₂, hb₂, hkept₂⟩ := h'.kept hb₁
    exact ⟨b₂, hb₂, hkept₁.trans hkept₂⟩
  added {i b} hnone hsome := by
    cases hm : m.oldestFirst[i]? with
    | none => exact (h'.added hm hsome).trans h.depth
    | some b₁ =>
      obtain ⟨b₂, hb₂, hkept⟩ := h'.kept hm
      cases hsome.symm.trans hb₂
      exact hkept.depth.trans (h.added hnone hm)

theorem tidy (h : Extends s m) (hs : s.Tidy) : m.Tidy := by
  intro b hb
  obtain ⟨i, hi⟩ := List.getElem?_of_mem hb
  rw [h.depth]
  cases hold : s.oldestFirst[i]? with
  | none => exact Int.le_of_eq (h.added hold hi)
  | some b₁ =>
    obtain ⟨b₂, hb₂, hkept⟩ := h.kept hold
    cases hi.symm.trans hb₂
    rw [hkept.depth]
    exact hs b₁ (List.mem_of_getElem? hold)

theorem define (name : Datum Node) (v : Value) (isMutable : Bool) (h : Extends s m) :
    Extends s (m.define name v isMutable) := by
  refine h.trans ⟨rfl, fun {i b} hb => ⟨b, ?_, .refl b⟩, fun {i b} hnone hsome => ?_⟩
  · have hi : i < m.oldestFirst.length := (List.getElem?_eq_some_iff.mp hb).1
    simp only [oldestFirst, Session.define, getElem?_reverse_cons] at hb hi ⊢
    grind
  · simp only [oldestFirst, Session.define, getElem?_reverse_cons] at hnone hsome
    grind

theorem set {slot : Nat} {b : Binding} (v : Value) (hslot : s.oldestFirst[slot]? = some b)
    (hmutable : b.isMutable = true) (hfunction : b.isFunction = false) (h : Extends s m) :
    Extends s (m.set slot v) := by
  obtain ⟨b', hb', hkept⟩ := h.kept hslot
  have hmutable' := hkept.isMutable.trans hmutable
  have hfunction' := hkept.isFunction.trans hfunction
  refine h.trans ⟨rfl, fun {i c} hc => ?_, fun {i c} hnone hsome => ?_⟩
  · simp only [oldestFirst, Session.set, getElem?_setBinding] at hc hb' ⊢
    rw [hc]
    refine ⟨_, rfl, ?_⟩
    split
    · next hi =>
      subst hi
      cases hc.symm.trans hb'
      exact .assigned v hmutable' hfunction'
    · exact .refl c
  · simp only [oldestFirst, Session.set, getElem?_setBinding] at hnone hsome
    simp [hnone] at hsome

theorem length_le (h : Extends s m) : s.oldestFirst.length ≤ m.oldestFirst.length := by
  refine Nat.le_of_not_lt fun hlt => ?_
  obtain ⟨b', hb', -⟩ := h.kept (List.getElem?_eq_getElem hlt)
  simp at hb'

/-- Leaving a scope drops what was bound in it and nothing else. -/
theorem oldestFirst_leave (h : Extends s.enter m) (hs : s.Tidy) :
    m.leave.oldestFirst = m.oldestFirst.take s.oldestFirst.length := by
  have hdepth : m.depth - 1 = s.depth := by
    rw [h.depth]
    exact Int.add_sub_cancel ..
  have hfilter : m.leave.oldestFirst = m.oldestFirst.filter fun b => b.depth ≤ s.depth := by
    rw [← hdepth, oldestFirst, oldestFirst, List.filter_reverse]
    rfl
  rw [hfilter]
  conv => lhs; rw [← List.take_append_drop s.oldestFirst.length m.oldestFirst]
  have hfront : ∀ b ∈ m.oldestFirst.take s.oldestFirst.length, b.depth ≤ s.depth := by
    intro b hb
    obtain ⟨i, hi⟩ := List.getElem?_of_mem hb
    rw [List.getElem?_take] at hi
    split at hi
    · next hlt =>
      have hold := List.getElem?_eq_getElem hlt
      obtain ⟨b', hb', hkept⟩ := h.kept hold
      cases hi.symm.trans hb'
      rw [hkept.depth]
      exact hs _ (List.mem_of_getElem? hold)
    · cases hi
  have hback : ∀ b ∈ m.oldestFirst.drop s.oldestFirst.length, ¬ b.depth ≤ s.depth := by
    intro b hb
    obtain ⟨i, hi⟩ := List.getElem?_of_mem hb
    rw [List.getElem?_drop] at hi
    have hadded := h.added (List.getElem?_eq_none (Nat.le_add_right _ i)) hi
    have henter : s.enter.depth = s.depth + 1 := rfl
    omega
  rw [List.filter_append, List.filter_eq_self.mpr (by simpa using hfront),
    List.filter_eq_nil_iff.mpr (by simpa using hback), List.append_nil]

theorem length_leave (h : Extends s.enter m) (hs : s.Tidy) :
    m.leave.oldestFirst.length = s.oldestFirst.length := by
  rw [h.oldestFirst_leave hs, List.length_take]
  exact Nat.min_eq_left h.length_le

theorem leave (h : Extends s.enter m) (hs : s.Tidy) : Extends s m.leave where
  depth := by
    rw [Session.leave, unwindTo, h.depth]
    exact Int.add_sub_cancel ..
  kept {i b} hb := by
    obtain ⟨b', hb', hkept⟩ := h.kept hb
    refine ⟨b', ?_, hkept⟩
    rw [h.oldestFirst_leave hs, List.getElem?_take, if_pos (List.getElem?_eq_some_iff.mp hb).1]
    exact hb'
  added {i b} hnone hsome := by
    rw [h.oldestFirst_leave hs, List.getElem?_take,
      if_neg (Nat.not_lt.mpr (List.getElem?_eq_none_iff.mp hnone))] at hsome
    cases hsome

/-- Unwinding to the depth of a tidy session changes nothing. -/
theorem unwindTo (h : Extends s m) (hs : s.Tidy) : Extends s (m.unwindTo s.depth) := by
  refine h.trans (of_bindings h.depth.symm ?_)
  refine List.filter_eq_self.mpr fun b hb => decide_eq_true ?_
  rw [← h.depth]
  exact h.tidy hs b (List.mem_reverse.mpr hb)

end Extends

end Session

namespace Eval

open ExceptT (outcome_bind)
open Session (Extends)

variable {α β : Type} {s m : Session} {x : Eval α}

/-- Whatever the evaluation does, it does to a session that extends `s`. -/
def Keeps (s : Session) (x : Eval α) : Prop := ∀ m, s.Extends m → s.Extends (x.outcome m).2

theorem keeps_pure (a : α) : Keeps s (pure a) := fun _ h => h

theorem keeps_throw (i : Interrupt) : Keeps s (throw i : Eval α) := fun _ h => h

theorem keeps_fail (e : RuntimeError) (n : Node) : Keeps s (fail e n : Eval α) := keeps_throw _

theorem keeps_fault (f : Fault) : Keeps s (fault f : Eval α) := keeps_throw _

theorem keeps_tooDeep : Keeps s (tooDeep : Eval α) := keeps_throw _

theorem keeps_bind {f : α → Eval β} (hx : Keeps s x) (hf : ∀ a, Keeps s (f a)) :
    Keeps s (x >>= f) := by
  intro m hm
  have hmid := hx m hm
  rw [outcome_bind]
  rcases hout : x.outcome m with ⟨r, m'⟩
  rw [hout] at hmid
  cases r with
  | ok a => exact hf a m' hmid
  | error i => exact hmid

/-- What is found out about the session may be relied on in what follows. -/
theorem keeps_get_bind {f : Session → Eval β} (hs : s.Tidy)
    (hf : ∀ m, m.Tidy → Keeps m (f m)) : Keeps s (get >>= f) :=
  fun m hm => hm.trans (hf m (hm.tidy hs) m (.refl m))

theorem keeps_read {f : Session → Eval β} (hf : ∀ m, Keeps s (f m)) : Keeps s (get >>= f) :=
  fun m hm => hf m m hm

theorem keeps_modify {f : Session → Session} (hf : ∀ m, s.Extends m → s.Extends (f m)) :
    Keeps s (modify f : Eval Unit) := hf

theorem keeps_discard (hx : Keeps s x) : Keeps s (discard x) :=
  keeps_bind hx fun _ => keeps_pure _

theorem keeps_made (v : Value) : Keeps s (made v) :=
  fun _ h => h.trans (.of_bindings rfl rfl)

theorem keeps_print (text : String) : Keeps s (modify (Session.print text) : Eval Unit) :=
  keeps_modify fun _ h => h.trans (.of_bindings rfl rfl)

theorem keeps_ofAny (n : Node) (r : Except Failure α) : Keeps s (ofAny n r) := by
  rcases r with (e | m | m) | a
  · exact keeps_fail _ _
  · exact keeps_fault _
  · exact keeps_fault _
  · exact keeps_pure a

theorem keeps_needDepth (room depth : Nat) : Keeps s (needDepth room depth) := by
  unfold needDepth
  split
  · exact keeps_tooDeep
  · exact keeps_pure _

theorem keeps_twoParts (ns : List Node) : Keeps s (twoParts ns) := by
  unfold twoParts
  split
  · exact keeps_pure _
  · exact keeps_fault _

theorem keeps_part (ns : List Node) (i : Nat) : Keeps s (part ns i) := by
  rw [part]
  split
  · exact keeps_pure _
  · exact keeps_fault _

theorem keeps_mapM {f : Node → Eval Value} (hf : ∀ n, Keeps s (f n)) (ns : List Node) :
    Keeps s (ns.mapM f) := by
  induction ns with
  | nil => exact keeps_pure []
  | cons n ns ih =>
    rw [mapM_cons]
    exact keeps_bind (hf n) fun _ => keeps_bind ih fun _ => keeps_pure _

theorem keeps_forM {f : Node → Eval Unit} (hf : ∀ n, Keeps s (f n)) (ns : List Node) :
    Keeps s (ns.forM f) := by
  induction ns with
  | nil => exact keeps_pure ()
  | cons n ns ih => exact keeps_bind (hf n) fun _ => ih

/-- Does every call come back to its depth, with the bindings kept? -/
def Steady (call : Node → Eval Value) : Prop := ∀ n s, s.Tidy → Keeps s (call n)

variable {call within : Node → Eval Value} {n : Node} {room : Nat}

theorem keeps_identifier (hs : s.Tidy) : Keeps s (identifier n) := by
  refine keeps_get_bind hs fun m _ => ?_
  split
  · exact keeps_pure _
  · exact keeps_fail _ _

theorem keeps_unary (hcall : Steady call) (hs : s.Tidy) : Keeps s (unary call n) := by
  refine keeps_bind (keeps_part _ _) fun a => keeps_bind (hcall a s hs) fun v => ?_
  split
  · exact keeps_bind (keeps_ofAny _ _) fun _ => keeps_made _
  · exact keeps_fault _

theorem keeps_truth (op : BinaryOp) (n : Node) (v : Value) : Keeps s (truth op n v) := by
  unfold truth
  split
  · exact keeps_pure _
  · exact keeps_fail _ _

theorem keeps_logical (op : BinaryOp) (decisive : Bool) (l r : Node) (hwithin : Steady within)
    (hs : s.Tidy) : Keeps s (logical within op decisive l r) := by
  refine keeps_bind (hwithin l s hs) fun v => keeps_bind (keeps_truth _ _ _) fun first => ?_
  split
  · exact keeps_pure _
  · exact keeps_bind (hwithin r s hs) fun w => keeps_bind (keeps_truth _ _ _) fun _ =>
      keeps_pure _

theorem keeps_binary (hcall : Steady call) (hwithin : Steady within) (hs : s.Tidy) :
    Keeps s (binary room call within n) := by
  refine keeps_bind (keeps_twoParts _) fun parts => ?_
  obtain ⟨l, r⟩ := parts
  dsimp only
  split
  · exact keeps_bind (keeps_discard (hcall l s hs)) fun _ =>
      keeps_bind (keeps_discard (hcall r s hs)) fun _ => keeps_fault _
  · split
    · exact keeps_logical _ _ l r hwithin hs
    · exact keeps_logical _ _ l r hwithin hs
    · exact keeps_bind (hcall l s hs) fun _ => keeps_bind (hcall r s hs) fun _ =>
        keeps_bind (keeps_needDepth _ _) fun _ => keeps_bind (keeps_ofAny _ _) fun _ =>
        keeps_made _

theorem keeps_application (hcall : Steady call) (hwithin : Steady within) (hs : s.Tidy) :
    Keeps s (application room call within n) := by
  rw [application]
  split
  · next callee _ =>
    refine keeps_bind (hcall callee s hs) fun v => ?_
    split
    · exact keeps_bind (keeps_mapM (fun a => hwithin a s hs) _) fun _ =>
        keeps_bind (keeps_needDepth _ _) fun _ => keeps_bind (keeps_ofAny _ _) fun _ =>
        keeps_bind (keeps_print _) fun _ => keeps_made _
    · exact keeps_fail _ _
  · exact keeps_fault _

theorem keeps_indexing (hcall : Steady call) (hs : s.Tidy) : Keeps s (indexing call n) :=
  keeps_bind (keeps_part _ _) fun a => keeps_bind (hcall a s hs) fun _ =>
    keeps_bind (keeps_part _ _) fun i => keeps_bind (hcall i s hs) fun _ => keeps_ofAny _ _

/-- The statements of a block run in a scope of their own, in which they extend. -/
theorem extends_block (hcall : Steady call) (hs : s.Tidy) :
    ∃ m, s.enter.Extends m ∧ ((block call n).outcome s).2 = m.leave := by
  refine ⟨_, ?_, rfl⟩
  have henter : s.enter.Tidy := fun b hb => Int.le_add_one (hs b hb)
  refine keeps_bind (keeps_forM (fun a => keeps_discard (hcall a s.enter henter)) _)
    (fun _ => ?_) s.enter (.refl _)
  split
  · exact keeps_pure _
  · next last _ => exact hcall last s.enter henter
  · exact keeps_fault _

theorem keeps_block (hcall : Steady call) (hs : s.Tidy) : Keeps s (block call n) := by
  intro m hm
  obtain ⟨m', hm', hout⟩ := extends_block (n := n) hcall (hm.tidy hs)
  rw [hout]
  exact hm.trans (hm'.leave (hm.tidy hs))

theorem keeps_conditional (hcall : Steady call) (hs : s.Tidy) : Keeps s (conditional call n) := by
  refine keeps_bind (keeps_twoParts _) fun (c, t) => keeps_bind (hcall c s hs) fun v => ?_
  split
  · exact hcall t s hs
  · split
    · exact keeps_pure _
    · next e _ _ => exact hcall e s hs
  · exact keeps_fail _ _

theorem keeps_binding (hcall : Steady call) (hs : s.Tidy) : Keeps s (binding call n) :=
  keeps_bind (keeps_part _ _) fun a => keeps_bind (hcall a s hs) fun _ =>
    keeps_bind (keeps_modify fun _ h => h.define _ _ _) fun _ => keeps_pure _

/-- The slot that an assignment writes was looked up before its right-hand side ran. Its
binding is still the same one afterwards, so that it may be written. -/
theorem keeps_assignment (hcall : Steady call) (hs : s.Tidy) :
    Keeps s (assignment room call n) := by
  refine keeps_bind (keeps_twoParts _) fun (target, source) => keeps_get_bind hs fun m hm => ?_
  split
  · exact keeps_fail _ _
  · next slot b hfind =>
    have hslot := (findBinding_slot hfind).1
    split
    · exact keeps_fail _ _
    · next hfunction =>
      split
      · exact keeps_fail _ _
      · next hmutable =>
        have hset (v : Value) : Keeps m (modify (Session.set slot v) : Eval Unit) :=
          keeps_modify fun _ h => h.set v hslot (by simpa using hmutable) (by simpa using hfunction)
        refine keeps_bind (hcall source m hm) fun v => ?_
        split
        · exact keeps_fault _
        · split
          · exact keeps_bind (hset v) fun _ => keeps_pure _
          · exact keeps_read fun _ => keeps_bind (keeps_needDepth _ _) fun _ =>
              keeps_bind (keeps_ofAny _ _) fun _ => keeps_bind (keeps_made _) fun w =>
              keeps_bind (hset w) fun _ => keeps_pure _

theorem keeps_giveBack (hcall : Steady call) (hs : s.Tidy) : Keeps s (giveBack call n) := by
  rw [giveBack]
  split
  · exact keeps_throw _
  · next source _ _ => exact keeps_bind (hcall source s hs) fun _ => keeps_throw _

theorem keeps_integerLiteral : Keeps s (integerLiteral n) := by
  have hrange (a : Number) : Keeps s (integerLiteral.inRange a) := by
    rw [integerLiteral.inRange]
    split
    · exact keeps_made _
    · exact keeps_fault _
  rw [integerLiteral]
  split
  · exact hrange _
  · exact hrange _
  · exact keeps_made _
  · exact keeps_fault _

theorem keeps_floatLiteral : Keeps s (floatLiteral n) := by
  rw [floatLiteral]
  split
  · exact keeps_made _
  · exact keeps_made _
  · unfold floatLiteral.ofWhole
    dsimp only
    split
    · exact keeps_fault _
    · exact keeps_made _
  · rw [floatLiteral.fromText]
    split
    · exact keeps_made _
    · exact keeps_fault _
  · exact keeps_fault _

theorem steady_rule (hcall : Steady call) (hwithin : Steady within) :
    Steady (rule room call within) := by
  intro n s hs
  rw [rule]
  split
  · exact keeps_integerLiteral
  · exact keeps_floatLiteral
  · exact keeps_made _
  · exact keeps_pure _
  · exact keeps_pure _
  · exact keeps_bind (keeps_mapM (fun a => hwithin a s hs) _) fun _ => keeps_made _
  · exact keeps_bind (keeps_mapM (fun a => hwithin a s hs) _) fun _ => keeps_made _
  · exact keeps_identifier hs
  · exact keeps_unary hcall hs
  · exact keeps_binary hcall hwithin hs
  · exact keeps_application hcall hwithin hs
  · exact keeps_indexing hcall hs
  · exact keeps_block hcall hs
  · exact keeps_conditional hcall hs
  · exact keeps_binding hcall hs
  · exact keeps_assignment hcall hs
  · exact keeps_giveBack hcall hs
  · exact keeps_fault _
  · exact keeps_fault _

end Eval

theorem steady_eval (room : Nat) : Eval.Steady (eval room) :=
  eval_invariant (fun _ _ _ => Eval.keeps_tooDeep) (fun _ _ _ => Eval.steady_rule) room

/-- A block adds nothing to the bindings. -/
theorem length_eval_block (room : Nat) {n : Node} {s : Session} (hk : n.kind = .block)
    (hs : s.Tidy) : ((eval room n).outcome s).2.oldestFirst.length = s.oldestFirst.length := by
  have hblock (room : Nat) {call within : Node → Eval Value} (hcall : Eval.Steady call) :
      ((Eval.rule room call within n).outcome s).2.oldestFirst.length = s.oldestFirst.length := by
    obtain ⟨m, hm, hout⟩ := Eval.extends_block (n := n) hcall hs
    rw [Eval.rule, hk]
    simp only
    rw [hout, hm.length_leave hs]
  match room with
  | 0 => rfl
  | 1 => rfl
  | 2 => exact hblock 0 fun _ _ _ => Eval.keeps_tooDeep
  | room + 3 => exact hblock (room + 1) (steady_eval (room + 1))

end Scriptlet
