import Scriptlet.Proofs.Session.Rule
import Scriptlet.Proofs.Session.Slot
import Scriptlet.Proofs.Tree.Regular
import Scriptlet.Proofs.Value.Domain

/-!
# Terms are evaluated safely

In a session that holds nothing but values of the domain, evaluating a regular term never
meets a fault. Whatever it comes to, the session still holds nothing else.
-/

namespace Scriptlet

/-- All that is bound is of the domain. -/
def Session.Sound (s : Session) : Prop := ∀ b ∈ s.bindings, b.value.InDomain

namespace Session.Sound

variable {s : Session}

theorem of_found {name : Datum Node} {slot : Nat} {b : Binding} (hs : s.Sound)
    (h : s.find? name = some (slot, b)) : b.value.InDomain :=
  hs b (List.mem_reverse.mp (List.mem_of_getElem? (findBinding_slot h).1))

theorem at? {slot : Nat} {v : Value} (hs : s.Sound) (h : s.at? slot = some v) : v.InDomain := by
  rw [Session.at?, valueAt?_eq] at h
  obtain ⟨b, hb, rfl⟩ := Option.map_eq_some_iff.mp h
  exact hs b (List.mem_reverse.mp (List.mem_of_getElem? hb))

theorem define {v : Value} (name : Datum Node) (isMutable : Bool) (hs : s.Sound) (hv : v.InDomain) :
    (s.define name v isMutable).Sound := by
  intro b hb
  obtain rfl | hb := List.mem_cons.mp hb
  · exact hv
  · exact hs b hb

theorem set {v : Value} (slot : Nat) (hs : s.Sound) (hv : v.InDomain) : (s.set slot v).Sound := by
  intro b hb
  obtain ⟨i, hi⟩ := List.getElem?_of_mem (List.mem_reverse.mpr hb)
  rw [Session.set, getElem?_setBinding] at hi
  obtain ⟨c, hc, rfl⟩ := Option.map_eq_some_iff.mp hi
  split
  · exact hv
  · exact hs c (List.mem_reverse.mp (List.mem_of_getElem? hc))

theorem unwindTo (depth : Int) (hs : s.Sound) : (s.unwindTo depth).Sound :=
  fun b hb => hs b (List.mem_filter.mp hb).1

end Session.Sound

/-- An end of evaluation that a program can bring about. -/
def Interrupt.Sound : Interrupt → Prop
  | .returned v => v.InDomain
  | .error d => d.phase = .runtime
  | .fault _ => False
  | .tooDeep => True

namespace Eval

open ExceptT (outcome_bind)

variable {α β : Type}

/-- A result as expected, or an interrupt, in a session that is sound. -/
def Settled (P : α → Prop) : Except Interrupt α × Session → Prop
  | (.ok a, s) => P a ∧ s.Sound
  | (.error i, s) => i.Sound ∧ s.Sound

def Safe (x : Eval α) (P : α → Prop) : Prop := ∀ s, s.Sound → Settled P (x.outcome s)

section Pieces

variable {x : Eval α} {P : α → Prop} {Q : β → Prop}

theorem safe_pure {a : α} (h : P a) : Safe (pure a) P := fun _ hs => ⟨h, hs⟩

theorem safe_throw {i : Interrupt} (h : i.Sound) : Safe (throw i : Eval α) P := fun _ hs => ⟨h, hs⟩

theorem safe_fail (e : RuntimeError) (n : Node) : Safe (fail e n : Eval α) P := safe_throw rfl

theorem safe_tooDeep : Safe (tooDeep : Eval α) P := safe_throw trivial

theorem safe_bind {f : α → Eval β} (hx : Safe x P) (hf : ∀ a, P a → Safe (f a) Q) :
    Safe (x >>= f) Q := by
  intro s hs
  have hmid := hx s hs
  rw [outcome_bind]
  rcases hout : x.outcome s with ⟨r, m⟩
  rw [hout] at hmid
  cases r with
  | ok a => exact hf a hmid.1 m hmid.2
  | error i => exact hmid

theorem safe_get_bind {f : Session → Eval β} (hf : ∀ m, m.Sound → Safe (f m) Q) :
    Safe (get >>= f) Q := fun s hs => hf s hs s hs

theorem safe_modify {f : Session → Session} (hf : ∀ s, s.Sound → (f s).Sound) :
    Safe (modify f : Eval Unit) fun _ => True := fun s hs => ⟨trivial, hf s hs⟩

theorem safe_discard (hx : Safe x P) : Safe (discard x) fun _ => True :=
  safe_bind hx fun _ _ => safe_pure trivial

theorem safe_made {v : Value} (hv : v.InDomain) : Safe (made v) Value.InDomain :=
  fun _ hs => ⟨hv.withMark _, hs⟩

theorem safe_print (text : String) :
    Safe (modify (Session.print text) : Eval Unit) fun _ => True := safe_modify fun _ hs => hs

theorem safe_needDepth (room depth : Nat) : Safe (needDepth room depth) fun _ => True := by
  rw [needDepth]
  split
  · exact safe_tooDeep
  · exact safe_pure trivial

theorem safe_ofAny (n : Node) {r : Except Failure Value} (h : Value.Regular r) :
    Safe (ofAny n r) Value.InDomain := by
  rcases r with (e | m | m) | v
  · exact safe_fail _ _
  · exact h.elim
  · exact h.elim
  · exact safe_pure h

theorem safe_inScope (hx : Safe x P) : Safe (inScope x) P := by
  intro s hs
  have hmid := hx s.enter hs
  rw [outcome_inScope]
  rcases hout : x.outcome s.enter with ⟨r, m⟩
  rw [hout] at hmid
  cases r with
  | ok a => exact ⟨hmid.1, hmid.2.unwindTo _⟩
  | error i => exact ⟨hmid.1, hmid.2.unwindTo _⟩

theorem safe_mapM {γ : Type} {f : γ → Eval Value} {ts : List γ}
    (hf : ∀ t ∈ ts, Safe (f t) Value.InDomain) :
    Safe (ts.mapM f) fun vs => vs.length = ts.length ∧ ∀ v ∈ vs, v.InDomain := by
  induction ts with
  | nil => exact safe_pure ⟨rfl, nofun⟩
  | cons t ts ih =>
    rw [List.forall_mem_cons] at hf
    rw [List.mapM_cons]
    refine safe_bind hf.1 fun v hv => safe_bind (ih hf.2) fun vs hvs => safe_pure ⟨?_, ?_⟩
    · rw [List.length_cons, hvs.1, List.length_cons]
    · exact List.forall_mem_cons.mpr ⟨hv, hvs.2⟩

theorem safe_forM {γ : Type} {f : γ → Eval Unit} {ts : List γ}
    (hf : ∀ t ∈ ts, Safe (f t) fun _ => True) : Safe (ts.forM f) fun _ => True := by
  induction ts with
  | nil => exact safe_pure trivial
  | cons t ts ih =>
    rw [List.forall_mem_cons] at hf
    exact safe_bind hf.1 fun _ _ => ih hf.2

end Pieces

end Eval

namespace Term

open Eval

/-- The evaluation of regular terms is safe. -/
def SafeCalls (call : Term → Eval Value) : Prop :=
  ∀ t : Term, t.Regular → Safe (call t) Value.InDomain

variable {call within : Term → Eval Value} {room : Nat}

theorem safe_truth (op : BinaryOp) (n : Node) (v : Value) : Safe (truth op n v) fun _ => True := by
  unfold truth
  split
  · exact safe_pure trivial
  · exact safe_fail _ _

theorem safe_logical (op : BinaryOp) (decisive : Bool) {a b : Term}
    (ha : Safe (within a) Value.InDomain) (hb : Safe (within b) Value.InDomain) :
    Safe (logical within op decisive a b) Value.InDomain := by
  refine safe_bind ha fun v _ => safe_bind (safe_truth _ _ v) fun first _ => ?_
  split
  · exact safe_pure (.bool _)
  · exact safe_bind hb fun w _ => safe_bind (safe_truth _ _ w) fun _ _ => safe_pure (.bool _)

theorem safe_operator (n : Node) {op : BinaryOp} (hand : op ≠ .and) (hor : op ≠ .or) {a b : Term}
    (ha : Safe (call a) Value.InDomain) (hb : Safe (call b) Value.InDomain) :
    Safe (operator room call n op a b) Value.InDomain :=
  safe_bind ha fun _ hv => safe_bind hb fun _ hw =>
    safe_bind (safe_needDepth _ _) fun _ _ =>
    safe_bind (safe_ofAny n (Value.regular_binary hand hor hv hw)) fun _ hr => safe_made hr

theorem safe_application (n : Node) {arguments : List Term} (v : Value)
    (hwithin : ∀ t ∈ arguments, Safe (within t) Value.InDomain) :
    Safe (application room within n arguments v) Value.InDomain := by
  unfold application
  split
  · next b =>
    refine safe_bind (safe_mapM hwithin) fun vs hvs =>
      safe_bind (safe_needDepth _ _) fun _ _ => ?_
    rw [Builtin.apply_eq b (Value.allFit_of_inDomain hvs.2)]
    refine safe_bind (P := fun r => r.value.InDomain) ?_ fun r hr =>
      safe_bind (safe_print _) fun _ _ => safe_made hr
    cases hcall : b.call vs with
    | ok r => exact safe_pure (Value.inDomain_call hcall)
    | error e => exact safe_fail _ _
  · exact safe_fail _ _

theorem safe_optionally {t : Option Term} (ht : ∀ u ∈ t, Safe (call u) Value.InDomain) :
    Safe (optionally call t) Value.InDomain := by
  cases t with
  | none => exact safe_pure .unit
  | some t => exact ht t rfl

theorem safe_choose {c a : Term} {e : Option Term} (v : Value)
    (ha : Safe (call a) Value.InDomain) (he : ∀ u ∈ e, Safe (call u) Value.InDomain) :
    Safe (choose call c a e v) Value.InDomain := by
  unfold choose
  split
  · exact ha
  · exact safe_optionally he
  · exact safe_fail _ _

theorem safe_write (n : Node) (op : AssignOp) (slot : Nat) {b : Binding} {v : Value}
    (hb : b.value.InDomain) (hv : v.InDomain) :
    Safe (write room n op slot b v) fun _ => True := by
  have hset {w : Value} (hw : w.InDomain) :
      Safe (modify (Session.set slot w) : Eval Unit) fun _ => True :=
    safe_modify fun _ hs => hs.set slot hw
  cases op with
  | replace => exact hset hv
  | combine op =>
    refine safe_get_bind fun m hm => ?_
    have hold : ((m.at? slot).getD b.value).InDomain := by
      cases hat : m.at? slot with
      | none => exact hb
      | some w => exact hm.at? hat
    have hregular : Value.Regular (Value.binary (BinaryOp.arithmetic op).name _ v) :=
      Value.regular_binary (by simp) (by simp) hold hv
    exact safe_bind (safe_needDepth _ _) fun _ _ => safe_bind (safe_ofAny n hregular) fun _ hr =>
      safe_bind (safe_made hr) fun _ hw => hset hw

theorem safe_assignment (n target : Node) (op : AssignOp) (name : String) {source : Term}
    {found : Option (Nat × Binding)} (hfound : ∀ p, found = some p → p.2.value.InDomain)
    (hsource : Safe (call source) Value.InDomain) :
    Safe (assignment room call n target op name source found) Value.InDomain := by
  cases found with
  | none => exact safe_fail _ _
  | some found =>
    obtain ⟨slot, b⟩ := found
    simp only [assignment]
    split
    · exact safe_fail _ _
    · split
      · exact safe_fail _ _
      · exact safe_bind hsource fun v hv =>
          safe_bind (safe_write n op slot (hfound _ rfl) hv) fun _ _ => safe_pure .unit

theorem safe_rule (hcall : SafeCalls call) (hwithin : SafeCalls within) :
    SafeCalls (rule room call within) := by
  intro t ht
  have hparts {call : Term → Eval Value} (hcall : SafeCalls call) :
      ∀ u ∈ t.parts, Safe (call u) Value.InDomain := fun u hu => hcall u (ht.part hu)
  cases t with
  | integer p n => exact safe_made (.integer n.2)
  | float p x => exact safe_made (.float (ht.node.finite x rfl rfl))
  | string p s => exact safe_made (.string s)
  | bool p b => exact safe_pure (.bool b)
  | unit p => exact safe_pure .unit
  | identifier p name =>
    refine safe_get_bind fun m hm => ?_
    split
    · next hfind => exact safe_pure (hm.of_found hfind)
    · exact safe_fail _ _
  | unary p op a =>
    exact safe_bind (hparts hcall a (by simp [parts])) fun _ hv =>
      safe_bind (safe_ofAny _ (Value.regular_unary op hv)) fun _ hr => safe_made hr
  | binary p op a b =>
    have ha : a ∈ (Term.binary p op a b).parts := by simp [parts]
    have hb : b ∈ (Term.binary p op a b).parts := by simp [parts]
    cases op with
    | and => exact safe_logical _ _ (hparts hwithin a ha) (hparts hwithin b hb)
    | or => exact safe_logical _ _ (hparts hwithin a ha) (hparts hwithin b hb)
    | _ => exact safe_operator _ (by simp) (by simp) (hparts hcall a ha) (hparts hcall b hb)
  | call p f as =>
    exact safe_bind (hparts hcall f (by simp [parts])) fun v _ =>
      safe_application _ v fun a ha => hparts hwithin a (by simp [parts, ha])
  | index p a i =>
    exact safe_bind (hparts hcall a (by simp [parts])) fun _ hv =>
      safe_bind (hparts hcall i (by simp [parts])) fun _ hi =>
        safe_ofAny _ (Value.regular_itemAt hv hi)
  | tuple p as =>
    refine safe_bind (safe_mapM (hparts hwithin)) fun vs hvs => safe_made (.tuple ?_ hvs.2)
    have has : toNodes as ≠ [] := ht.node.inhabited rfl
    rintro rfl
    cases as with
    | nil => exact has rfl
    | cons a as => cases hvs.1
  | array p as =>
    exact safe_bind (safe_mapM (hparts hwithin)) fun vs hvs => safe_made (.array hvs.2)
  | block p ts last =>
    have hstatements : ∀ u ∈ ts, Safe (discard (call u)) fun _ => True :=
      fun u hu => safe_discard (hparts hcall u (List.mem_append_left _ hu))
    exact safe_inScope (safe_bind (safe_forM hstatements) fun _ _ =>
      safe_optionally fun u hu => hparts hcall u (by simp [parts, Option.mem_def.mp hu]))
  | conditional p c a e =>
    exact safe_bind (hparts hcall c (by simp [parts])) fun v _ =>
      safe_choose v (hparts hcall a (by simp [parts]))
        fun u hu => hparts hcall u (by simp [parts, Option.mem_def.mp hu])
  | binding p isMutable name a =>
    exact safe_bind (hparts hcall a (by simp [parts])) fun _ hv =>
      safe_bind (safe_modify fun _ hs => hs.define _ _ hv) fun _ _ => safe_pure .unit
  | assign p op name a =>
    exact safe_get_bind fun m hm =>
      safe_assignment _ _ op name (fun _ h => hm.of_found h) (hparts hcall a (by simp [parts]))
  | giveBack p a =>
    exact safe_bind (safe_optionally fun u hu => hparts hcall u (by simp [parts, Option.mem_def.mp hu]))
      fun _ hv => safe_throw hv

end Term

theorem safe_eval (room : Nat) : Term.SafeCalls fun t => eval room t.toNode := by
  refine eval_invariant (P := fun call => Term.SafeCalls fun t => call t.toNode)
    (fun _ _ => Eval.safe_tooDeep) (fun room call within hcall hwithin => ?_) room
  simp only [Term.rule_toNode]
  exact Term.safe_rule hcall hwithin

/-- A result that the evaluation of a program can have. -/
def Result.Sound : Result → Prop
  | .value v => ∀ w, v = some w → w.InDomain
  | .error d => d.phase = .runtime
  | .fault _ => False
  | .tooDeep => False

namespace Eval

/-- A lack of room is reported as an error at the statement. -/
theorem sound_statement (room : Nat) {t : Term} (ht : t.Regular) {s : Session} (hs : s.Sound) :
    match (statement room t.toNode).outcome s with
    | (.ok v, m) => v.InDomain ∧ m.Sound
    | (.error i, m) => (Result.ofInterrupt i).Sound ∧ m.Sound := by
  have heval := safe_eval room t ht s hs
  rw [outcome_statement]
  rcases hout : (eval room t.toNode).outcome s with ⟨i | v, m⟩
  · rw [hout] at heval
    obtain ⟨hi, hm⟩ := heval
    cases i with
    | returned v =>
      refine ⟨fun w hw => ?_, hm⟩
      cases hw
      exact hi
    | error d => exact ⟨hi, hm⟩
    | fault f => exact hi.elim
    | tooDeep => exact ⟨rfl, hm.unwindTo _⟩
  · rw [hout] at heval
    exact heval

/-- There is no value only where there are no statements. -/
theorem sound_statements (room : Nat) {ts : List Term} (hts : ∀ t ∈ ts, t.Regular)
    (last : Option Value) {s : Session} (hs : s.Sound) (hlast : ∀ v, last = some v → v.InDomain) :
    let ended := (statements room last (Term.toNodes ts)).outcome s
    (Result.ofOutcome ended.1).Sound ∧ ended.2.Sound ∧
      (Result.ofOutcome ended.1 = .value none ↔ last = none ∧ ts = []) := by
  induction ts generalizing last s with
  | nil => exact ⟨hlast, hs, by simp [Term.toNodes, statements, Result.ofOutcome]⟩
  | cons t ts ih =>
    rw [List.forall_mem_cons] at hts
    have hhead := sound_statement room hts.1 hs
    simp only [Term.toNodes, outcome_statements_cons]
    rcases hout : (statement room t.toNode).outcome s with ⟨i | v, m⟩
    · rw [hout] at hhead
      refine ⟨hhead.1, hhead.2, ?_⟩
      cases i <;> simp [Result.ofOutcome, Result.ofInterrupt]
    · rw [hout] at hhead
      obtain ⟨hsound, hm, hnone⟩ := ih hts.2 (some v) hhead.2 (by simpa using hhead.1)
      exact ⟨hsound, hm, hnone.trans (by simp)⟩

end Eval

theorem sound_evaluate {s : Session} {ts : List Term} (hts : ∀ t ∈ ts, t.Regular)
    (hclean : Node.containsErrors (Term.toNodes ts) = false) (hs : s.Sound) :
    (s.evaluate (Term.toNodes ts)).1.Sound ∧ (s.evaluate (Term.toNodes ts)).2.Sound ∧
      ((s.evaluate (Term.toNodes ts)).1 = .value none ↔ ts = []) := by
  obtain ⟨hresult, hsession, hnone⟩ :=
    Eval.sound_statements evaluationLimit hts none hs (fun _ h => nomatch h)
  rw [Session.evaluate_eq hclean]
  exact ⟨hresult, hsession, hnone.trans (by simp)⟩

end Scriptlet
