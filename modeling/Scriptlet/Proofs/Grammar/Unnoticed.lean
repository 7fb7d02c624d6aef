import Scriptlet.Proofs.Grammar.Recovery

/-!
# Changes that a parser does not notice

A parser looks at the kind of the current token, at the token itself where it consumes it or
complains about it, and at whether anything was consumed. States may differ in all else: it reads
the same from them.
-/

namespace Scriptlet.Grammar

open Scriptlet.Parser

/-- Between the two states the parser does the same in the changed states. -/
structure Unnoticed (f : State → State) (s s' : State) : Prop where
  kind (m : State) : (f m).current.kind = m.current.kind
  current {m : State} (hk : m.current.kind ≠ .eof) : (f m).current = m.current
  consumed (m q : State) : (f m).consumed = (f q).consumed ↔ m.consumed = q.consumed
  advance {m : State} (h : Moves s m) (h' : Moves m.advance s') : f m.advance = (f m).advance
  fault {m : State} (e : SyntaxFault) (p : Position) (h : Moves s m)
    (h' : Moves (m.fault e p).2 s') :
    (f m).current = m.current ∧ ((f m).fault e p).2 = f (m.fault e p).2

namespace Unnoticed

variable {f : State → State} {s m q s' : State}

theorem expected (hf : Unnoticed f s s') (what : String) (h : Moves s m)
    (h' : Moves (m.expected what).2 s') :
    ((f m).expected what).1 = (m.expected what).1 ∧
      ((f m).expected what).2 = f (m.expected what).2 := by
  obtain ⟨hcurrent, hstate⟩ := hf.fault _ _ h h'
  have hfault : (f m).expected what =
      (f m).fault (.expected what m.current.shown) m.current.position := by
    rw [State.expected, hcurrent]
  rw [hfault]
  exact ⟨rfl, hstate⟩

theorem skip (hf : Unnoticed f s s') (kind : Token.Kind) (h : Moves s m)
    (h' : Moves (m.skip kind) s') : f (m.skip kind) = (f m).skip kind := by
  rw [State.skip] at h' ⊢
  rw [State.skip, hf.kind]
  split
  · next hk =>
    rw [if_pos hk] at h'
    exact hf.advance h h'
  · rfl

theorem moveOn (hf : Unnoticed f s s') (h : Moves s m)
    (h' : Moves (Grammar.moveOn q.consumed m) s') :
    f (Grammar.moveOn q.consumed m) = Grammar.moveOn (f q).consumed (f m) := by
  by_cases heq : m.consumed = q.consumed
  · rw [Grammar.moveOn, if_pos heq] at h' ⊢
    rw [Grammar.moveOn, if_pos ((hf.consumed m q).mpr heq), hf.advance h h']
  · rw [Grammar.moveOn, if_neg heq, Grammar.moveOn, if_neg (mt (hf.consumed m q).mp heq)]

theorem synchronize (hf : Unnoticed f s s') (closing : Token.Kind) (depth : Nat) (h : Moves s m)
    (h' : Moves (m.synchronize closing depth) s') :
    f (m.synchronize closing depth) = (f m).synchronize closing depth := by
  have hkind := hf.kind
  induction depth, m using State.synchronize.induct closing with
  | case1 depth m hk => rw [synchronize_eof hk, synchronize_eof (by rwa [hkind])]
  | case2 depth m hk hstop =>
    rw [synchronize_stop hk hstop, synchronize_stop (by rwa [hkind]) (by rwa [hkind])]
  | case3 depth m hk hstop hleft ih =>
    rw [synchronize_leftBrace hk hstop hleft] at h' ⊢
    rw [ih (.advance h) h', hf.advance h h'.of_synchronize]
    exact (synchronize_leftBrace (by rwa [hkind]) (by rwa [hkind]) (by rwa [hkind])).symm
  | case4 depth m hk hstop hright ih =>
    rw [synchronize_rightBrace hk hstop hright] at h' ⊢
    rw [ih (.advance h) h', hf.advance h h'.of_synchronize]
    exact (synchronize_rightBrace (by rwa [hkind]) (by rwa [hkind]) (by rwa [hkind])).symm
  | case5 depth m hk hstop hleft hright ih =>
    rw [synchronize_other hk hstop hleft hright] at h' ⊢
    rw [ih (.advance h) h', hf.advance h h'.of_synchronize]
    exact (synchronize_other (by rwa [hkind]) (by rwa [hkind]) (by rwa [hkind])
      (by rwa [hkind])).symm

/-- Behind `let` a marker is skipped. -/
theorem marker (hf : Unnoticed f s s') (h : Moves s m) (hq : m.advance.skip .kwMut = q)
    (h' : Moves q s') : (f m).advance.skip .kwMut = f q := by
  subst hq
  rw [← hf.advance h h'.of_skip, hf.skip .kwMut (.advance h) h']

end Unnoticed

section Carry

variable {room : Nat} {task : Task} {y : Yield} {f : State → State} {s s' start stop : State}

/-- What is read behind a token is read behind the token in the changed state. -/
theorem Unnoticed.behind (hf : Unnoticed f start stop) (hs : Moves start s) (hs' : Moves s' stop)
    (h : Reads room task s.advance y s')
    (ih : Moves start s.advance → Moves s' stop → Reads room task (f s.advance) y (f s')) :
    Reads room task (f s).advance y (f s') := by
  rw [← hf.advance hs ((Moves.of_reads h).trans hs')]
  exact ih (.advance hs) hs'

/-- What is read between the two states is read in the changed states. -/
theorem Reads.carry (h : Reads room task s y s') (hf : Unnoticed f start stop)
    (hs : Moves start s) (hs' : Moves s' stop) : Reads room task (f s) y (f s') := by
  have hkind := hf.kind
  induction h with
  -- Statements
  | bindingStatement hk _ ih => exact .bindingStatement (by rwa [hkind]) (ih hs hs')
  | returnStatement hk _ ih => exact .returnStatement (by rwa [hkind]) (ih hs hs')
  | expressionStatement hlet hreturn _ ih =>
    exact .expressionStatement (by rwa [hkind]) (by rwa [hkind]) (ih hs hs')
  | @unnamed _ s m hk hm hname =>
    have hmarker := hf.marker hs hm hs'.of_expected
    obtain ⟨hnode, hstate⟩ := hf.expected "identifier" (hs.trans (.marker hm)) hs'
    rw [← hnode, ← hstate]
    exact .unnamed (by rwa [hkind]) hmarker (by rwa [hkind])
  | @unassigned _ s m hk hm hname hassign =>
    have hidentifier := hs.trans (.marker hm)
    have hequal := hf.advance hidentifier hs'.of_expected
    obtain ⟨hnode, hstate⟩ := hf.expected "`=`" (.advance hidentifier) hs'
    rw [hequal] at hnode hstate
    rw [← hnode, ← hstate]
    exact .unassigned (by rwa [hkind]) (hf.marker hs hm hs'.of_expected.of_advance)
      (by rwa [hkind]) (by rwa [← hequal, hkind])
  | @binding _ s m v s' hk hm hname hassign hv ih =>
    have hidentifier := hs.trans (.marker hm)
    have hvalue := (Moves.of_reads hv).trans hs'
    have hequal := hf.advance hidentifier hvalue.of_advance
    have hread := hf.behind (.advance hidentifier) hs' hv ih
    rw [hequal] at hread
    have hmarker := hf.marker hs hm hvalue.of_advance.of_advance
    have hnode := Reads.binding (by rwa [hkind]) hmarker (by rwa [hkind]) (by rwa [← hequal, hkind])
      hread
    have hlet := hf.advance hs (hm ▸ hvalue.of_advance.of_advance).of_skip
    rwa [← hlet, hkind, hf.current (by simp [hk]), hf.current (by simp [hname])] at hnode
  | @bareReturn _ s hk hbare =>
    have hadvance := hf.advance hs hs'
    rw [hadvance, ← hf.current (m := s) (by simp [hk])]
    exact .bareReturn (by rwa [hkind]) (by rwa [← hadvance, hkind])
  | @returnOf _ s _ _ hk hbare hv ih =>
    have hadvance := hf.advance hs ((Moves.of_reads hv).trans hs')
    have hread := hf.behind hs hs' hv ih
    rw [← hf.current (m := s) (by simp [hk])]
    exact .returnOf (by rwa [hkind]) (by rwa [← hadvance, hkind]) hread
  | expression _ ih => exact .expression (ih hs hs')
  -- Operators
  | unassigning _ hop ih => exact .unassigning (ih hs hs') (by rwa [hkind])
  | assignment hl hop hr he hk ihl ihr =>
    have hright := (Moves.of_reads hr).trans hs'
    have hread := hf.behind (hs.trans (.of_reads hl)) hs' hr ihr
    exact .assignment (ihl hs hright.of_advance) (by rwa [hkind]) hread he hk
  | assignmentToError hl hop hr he ihl ihr =>
    have hright := (Moves.of_reads hr).trans hs'
    have hread := hf.behind (hs.trans (.of_reads hl)) hs' hr ihr
    exact .assignmentToError (ihl hs hright.of_advance) (by rwa [hkind]) hread he
  | invalidTarget hl hop hr he hk ihl ihr =>
    have hright := (Moves.of_reads hr).trans (.trans (.fault _ _ (.refl _)) hs')
    have hread := hf.behind (hs.trans (.of_reads hl)) (.trans (.fault _ _ (.refl _)) hs') hr ihr
    obtain ⟨-, hstate⟩ :=
      hf.fault _ _ ((hs.trans (.of_reads hl)).trans (.of_advance (.of_reads hr))) hs'
    rw [← hstate]
    exact .invalidTarget (ihl hs hright.of_advance) (by rwa [hkind]) hread he hk
  | disjunction hl hrest ihl ih =>
    exact .disjunction (ihl hs (.trans (.of_reads hrest) hs')) (ih (hs.trans (.of_reads hl)) hs')
  | conjunction hl hrest ihl ih =>
    exact .conjunction (ihl hs (.trans (.of_reads hrest) hs')) (ih (hs.trans (.of_reads hl)) hs')
  | chainEnd hk => exact .chainEnd (by rwa [hkind])
  | chainLink hk hr hrest ihr ih =>
    have hlink := (Moves.of_reads hrest).trans hs'
    have hread := hf.behind hs hlink hr ihr
    exact .chainLink (by rwa [hkind]) hread (ih ((Moves.advance hs).trans (.of_reads hr)) hs')
  | chainless hlevel _ hop hnot ih =>
    exact .chainless hlevel (ih hs hs') (by rwa [hkind]) (by rwa [hkind])
  | rightChain hlevel hl hop hr ihl ihr =>
    have hright := (Moves.of_reads hr).trans hs'
    have hread := hf.behind (hs.trans (.of_reads hl)) hs' hr ihr
    exact .rightChain hlevel (ihl hs hright.of_advance) (by rwa [hkind]) hread
  | notMember hl hnot hin hr ihl ihr =>
    have hleft := hs.trans (.of_reads hl)
    have hright := (Moves.of_reads hr).trans hs'
    have hadvance := hf.advance hleft hright.of_advance
    have hread := hf.behind (.advance hleft) hs' hr ihr
    rw [hadvance] at hread
    exact .notMember (ihl hs hright.of_advance.of_advance) (by rwa [hkind])
      (by rwa [← hadvance, hkind]) hread
  | notAlone hl hnot hin ih =>
    have hleft := hs.trans (.of_reads hl)
    have hadvance := hf.advance hleft hs'.of_expected
    obtain ⟨hnode, hstate⟩ := hf.expected _ (.advance hleft) hs'
    rw [hadvance] at hnode hstate
    rw [← hnode, ← hstate]
    exact .notAlone (ih hs hs'.of_expected.of_advance) (by rwa [hkind])
      (by rwa [← hadvance, hkind])
  | unprefixed hop _ ih => exact .unprefixed (by rwa [hkind]) (ih hs hs')
  | @prefixed _ s _ _ _ hop hn ih =>
    have hread := hf.behind hs hs' hn ih
    rw [← hf.current (m := s) (prefixOp?_kind_ne hop).1]
    exact .prefixed (by rwa [hkind]) hread
  -- Calls and indexes
  | unapplied _ hend ih => exact .unapplied (ih hs hs') hend
  | applied hn hend hrest ihn ih =>
    exact .applied (ihn hs (.trans (.of_reads hrest) hs')) hend (ih (hs.trans (.of_reads hn)) hs')
  | applicationsEnd hparen hbracket =>
    exact .applicationsEnd (by rwa [hkind]) (by rwa [hkind])
  | call hk hitems hrest ihitems ih =>
    have hbehind := (Moves.of_reads hrest).trans hs'
    have hread := hf.behind hs hbehind hitems ihitems
    exact .call (by rwa [hkind]) hread (ih ((Moves.advance hs).trans (.of_reads hitems)) hs')
  | badCall hk hitems ih =>
    have hread := hf.behind hs hs' hitems ih
    exact .badCall (by rwa [hkind]) hread
  | index hk hi he hclose hrest ihi ih =>
    have hinner := (Moves.advance hs).trans (.of_reads hi)
    have hbehind := (Moves.of_reads hrest).trans hs'
    have hread := hf.behind hs hbehind.of_advance hi ihi
    have hread' := hf.behind hinner hs' hrest ih
    exact .index (by rwa [hkind]) hread he (by rwa [hkind]) hread'
  | badIndex hk hi he ih =>
    have hread := hf.behind hs hs' hi ih
    exact .badIndex (by rwa [hkind]) hread he
  | openIndex hk hi he hopen ih =>
    have hread := hf.behind hs hs'.of_expected hi ih
    obtain ⟨hnode, hstate⟩ := hf.expected _ ((Moves.advance hs).trans (.of_reads hi)) hs'
    rw [← hnode, ← hstate]
    exact .openIndex (by rwa [hkind]) hread he (by rwa [hkind])
  -- Operands
  | leaf hleaf =>
    rw [hf.advance hs hs']
    exact .leaf (by rwa [hf.current hleaf.kind_ne.1])
  | @refused _ s _ hrefused =>
    obtain ⟨-, hstate⟩ := hf.fault _ _ (.advance hs) hs'
    rw [hf.advance hs (.trans (.fault _ _ (.refl _)) hs')] at hstate
    rw [← hstate, ← hf.current (m := s) hrefused.kind_ne.1]
    exact .refused (by rwa [hf.current hrefused.kind_ne.1])
  | @invalidToken _ s hk =>
    rw [hf.advance hs hs', ← hf.current (m := s) (by simp [hk])]
    exact .invalidToken (by rwa [hkind])
  | missing hk =>
    obtain ⟨hnode, hstate⟩ := hf.expected _ hs hs'
    rw [← hnode, ← hstate]
    exact .missing (by rwa [hkind])
  | compound hrule _ ih => exact .compound (by rwa [hkind]) (ih hs hs')
  | @unit _ s hk hempty =>
    have hadvance := hf.advance hs hs'.of_advance
    rw [hf.advance (.advance hs) hs', hadvance, ← hf.current (m := s) (by simp [hk])]
    exact .unit (by rwa [hkind]) (by rwa [← hadvance, hkind])
  | grouped hk hempty hitems ih =>
    have hadvance := hf.advance hs ((Moves.of_reads hitems).trans hs')
    have hread := hf.behind hs hs' hitems ih
    exact .grouped (by rwa [hkind]) (by rwa [← hadvance, hkind]) hread
  | @tuple _ s _ _ _ hk hempty hitems hone ih =>
    have hadvance := hf.advance hs ((Moves.of_reads hitems).trans hs')
    have hread := hf.behind hs hs' hitems ih
    rw [← hf.current (m := s) (by simp [hk])]
    exact .tuple (by rwa [hkind]) (by rwa [← hadvance, hkind]) hread hone
  | badGroup hk hempty hitems ih =>
    have hadvance := hf.advance hs ((Moves.of_reads hitems).trans hs')
    have hread := hf.behind hs hs' hitems ih
    exact .badGroup (by rwa [hkind]) (by rwa [← hadvance, hkind]) hread
  | @array _ s _ _ _ hk hitems ih =>
    have hread := hf.behind hs hs' hitems ih
    rw [← hf.current (m := s) (by simp [hk])]
    exact .array (by rwa [hkind]) hread
  | badArray hk hitems ih =>
    have hread := hf.behind hs hs' hitems ih
    exact .badArray (by rwa [hkind]) hread
  | @block _ s _ _ _ hk hstatements hclose ih =>
    have hread := hf.behind hs hs'.of_advance hstatements ih
    rw [hf.advance ((Moves.advance hs).trans (.of_reads hstatements)) hs',
      ← hf.current (m := s) (by simp [hk])]
    exact .block (by rwa [hkind]) hread (by rwa [hkind])
  | openBlock hk hstatements hopen ih =>
    have hread := hf.behind hs hs'.of_expected hstatements ih
    obtain ⟨hnode, hstate⟩ := hf.expected _ ((Moves.advance hs).trans (.of_reads hstatements)) hs'
    rw [← hnode, ← hstate]
    exact .openBlock (by rwa [hkind]) hread (by rwa [hkind])
  | badCondition hk hc he ih =>
    have hread := hf.behind hs hs' hc ih
    exact .badCondition (by rwa [hkind]) hread he
  | noBlock hk hc he hbrace ih =>
    have hread := hf.behind hs hs'.of_expected hc ih
    obtain ⟨hnode, hstate⟩ := hf.expected _ ((Moves.advance hs).trans (.of_reads hc)) hs'
    rw [← hnode, ← hstate]
    exact .noBlock (by rwa [hkind]) hread he (by rwa [hkind])
  | badBlock hk hc he hbrace ht he' ihc iht =>
    have hcondition := (Moves.advance hs).trans (.of_reads hc)
    have hblock := (Moves.of_reads ht).trans hs'
    have hread := hf.behind hs hblock hc ihc
    exact .badBlock (by rwa [hkind]) hread he (by rwa [hkind]) (iht hcondition hs') he'
  | @ifThen _ s _ _ _ _ hk hc he hbrace ht he' helse ihc iht =>
    have hcondition := (Moves.advance hs).trans (.of_reads hc)
    have hblock := (Moves.of_reads ht).trans hs'
    have hread := hf.behind hs hblock hc ihc
    rw [← hf.current (m := s) (by simp [hk])]
    exact .ifThen (by rwa [hkind]) hread he (by rwa [hkind]) (iht hcondition hs') he'
      (by rwa [hkind])
  | noBranch hk hc he hbrace ht he' helse hnone ihc iht =>
    have hcondition := (Moves.advance hs).trans (.of_reads hc)
    have hbranch := hs'.of_expected.of_advance
    have hblock := (Moves.of_reads ht).trans hbranch
    have hadvance := hf.advance (hcondition.trans (.of_reads ht)) hs'.of_expected
    have hread := hf.behind hs hblock hc ihc
    obtain ⟨hnode, hstate⟩ := hf.expected _ (.advance (hcondition.trans (.of_reads ht))) hs'
    rw [hadvance] at hnode hstate
    rw [← hnode, ← hstate]
    exact .noBranch (by rwa [hkind]) hread he (by rwa [hkind]) (iht hcondition hbranch) he'
      (by rwa [hkind]) (by rwa [← hadvance, hkind])
  | badBranch hk hc he hbrace ht he' helse hrule hb he'' ihc iht ihb =>
    have hcondition := (Moves.advance hs).trans (.of_reads hc)
    have hbranch := (Moves.of_reads hb).trans hs'
    have hblock := (Moves.of_reads ht).trans hbranch.of_advance
    have hadvance := hf.advance (hcondition.trans (.of_reads ht)) hbranch
    have hread := hf.behind hs hblock hc ihc
    have hread' := hf.behind (hcondition.trans (.of_reads ht)) hs' hb ihb
    exact .badBranch (by rwa [hkind]) hread he (by rwa [hkind])
      (iht hcondition hbranch.of_advance) he' (by rwa [hkind]) (by rwa [← hadvance, hkind]) hread'
      he''
  | @ifThenElse _ s _ _ _ _ _ _ _ hk hc he hbrace ht he' helse hrule hb he'' ihc iht ihb =>
    have hcondition := (Moves.advance hs).trans (.of_reads hc)
    have hbranch := (Moves.of_reads hb).trans hs'
    have hblock := (Moves.of_reads ht).trans hbranch.of_advance
    have hadvance := hf.advance (hcondition.trans (.of_reads ht)) hbranch
    have hread := hf.behind hs hblock hc ihc
    have hread' := hf.behind (hcondition.trans (.of_reads ht)) hs' hb ihb
    rw [← hf.current (m := s) (by simp [hk])]
    exact .ifThenElse (by rwa [hkind]) hread he (by rwa [hkind])
      (iht hcondition hbranch.of_advance) he' (by rwa [hkind]) (by rwa [← hadvance, hkind]) hread'
      he''
  -- Items
  | itemsEnd hk =>
    rw [hf.advance hs hs']
    exact .itemsEnd (by rwa [hkind])
  | badItem hk _ he ih => exact .badItem (by rwa [hkind]) (ih hs hs') he
  | item hk hn he hcomma hrest ihn ih =>
    have hbehind := (Moves.of_reads hrest).trans hs'
    have hread := hf.behind (hs.trans (.of_reads hn)) hs' hrest ih
    exact .item (by rwa [hkind]) (ihn hs hbehind.of_advance) he (by rwa [hkind]) hread
  | lastItem hk hn he hcomma hclose ih =>
    rw [hf.advance (hs.trans (.of_reads hn)) hs']
    exact .lastItem (by rwa [hkind]) (ih hs hs'.of_advance) he (by rwa [hkind]) (by rwa [hkind])
  | openItems hk hn he hcomma hopen ih =>
    obtain ⟨hnode, hstate⟩ := hf.expected _ (hs.trans (.of_reads hn)) hs'
    rw [← hnode, ← hstate]
    exact .openItems (by rwa [hkind]) (ih hs hs'.of_expected) he (by rwa [hkind]) (by rwa [hkind])
  -- Sequences of statements
  | sequenceEnd hend => exact .sequenceEnd (by rwa [hkind])
  | separator hend hk hrest ih =>
    have hread := hf.behind hs hs' hrest ih
    exact .separator (by rwa [hkind]) (by rwa [hkind]) hread
  | terminated hend hk hn hsemicolon hrest ihn ih =>
    have hbehind := (Moves.of_reads hrest).trans hs'
    have hn' := hs.trans (.of_reads hn)
    have hmoved := hf.moveOn hn' hbehind.of_advance
    have hread := hf.behind (hn'.moveOn _) hs' hrest ih
    rw [hmoved] at hread
    exact .terminated (by rwa [hkind]) (by rwa [hkind]) (ihn hs hbehind.of_advance.of_moveOn)
      (by rwa [← hmoved, hkind]) hread
  | trailing hend hk hn hsemicolon hclose ih =>
    have hmoved := hf.moveOn (hs.trans (.of_reads hn)) hs'
    rw [hmoved]
    exact .trailing (by rwa [hkind]) (by rwa [hkind]) (ih hs hs'.of_moveOn)
      (by rwa [← hmoved, hkind]) (by rwa [← hmoved, hkind])
  | recovered hend hk hn hsemicolon hclose he hrest ihn ih =>
    have hbehind := (Moves.of_reads hrest).trans hs'
    have hn' := hs.trans (.of_reads hn)
    have hmoved := hf.moveOn hn' hbehind.of_synchronize
    have hread := ih ((hn'.moveOn _).synchronize _ _) hs'
    rw [hf.synchronize _ _ (hn'.moveOn _) hbehind, hmoved] at hread
    exact .recovered (by rwa [hkind]) (by rwa [hkind]) (ihn hs hbehind.of_synchronize.of_moveOn)
      (by rwa [← hmoved, hkind]) (by rwa [← hmoved, hkind]) he hread
  | unterminated hend hk hn hsemicolon hclose he hblock hrest ihn ih =>
    have hbehind := (Moves.of_reads hrest).trans hs'
    have hn' := hs.trans (.of_reads hn)
    have hmoved := hf.moveOn hn' hbehind
    have hread := ih (hn'.moveOn _) hs'
    rw [hmoved] at hread
    exact .unterminated (by rwa [hkind]) (by rwa [hkind]) (ihn hs hbehind.of_moveOn)
      (by rwa [← hmoved, hkind]) (by rwa [← hmoved, hkind]) he hblock hread
  | unseparated hend hk hn hsemicolon hclose he hblock hrest ihn ih =>
    have hbehind := (Moves.of_reads hrest).trans hs'
    have hn' := hs.trans (.of_reads hn)
    have hmoved := hf.moveOn hn' hbehind.of_expected
    obtain ⟨hnode, hstate⟩ := hf.expected _ (hn'.moveOn _) hbehind
    have hread := ih ((hn'.moveOn _).expected _) hs'
    rw [← hnode, ← hstate, hmoved] at hread
    exact .unseparated (by rwa [hkind]) (by rwa [hkind]) (ihn hs hbehind.of_expected.of_moveOn)
      (by rwa [← hmoved, hkind]) (by rwa [← hmoved, hkind]) he hblock hread

end Carry

end Scriptlet.Grammar
