import Scriptlet.Proofs.Session.Slot

/-!
# A stack of scopes

The bindings of nested blocks as a list of scopes, the innermost first, each of which
holds its bindings in the order in which they were made. A binding is addressed by the
number of scopes around its own and by its place there. `flat` is the list of bindings
that a session would hold, and `slot` the address in it.
-/

namespace Scriptlet.Lexical

structure Local where
  name : String
  value : Value
  isMutable : Bool
  isFunction : Bool

abbrev Scope := List Local

structure Address where
  level : Nat
  place : Nat

/-- The newest binding of a name in one scope, with its place. -/
def findIn (name : String) : Scope → Option (Nat × Local)
  | [] => none
  | b :: newer =>
    match findIn name newer with
    | some (i, c) => some (i + 1, c)
    | none => if b.name = name then some (0, b) else none

/-- The binding of a name in the innermost scope that has one. -/
def find (name : String) : List Scope → Option (Address × Local)
  | [] => none
  | scope :: outer =>
    match findIn name scope with
    | some (i, b) => some (⟨outer.length, i⟩, b)
    | none => find name outer

/-- The value at an address. -/
def read? (a : Address) : List Scope → Option Value
  | [] => none
  | scope :: outer =>
    if outer.length = a.level then scope[a.place]?.map (·.value) else read? a outer

/-- The scopes with a new value at an address. -/
def write (a : Address) (v : Value) : List Scope → List Scope
  | [] => []
  | scope :: outer =>
    if outer.length = a.level then scope.modify a.place (fun b => { b with value := v }) :: outer
    else scope :: write a v outer

/-- A binding of a session, made at a depth. -/
def Local.at (depth : Nat) (b : Local) : Binding :=
  ⟨.text b.name, b.value, b.isMutable, depth, b.isFunction⟩

/-- All bindings in the order in which they were made, those of the outermost scope
first, and each with the number of scopes around it as its depth. -/
def flat : List Scope → List Binding
  | [] => []
  | scope :: outer => flat outer ++ scope.map (Local.at outer.length)

/-- Is there a binding at the address? -/
def Holds (a : Address) : List Scope → Prop
  | [] => False
  | scope :: outer => if outer.length = a.level then a.place < scope.length else Holds a outer

/-- The number of bindings that are older in the flat list. -/
def slot (a : Address) : List Scope → Nat
  | [] => 0
  | _ :: outer =>
    if outer.length = a.level then (flat outer).length + a.place else slot a outer

theorem findBinding_scope (name : String) (depth : Nat) (scope : Scope) (older : List Binding) :
    findBinding (.text name) ((scope.map (Local.at depth)).reverse ++ older) =
      match findIn name scope with
      | some (i, b) => some (older.length + i, b.at depth)
      | none => findBinding (.text name) older := by
  induction scope generalizing older with
  | nil => rfl
  | cons b newer ih =>
    rw [List.map_cons, List.reverse_cons, List.append_assoc, List.singleton_append, ih, findIn]
    cases findIn name newer with
    | some found =>
      simp only [List.length_cons, Nat.add_comm 1, Nat.add_assoc]
    | none =>
      by_cases hname : b.name = name
      · simp [findBinding, Local.at, hname]
      · simp [findBinding, Local.at, hname]

theorem level_lt {a : Address} {scopes : List Scope} (h : Holds a scopes) :
    a.level < scopes.length := by
  induction scopes with
  | nil => exact h.elim
  | cons scope outer ih =>
    rw [Holds] at h
    split at h
    · next hlevel => exact hlevel ▸ Nat.lt_succ_self _
    · exact Nat.lt_succ_of_lt (ih h)

theorem findIn_lt {name : String} {scope : Scope} {i : Nat} {b : Local}
    (h : findIn name scope = some (i, b)) : i < scope.length := by
  induction scope generalizing i b with
  | nil => cases h
  | cons c newer ih =>
    rw [findIn] at h
    split at h
    · next hfound =>
      cases h
      exact Nat.succ_lt_succ (ih hfound)
    · split at h
      · cases h
        exact Nat.zero_lt_succ _
      · cases h

theorem holds_of_find {name : String} {scopes : List Scope} {a : Address} {b : Local}
    (h : find name scopes = some (a, b)) : Holds a scopes := by
  induction scopes with
  | nil => cases h
  | cons scope outer ih =>
    rw [find] at h
    rw [Holds]
    split at h
    · next hfound =>
      cases h
      exact (if_pos rfl).mpr (findIn_lt hfound)
    · have houter := ih h
      rw [if_neg (Nat.ne_of_gt (level_lt houter))]
      exact houter

theorem findBinding_flat (name : String) (scopes : List Scope) :
    findBinding (.text name) (flat scopes).reverse =
      (find name scopes).map fun found => (slot found.1 scopes, found.2.at found.1.level) := by
  induction scopes with
  | nil => rfl
  | cons scope outer ih =>
    rw [flat, List.reverse_append, findBinding_scope, ih, find]
    cases findIn name scope with
    | some found => simp [slot]
    | none =>
      cases houter : find name outer with
      | none => rfl
      | some found =>
        have hlevel := Nat.ne_of_gt (level_lt (holds_of_find houter))
        simp only [Option.map_some, slot, if_neg hlevel]

theorem depth_lt {b : Binding} {scopes : List Scope} (h : b ∈ flat scopes) :
    b.depth < scopes.length := by
  induction scopes with
  | nil => exact absurd h List.not_mem_nil
  | cons scope outer ih =>
    rw [List.length_cons]
    rcases List.mem_append.mp h with houter | hscope
    · have := ih houter
      omega
    · obtain ⟨c, -, rfl⟩ := List.mem_map.mp hscope
      simp only [Local.at]
      omega

theorem slot_lt {a : Address} {scopes : List Scope} (h : Holds a scopes) :
    slot a scopes < (flat scopes).length := by
  induction scopes with
  | nil => exact h.elim
  | cons scope outer ih =>
    rw [Holds] at h
    rw [slot, flat, List.length_append, List.length_map]
    split at h
    · next hlevel =>
      rw [if_pos hlevel]
      omega
    · next hlevel =>
      rw [if_neg hlevel]
      have := ih h
      omega

theorem read?_eq {a : Address} {scopes : List Scope} (h : Holds a scopes) :
    (flat scopes)[slot a scopes]?.map (·.value) = read? a scopes := by
  induction scopes with
  | nil => exact h.elim
  | cons scope outer ih =>
    rw [Holds] at h
    rw [slot, flat, read?]
    split at h
    · next hlevel =>
      simp only [if_pos hlevel]
      rw [List.getElem?_append_right (Nat.le_add_right _ _), Nat.add_sub_cancel_left,
        List.getElem?_map, Option.map_map]
      rfl
    · next hlevel =>
      simp only [if_neg hlevel]
      rw [List.getElem?_append_left (slot_lt h)]
      exact ih h

theorem length_write (a : Address) (v : Value) (scopes : List Scope) :
    (write a v scopes).length = scopes.length := by
  induction scopes with
  | nil => rfl
  | cons scope outer ih =>
    rw [write]
    split
    · rfl
    · rw [List.length_cons, ih, List.length_cons]

/-- Scopes of the same lengths give addresses the same slots. -/
theorem slot_congr {scopes scopes' : List Scope}
    (h : scopes.map List.length = scopes'.map List.length) (a : Address) :
    (flat scopes).length = (flat scopes').length ∧ slot a scopes = slot a scopes' ∧
      (Holds a scopes ↔ Holds a scopes') := by
  induction scopes generalizing scopes' with
  | nil =>
    cases scopes' with
    | nil => exact ⟨rfl, rfl, Iff.rfl⟩
    | cons => cases h
  | cons scope outer ih =>
    cases scopes' with
    | nil => cases h
    | cons scope' outer' =>
      rw [List.map_cons, List.map_cons, List.cons.injEq] at h
      obtain ⟨hscope, houter⟩ := h
      obtain ⟨hflat, hslot, hholds⟩ := ih houter
      have hlevel : outer.length = outer'.length := by
        simpa using congrArg List.length houter
      refine ⟨?_, ?_, ?_⟩
      · simp only [flat, List.length_append, List.length_map, hflat, hscope]
      · simp only [slot, hlevel, hflat, hslot]
      · simp only [Holds, hlevel, hscope, hholds]

theorem lengths_write (a : Address) (v : Value) (scopes : List Scope) :
    (write a v scopes).map List.length = scopes.map List.length := by
  induction scopes with
  | nil => rfl
  | cons scope outer ih =>
    rw [write]
    split
    · simp
    · rw [List.map_cons, ih, List.map_cons]

/-- Writing changes the flat list in one slot. -/
theorem getElem?_flat_write {a : Address} {scopes : List Scope} (v : Value) (i : Nat)
    (h : Holds a scopes) :
    (flat (write a v scopes))[i]? =
      (flat scopes)[i]?.map fun b => if i = slot a scopes then { b with value := v } else b := by
  induction scopes generalizing i with
  | nil => exact h.elim
  | cons scope outer ih =>
    rw [Holds] at h
    rw [write, slot, flat]
    split at h
    · next hlevel =>
      simp only [if_pos hlevel, flat]
      by_cases hi : i < (flat outer).length
      · rw [List.getElem?_append_left hi, List.getElem?_append_left hi]
        have hne : i ≠ (flat outer).length + a.place := by omega
        simp only [if_neg hne, Option.map_id_fun', id_eq]
      · have hle := Nat.le_of_not_lt hi
        rw [List.getElem?_append_right hle, List.getElem?_append_right hle, List.getElem?_map,
          List.getElem?_map, List.getElem?_modify]
        have hplace : a.place = i - (flat outer).length ↔ i = (flat outer).length + a.place := by
          omega
        cases scope[i - (flat outer).length]? with
        | none => rfl
        | some b =>
          simp only [Option.map_some, hplace]
          split <;> rfl
    · next hlevel =>
      simp only [if_neg hlevel, flat]
      have hlengths := (slot_congr (lengths_write a v outer) a).1
      by_cases hi : i < (flat outer).length
      · rw [List.getElem?_append_left (hlengths ▸ hi), List.getElem?_append_left hi]
        exact ih i h
      · have hle := Nat.le_of_not_lt hi
        have hne : i ≠ slot a outer := by
          have := slot_lt h
          omega
        rw [List.getElem?_append_right (hlengths ▸ hle), List.getElem?_append_right hle, hlengths,
          length_write]
        simp only [if_neg hne, Option.map_id_fun', id_eq]

end Scriptlet.Lexical
