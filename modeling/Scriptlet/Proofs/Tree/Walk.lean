import Mathlib.Data.List.Nodup
import Scriptlet.Proofs.Tree.Errors

/-!
# What a walk visits

An address tells how a node is reached from the root: through the value, through a child or
through a member of the else branch, time after time. Nodes that look the same have different
addresses, so that "each node once" is a matter of addresses.

The list of pending nodes is a stack whose top is its front. Seen from its other end, the way a
stack grows, a node is taken off the end, and its else branch, its children and the node in its
value are put on in this order, the first two from their last member to their first.
-/

namespace Scriptlet.Node

/-- One step down in a tree. -/
inductive Branch where
  | value
  | child (i : Nat)
  | other (i : Nat)
deriving DecidableEq, Repr

/-- The node right below along the branch. -/
def under? (n : Node) : Branch → Option Node
  | .value => (ofValue n.value).head?
  | .child i => n.children[i]?
  | .other i => n.elseBranch[i]?

/-- The node at an address, if the tree goes that far. -/
def at? (n : Node) : List Branch → Option Node
  | [] => some n
  | b :: address => (n.under? b).bind fun m => m.at? address

mutual

/-- The addresses of all nodes of a tree, in the order of the recursive traversal. -/
def addresses : Node → List (List Branch)
  | ⟨_, v, cs, es, _, _⟩ =>
    [] :: (addressesOfValue v ++ addressesOfAll .child 0 cs ++ addressesOfAll .other 0 es)

def addressesOfValue : Datum Node → List (List Branch)
  | .node n => n.addresses.map (.value :: ·)
  | _ => []

/-- The addresses in trees of which the first one lies at the branch number `i`. -/
def addressesOfAll (branch : Nat → Branch) (i : Nat) : List Node → List (List Branch)
  | [] => []
  | n :: ns => n.addresses.map (branch i :: ·) ++ addressesOfAll branch (i + 1) ns

end

variable {n : Node} {ns : List Node} {branch : Nat → Branch} {i : Nat} {address : List Branch}

theorem mem_addressesOfValue {v : Datum Node} :
    address ∈ addressesOfValue v ↔
      ∃ m rest, address = .value :: rest ∧ (ofValue v).head? = some m ∧ rest ∈ m.addresses := by
  cases v <;> simp [addressesOfValue, ofValue, and_comm, eq_comm]

theorem mem_addressesOfAll :
    address ∈ addressesOfAll branch i ns ↔
      ∃ j m rest, address = branch (i + j) :: rest ∧ ns[j]? = some m ∧ rest ∈ m.addresses := by
  induction ns generalizing i with
  | nil => simp [addressesOfAll]
  | cons n ns ih =>
    rw [addressesOfAll, List.mem_append, List.mem_map, ih]
    constructor
    · rintro (⟨rest, hrest, rfl⟩ | ⟨j, m, rest, rfl, hm, hrest⟩)
      · exact ⟨0, n, rest, rfl, rfl, hrest⟩
      · refine ⟨j + 1, m, rest, ?_, hm, hrest⟩
        rw [Nat.add_right_comm, Nat.add_assoc]
    · rintro ⟨j, m, rest, rfl, hm, hrest⟩
      cases j with
      | zero =>
        obtain rfl := Option.some.inj hm
        exact .inl ⟨rest, hrest, rfl⟩
      | succ j =>
        refine .inr ⟨j, m, rest, ?_, hm, hrest⟩
        rw [Nat.add_right_comm, Nat.add_assoc]

/-- The addresses that are listed are those at which there is a node. -/
theorem mem_addresses : address ∈ n.addresses ↔ (n.at? address).isSome := by
  induction address generalizing n with
  | nil =>
    cases n
    simp [addresses, at?]
  | cons b rest ih =>
    have hbelow : (n.at? (b :: rest)).isSome ↔ ∃ m, n.under? b = some m ∧ rest ∈ m.addresses := by
      rw [at?]
      cases n.under? b with
      | none => simp
      | some m => simp [ih]
    rw [hbelow]
    obtain ⟨k, v, cs, es, m, p⟩ := n
    rw [addresses, List.mem_cons, List.mem_append, List.mem_append, mem_addressesOfValue,
      mem_addressesOfAll, mem_addressesOfAll]
    cases b <;> simp [under?]

theorem nodup_map_cons {b : Branch} {addresses : List (List Branch)} (h : addresses.Nodup) :
    (addresses.map (b :: ·)).Nodup :=
  h.map List.cons_injective

mutual

theorem nodup_addresses : (n : Node) → n.addresses.Nodup
  | ⟨_, v, cs, es, _, _⟩ => by
    have hchild : Function.Injective Branch.child := fun _ _ => Branch.child.inj
    have hother : Function.Injective Branch.other := fun _ _ => Branch.other.inj
    have hvalues := nodup_addressesOfValue v
    have hchildren := nodup_addressesOfAll hchild 0 cs
    have hothers := nodup_addressesOfAll hother 0 es
    rw [addresses, List.nodup_cons, List.nodup_append, List.nodup_append]
    -- The root has the empty address; in the three lists the addresses begin differently.
    refine ⟨?_, ⟨hvalues, hchildren, ?_⟩, hothers, ?_⟩
    · simp [mem_addressesOfValue, mem_addressesOfAll]
    · intro a ha b hb
      obtain ⟨_, rest, rfl, -⟩ := mem_addressesOfValue.mp ha
      obtain ⟨_, _, rest', rfl, -⟩ := mem_addressesOfAll.mp hb
      simp
    · intro a ha b hb
      obtain ⟨_, _, rest, rfl, -⟩ := mem_addressesOfAll.mp hb
      rcases List.mem_append.mp ha with ha | ha
      · obtain ⟨_, rest', rfl, -⟩ := mem_addressesOfValue.mp ha
        simp
      · obtain ⟨_, _, rest', rfl, -⟩ := mem_addressesOfAll.mp ha
        simp

theorem nodup_addressesOfValue : (v : Datum Node) → (addressesOfValue v).Nodup
  | .node n => nodup_map_cons (nodup_addresses n)
  | .absent | .bool _ | .text _ | .int _ | .float _ => .nil

theorem nodup_addressesOfAll {branch : Nat → Branch} (hbranch : Function.Injective branch)
    (i : Nat) : (ns : List Node) → (addressesOfAll branch i ns).Nodup
  | [] => .nil
  | n :: ns => by
    have hfirst := nodup_addresses n
    have hrest := nodup_addressesOfAll hbranch (i + 1) ns
    rw [addressesOfAll, List.nodup_append]
    refine ⟨nodup_map_cons hfirst, hrest, ?_⟩
    intro a ha b hb
    obtain ⟨rest, -, rfl⟩ := List.mem_map.mp ha
    obtain ⟨j, _, rest', rfl, -⟩ := mem_addressesOfAll.mp hb
    intro heq
    have hsame := hbranch (List.cons.inj heq).1
    omega

end

mutual

/-- The addresses lead to the nodes of the recursive traversal, in its order. -/
theorem at?_addresses : (n : Node) → n.addresses.map n.at? = n.preorder.map some
  | ⟨k, v, cs, es, m, p⟩ => by
    have hvalue := at?_addressesOfValue ⟨k, v, cs, es, m, p⟩ v rfl
    have hchildren := at?_addressesOfAll ⟨k, v, cs, es, m, p⟩ .child 0 cs fun j => by
      rw [Nat.zero_add, under?]
    have hothers := at?_addressesOfAll ⟨k, v, cs, es, m, p⟩ .other 0 es fun j => by
      rw [Nat.zero_add, under?]
    rw [addresses, preorder]
    simp only [List.map_cons, List.map_append, hvalue, hchildren, hothers, at?]

theorem at?_addressesOfValue (root : Node) : (v : Datum Node) →
    root.under? .value = (ofValue v).head? →
    (addressesOfValue v).map root.at? = (preorderOfValue v).map some
  | .node n, h => by
    have hn := at?_addresses n
    have hunder : (root.at? ∘ (Branch.value :: ·)) = n.at? := by
      funext rest
      rw [Function.comp_apply, at?, h]
      rfl
    rw [addressesOfValue, preorderOfValue, List.map_map, hunder, hn]
  | .absent, _ | .bool _, _ | .text _, _ | .int _, _ | .float _, _ => rfl

theorem at?_addressesOfAll (root : Node) (branch : Nat → Branch) (i : Nat) : (ns : List Node) →
    (∀ j, root.under? (branch (i + j)) = ns[j]?) →
    (addressesOfAll branch i ns).map root.at? = (preorderOfAll ns).map some
  | [], _ => rfl
  | n :: ns, h => by
    have hn := at?_addresses n
    have hns := at?_addressesOfAll root branch (i + 1) ns fun j => by
      rw [Nat.add_right_comm, Nat.add_assoc, h (j + 1), List.getElem?_cons_succ]
    have hunder : (root.at? ∘ (branch i :: ·)) = n.at? := by
      funext rest
      have hfirst := h 0
      rw [Nat.add_zero] at hfirst
      rw [Function.comp_apply, at?, hfirst]
      rfl
    rw [addressesOfAll, preorderOfAll, List.map_append, List.map_append, List.map_map, hunder, hn,
      hns]

end

theorem mem_preorder {m : Node} : m ∈ n.preorder ↔ ∃ address, n.at? address = some m := by
  have hsome : m ∈ n.preorder ↔ some m ∈ n.preorder.map some := by simp
  rw [hsome, ← at?_addresses, List.mem_map]
  constructor
  · rintro ⟨address, -, hm⟩
    exact ⟨address, hm⟩
  · rintro ⟨address, hm⟩
    refine ⟨address, mem_addresses.mpr ?_, hm⟩
    rw [hm, Option.isSome_some]

/-- One round of the walk, with the stack read from the other end. -/
theorem walkAll_reverse_concat (stack : List Node) (n : Node) :
    walkAll (stack ++ [n]).reverse =
      n :: walkAll
        (stack ++ n.elseBranch.reverse ++ n.children.reverse ++ ofValue n.value).reverse := by
  have hvalue : (ofValue n.value).reverse = ofValue n.value := by
    cases n.value <;> rfl
  rw [List.reverse_concat, walkAll]
  simp only [List.reverse_append, List.reverse_reverse, hvalue, parts, List.append_assoc]

/-- A round takes one node of those that are pending, counted with all that is below them. -/
theorem length_walkAll (ns : List Node) : (walkAll ns).length = sizeOfAll ns := by
  induction ns using walkAll.induct with
  | case1 => rw [walkAll, sizeOfAll, List.length_nil]
  | case2 n rest ih =>
    rw [walkAll, List.length_cons, ih, sizeOfAll, sizeOfAll_append, size_eq]
    omega

/-- A walk comes to its end after as many rounds as there are nodes. It visits them in the order
of the recursive traversal, and each address of the tree once. So error nodes are found wherever
they are. -/
theorem walk_visits_each_address_once (n : Node) :
    (∀ stack m, walkAll (stack ++ [m]).reverse =
      m :: walkAll
        (stack ++ m.elseBranch.reverse ++ m.children.reverse ++ ofValue m.value).reverse) ∧
      n.walk.length = n.size ∧
      n.walk = n.preorder ∧
      (n.walk.map some = n.addresses.map n.at? ∧ n.addresses.Nodup ∧
        ∀ address, address ∈ n.addresses ↔ (n.at? address).isSome) ∧
      ∀ ns, containsErrors ns = true ↔
        ∃ root ∈ ns, ∃ address m, root.at? address = some m ∧ m.kind = .error := by
  refine ⟨walkAll_reverse_concat, ?_, walk_eq_preorder n, ⟨?_, nodup_addresses n, ?_⟩, ?_⟩
  · rw [walk, length_walkAll, sizeOfAll, sizeOfAll, Nat.add_zero]
  · rw [walk_eq_preorder, at?_addresses]
  · intro address
    exact mem_addresses
  · intro ns
    simp only [containsErrors, walk_eq_preorder, List.any_eq_true, mem_preorder, isError,
      decide_eq_true_eq]
    constructor
    · rintro ⟨root, hroot, m, ⟨address, hm⟩, herror⟩
      exact ⟨root, hroot, address, m, hm, herror⟩
    · rintro ⟨root, hroot, address, m, hm, herror⟩
      exact ⟨root, hroot, m, ⟨address, hm⟩, herror⟩

/-- The nodes below the value come first, those below the else branch last. -/
example :
    let leaf (k : Kind) : Node := make k {} .absent []
    let root : Node := ⟨.block, .node (make .call {} (.node (leaf .unit)) [leaf .bool]),
      [make .array {} .absent [leaf .integer], leaf .float], [leaf .string, leaf .error], false, {}⟩
    root.walk.map (·.kind) =
      [.block, .call, .unit, .bool, .array, .integer, .float, .string, .error] := by
  decide +kernel

end Scriptlet.Node
