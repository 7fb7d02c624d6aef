import Scriptlet.Proofs.Tree.Errors
import Scriptlet.Proofs.Tree.Printing

/-!
# Regular terms

What is true of the literals and tuples of a program that was read from a text, but not of all
terms: a float is finite, and a tuple is not empty.
-/

namespace Scriptlet

/-- A float that the node holds is finite, and a tuple has an item. -/
structure Node.Regular (n : Node) : Prop where
  finite : ∀ x, n.kind = .float → n.value = .float x → x.isFinite = true
  inhabited : n.kind = .tuple → n.children ≠ []

namespace Term

/-- Is each float in the term finite, and does each tuple have an item? -/
inductive Regular : Term → Prop where
  | intro {t : Term} : t.toNode.Regular → (∀ u ∈ t.parts, Regular u) → Regular t

theorem Regular.node {t : Term} (h : t.Regular) : t.toNode.Regular := by
  obtain ⟨hnode, -⟩ := h
  exact hnode

theorem Regular.part {t u : Term} (h : t.Regular) (hu : u ∈ t.parts) : u.Regular := by
  obtain ⟨-, hparts⟩ := h
  exact hparts u hu

theorem toNodes_eq_map (ts : List Term) : toNodes ts = ts.map toNode := by
  induction ts with
  | nil => rfl
  | cons t ts ih => rw [toNodes, ih, List.map_cons]

theorem toNode?_toList (t : Option Term) : (toNode? t).toList = t.toList.map toNode := by
  cases t <;> rfl

/-- Right below the tree of a term are the trees of its parts, and the name that it assigns to. -/
theorem parts_toNode (t : Term) : t.toNode.parts.Perm (t.parts.map toNode) ∨
    ∃ p name, t.toNode.parts.Perm (nameNode p name :: t.parts.map toNode) := by
  cases t with
  | assign p op name a => exact .inr ⟨p, name, .refl _⟩
  | call p f as =>
    left
    rw [parts, List.map_cons, ← toNodes_eq_map, toNode, Node.parts]
    exact .cons f.toNode (.of_eq (List.append_nil _))
  | tuple p as | array p as =>
    left
    rw [parts, ← toNodes_eq_map, toNode, parts_of_absent]
  | block p ts last =>
    left
    rw [parts, List.map_append, ← toNodes_eq_map, ← toNode?_toList]
    cases last with
    | none => exact .refl _
    | some l => exact .trans (.of_eq (List.append_nil _)) (@List.perm_append_comm _ [l.toNode] _)
  | conditional p c a e =>
    left
    rw [parts, List.map_cons, List.map_cons, ← toNode?_toList]
    exact .refl _
  | giveBack p a =>
    left
    rw [parts, ← toNode?_toList, toNode, parts_of_absent]
  | _ => exact .inl (.refl _)

/-- The trees of the parts are parts of the tree. -/
theorem mem_parts_toNode {t u : Term} (h : u ∈ t.parts) : u.toNode ∈ t.toNode.parts := by
  have hmem : u.toNode ∈ t.parts.map toNode := List.mem_map_of_mem h
  rcases t.parts_toNode with hparts | ⟨p, name, hparts⟩
  · exact hparts.mem_iff.mpr hmem
  · exact hparts.mem_iff.mpr (List.mem_cons_of_mem _ hmem)

theorem regular_of_everywhere {t : Term} (h : t.toNode.Everywhere Node.Regular) : t.Regular := by
  induction t using Term.induction with
  | _ t ih =>
  obtain ⟨hnode, hparts⟩ := Node.everywhere_iff.mp h
  exact .intro hnode fun u hu => ih u hu (hparts _ (mem_parts_toNode hu))

/-- All trees in the tree of a regular term are those of regular terms. -/
theorem Regular.everywhere {t : Term} (h : t.Regular) :
    t.toNode.Everywhere fun n => ∃ u : Term, u.Regular ∧ u.toNode = n := by
  induction t using Term.induction with
  | _ t ih =>
  have hname (p : Position) (name : String) : (identifier p name).Regular :=
    .intro ⟨nofun, nofun⟩ nofun
  have hparts : ∀ n ∈ t.parts.map toNode,
      n.Everywhere fun n => ∃ u : Term, u.Regular ∧ u.toNode = n := by
    intro n hn
    obtain ⟨u, hu, rfl⟩ := List.mem_map.mp hn
    exact ih u hu (h.part hu)
  refine Node.everywhere_iff.mpr ⟨⟨t, h, rfl⟩, fun n hn => ?_⟩
  rcases t.parts_toNode with hperm | ⟨p, name, hperm⟩
  · exact hparts n (hperm.mem_iff.mp hn)
  · rcases List.mem_cons.mp (hperm.mem_iff.mp hn) with rfl | hn
    · exact Node.everywhere_iff.mpr ⟨⟨_, hname p name, rfl⟩, nofun⟩
    · exact hparts n hn

end Term

end Scriptlet
