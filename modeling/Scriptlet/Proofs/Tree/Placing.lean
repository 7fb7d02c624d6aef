import Scriptlet.Proofs.Tree.Printing
import Scriptlet.Diagnostic

/-!
# Trees with other positions

A map of positions places tokens, diagnostics and whole trees anew. Nothing else about
them changes, and the tree without its positions is the same.
-/

namespace Scriptlet

variable (g : Position → Position)

def Token.place (t : Token) : Token := { t with position := g t.position }

def Diagnostic.place (d : Diagnostic) : Diagnostic := { d with position := g d.position }

namespace Node

mutual

def place : Node → Node
  | ⟨k, v, cs, es, m, p⟩ => ⟨k, placeValue v, placeAll cs, placeAll es, m, g p⟩

def placeValue : Datum Node → Datum Node
  | .node n => .node (place n)
  | .absent => .absent
  | .bool b => .bool b
  | .text s => .text s
  | .int n => .int n
  | .float x => .float x

def placeAll : List Node → List Node
  | [] => []
  | n :: ns => place n :: placeAll ns

end

theorem placeAll_eq_map (ns : List Node) : placeAll g ns = ns.map (place g) := by
  induction ns with
  | nil => rfl
  | cons n ns ih => rw [placeAll, ih, List.map_cons]

@[simp] theorem place_kind (n : Node) : (n.place g).kind = n.kind := by
  cases n
  rfl

@[simp] theorem place_position (n : Node) : (n.place g).position = g n.position := by
  cases n
  rfl

@[simp] theorem place_isError (n : Node) : (n.place g).isError = n.isError := by
  rw [isError, place_kind, isError]

@[simp] theorem place_isBlockLike (n : Node) : (n.place g).isBlockLike = n.isBlockLike := by
  rw [isBlockLike, place_kind, isBlockLike]

@[simp] theorem place_make (k : Kind) (p : Position) (v : Datum Node) (cs : List Node) :
    (make k p v cs).place g = make k (g p) (placeValue g v) (cs.map (place g)) := by
  simp only [make, place, placeAll_eq_map, List.map_nil]

mutual

theorem place_id : (n : Node) → n.place id = n
  | ⟨k, v, cs, es, m, p⟩ => by
    rw [place, placeValue_id v, placeAll_id cs, placeAll_id es, id_eq]

theorem placeValue_id : (v : Datum Node) → placeValue id v = v
  | .node n => by rw [placeValue, place_id n]
  | .absent | .bool _ | .text _ | .int _ | .float _ => rfl

theorem placeAll_id : (ns : List Node) → placeAll id ns = ns
  | [] => rfl
  | n :: ns => by rw [placeAll, place_id n, placeAll_id ns]

end

variable {g} {h : Position → Position}

mutual

/-- Maps that agree on the positions of a tree place it alike. -/
theorem place_congr : (n : Node) → (∀ m ∈ n.preorder, g m.position = h m.position) →
    n.place g = n.place h
  | ⟨k, v, cs, es, m, p⟩, hg => by
    rw [preorder, List.forall_mem_cons] at hg
    simp only [List.forall_mem_append] at hg
    rw [place, place, placeValue_congr v hg.2.1.1, placeAll_congr cs hg.2.1.2,
      placeAll_congr es hg.2.2]
    exact congrArg _ hg.1

theorem placeValue_congr : (v : Datum Node) →
    (∀ m ∈ preorderOfValue v, g m.position = h m.position) → placeValue g v = placeValue h v
  | .node n, hg => by rw [placeValue, placeValue, place_congr n hg]
  | .absent, _ | .bool _, _ | .text _, _ | .int _, _ | .float _, _ => rfl

theorem placeAll_congr : (ns : List Node) →
    (∀ m ∈ preorderOfAll ns, g m.position = h m.position) → placeAll g ns = placeAll h ns
  | [], _ => rfl
  | n :: ns, hg => by
    rw [preorderOfAll, List.forall_mem_append] at hg
    rw [placeAll, placeAll, place_congr n hg.1, placeAll_congr ns hg.2]

end

/-- Trees whose positions are kept are kept. -/
theorem map_place_eq_self {ns : List Node} (hg : ∀ m ∈ preorderOfAll ns, g m.position = m.position) :
    ns.map (place g) = ns := by
  rw [← placeAll_eq_map, placeAll_congr (h := id) ns hg, placeAll_id]

variable (g)

mutual

theorem preorder_place : (n : Node) → (n.place g).preorder = n.preorder.map (place g)
  | ⟨k, v, cs, es, m, p⟩ => by
    rw [place, preorder, preorderOfValue_placeValue v, preorderOfAll_placeAll cs,
      preorderOfAll_placeAll es]
    simp only [preorder, List.map_cons, List.map_append, place]

theorem preorderOfValue_placeValue : (v : Datum Node) →
    preorderOfValue (placeValue g v) = (preorderOfValue v).map (place g)
  | .node n => by rw [placeValue, preorderOfValue, preorderOfValue, preorder_place n]
  | .absent | .bool _ | .text _ | .int _ | .float _ => rfl

theorem preorderOfAll_placeAll : (ns : List Node) →
    preorderOfAll (placeAll g ns) = (preorderOfAll ns).map (place g)
  | [] => rfl
  | n :: ns => by
    rw [placeAll, preorderOfAll, preorderOfAll, preorder_place n, preorderOfAll_placeAll ns,
      List.map_append]

end

theorem containsErrors_place (ns : List Node) :
    containsErrors (ns.map (place g)) = containsErrors ns := by
  have hkept : isError ∘ place g = isError := funext (place_isError g)
  rw [containsErrors_eq_any, containsErrors_eq_any, ← placeAll_eq_map, preorderOfAll_placeAll,
    List.any_map, hkept]

mutual

/-- To leave the positions out is to place all at the start. -/
theorem unplaced_eq_place : (n : Node) → n.unplaced = n.place fun _ => {}
  | ⟨k, v, cs, es, m, p⟩ => by
    rw [place, unplaced, unplacedValue_eq_placeValue v, unplacedAll_eq_placeAll cs,
      unplacedAll_eq_placeAll es]

theorem unplacedValue_eq_placeValue : (v : Datum Node) →
    unplacedValue v = placeValue (fun _ => {}) v
  | .node n => by rw [placeValue, unplacedValue, unplaced_eq_place n]
  | .absent | .bool _ | .text _ | .int _ | .float _ => rfl

theorem unplacedAll_eq_placeAll : (ns : List Node) → unplacedAll ns = placeAll (fun _ => {}) ns
  | [] => rfl
  | n :: ns => by
    rw [placeAll, unplacedAll, unplaced_eq_place n, unplacedAll_eq_placeAll ns]

end

mutual

theorem unplaced_place : (n : Node) → (n.place g).unplaced = n.unplaced
  | ⟨k, v, cs, es, m, p⟩ => by
    rw [place, unplaced, unplaced, unplacedValue_placeValue v, unplacedAll_placeAll cs,
      unplacedAll_placeAll es]

theorem unplacedValue_placeValue : (v : Datum Node) →
    unplacedValue (placeValue g v) = unplacedValue v
  | .node n => by rw [placeValue, unplacedValue, unplacedValue, unplaced_place n]
  | .absent | .bool _ | .text _ | .int _ | .float _ => rfl

theorem unplacedAll_placeAll : (ns : List Node) → unplacedAll (placeAll g ns) = unplacedAll ns
  | [] => rfl
  | n :: ns => by
    rw [placeAll, unplacedAll, unplacedAll, unplaced_place n, unplacedAll_placeAll ns]

end

end Node

end Scriptlet
