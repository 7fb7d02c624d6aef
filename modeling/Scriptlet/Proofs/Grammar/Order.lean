import Scriptlet.Proofs.Grammar.Language
import Scriptlet.Proofs.Tree.Errors

/-!
# Trees in the order of the text

A phrase takes a stretch of the tokens, and its trees have positions in that stretch. The rules
put stretches side by side and make a new tree either of a token in front of its parts or of a
part that is the first one. So where the tokens lie one behind the other, the trees do too, and
no tree lies behind one of its parts.
-/

namespace Scriptlet

open Node (Everywhere everywhere_iff)

namespace Token

/-- Tokens lie one behind the other. -/
def Rising (ts : List Token) : Prop :=
  ts.Pairwise fun s t => s.position.index < t.position.index

variable {t : Token} {ts us : List Token}

theorem rising_cons :
    Rising (t :: ts) ↔ (∀ u ∈ ts, t.position.index < u.position.index) ∧ Rising ts :=
  List.pairwise_cons

theorem Rising.tail (h : Rising (t :: ts)) : Rising ts := (rising_cons.mp h).2

theorem rising_append : Rising (ts ++ us) ↔
    Rising ts ∧ Rising us ∧ ∀ s ∈ ts, ∀ t ∈ us, s.position.index < t.position.index :=
  List.pairwise_append

theorem Rising.left (h : Rising (ts ++ us)) : Rising ts := (rising_append.mp h).1

theorem Rising.right (h : Rising (ts ++ us)) : Rising us := (rising_append.mp h).2.1

end Token

namespace Node

/-- The first tree lies in front of the second one. -/
def Precedes (m n : Node) : Prop := m.position.index < n.position.index

/-- The parts in the order of the text, in which the last expression of a block comes last. -/
def partsInText (n : Node) : List Node :=
  if n.kind = .block then n.children ++ ofValue n.value ++ n.elseBranch else n.parts

theorem mem_partsInText {m n : Node} : m ∈ n.partsInText ↔ m ∈ n.parts := by
  rw [partsInText]
  split
  · simp only [parts, List.mem_append, or_comm]
  · rfl

/-- A tree does not lie behind its parts, and these lie one behind the other. -/
structure Ordered (n : Node) : Prop where
  le : ∀ m ∈ n.parts, n.position.index ≤ m.position.index
  parts : n.partsInText.Pairwise Precedes

end Node

namespace Language

open Token (Rising rising_cons rising_append)
open Node (Precedes Ordered mem_partsInText)

/-- The trees have positions of the tokens everywhere and are ordered, each in itself and one
behind the other. -/
structure Spread (ts : List Token) (ns : List Node) : Prop where
  position : ∀ n ∈ ns, n.Everywhere fun m => ∃ t ∈ ts, m.position = t.position
  ordered : ∀ n ∈ ns, n.Everywhere Ordered
  sorted : ns.Pairwise Precedes

namespace Spread

variable {t : Token} {ts us : List Token} {n a : Node} {ms ns : List Node}

theorem nil : Spread ts [] := ⟨nofun, nofun, .nil⟩

theorem mono (h : Spread ts ns) (hsub : ts ⊆ us) : Spread us ns := by
  refine ⟨fun n hn m hm => ?_, h.ordered, h.sorted⟩
  obtain ⟨t, ht, heq⟩ := h.position n hn m hm
  exact ⟨t, hsub ht, heq⟩

/-- A token more in front, and tokens behind. -/
theorem behind (h : Spread ts ns) : Spread (t :: ts) ns := h.mono (List.subset_cons_self t ts)

theorem before (h : Spread ts ns) : Spread (ts ++ us) ns := h.mono (List.subset_append_left ts us)

/-- The root of a tree has the position of a token. -/
theorem root (h : Spread ts ns) (hn : n ∈ ns) : ∃ t ∈ ts, n.position = t.position :=
  (everywhere_iff.mp (h.position n hn)).1

theorem append (hrising : Rising (ts ++ us)) (hms : Spread ts ms) (hns : Spread us ns) :
    Spread (ts ++ us) (ms ++ ns) := by
  obtain ⟨-, -, hlt⟩ := rising_append.mp hrising
  have hms' : Spread (ts ++ us) ms := hms.before
  have hns' := hns.mono (List.subset_append_right ts us)
  refine ⟨List.forall_mem_append.mpr ⟨hms'.position, hns'.position⟩,
    List.forall_mem_append.mpr ⟨hms.ordered, hns.ordered⟩,
    List.pairwise_append.mpr ⟨hms.sorted, hns.sorted, fun m hm n hn => ?_⟩⟩
  obtain ⟨s, hs, hm⟩ := hms.root hm
  obtain ⟨t, ht, hn⟩ := hns.root hn
  rw [Precedes, hm, hn]
  exact hlt s hs t ht

theorem cons (hrising : Rising (ts ++ us)) (hn : Spread ts [n]) (hns : Spread us ns) :
    Spread (ts ++ us) (n :: ns) := .append hrising hn hns

/-- A tree over trees that are spread. -/
theorem covering (hposition : ∃ t ∈ ts, n.position = t.position)
    (hle : ∀ m ∈ n.partsInText, n.position.index ≤ m.position.index)
    (h : Spread ts n.partsInText) : Spread ts [n] := by
  have hordered : n.Ordered := ⟨fun m hm => hle m (mem_partsInText.mpr hm), h.sorted⟩
  refine ⟨List.forall_mem_singleton.mpr ?_, List.forall_mem_singleton.mpr ?_,
    List.pairwise_singleton ..⟩
  · exact everywhere_iff.mpr ⟨hposition, fun m hm => h.position m (mem_partsInText.mpr hm)⟩
  · exact everywhere_iff.mpr ⟨hordered, fun m hm => h.ordered m (mem_partsInText.mpr hm)⟩

/-- A tree that lies at a token in front of its parts. -/
theorem headed (hrising : Rising (t :: ts)) (hn : n.position = t.position)
    (h : Spread ts n.partsInText) : Spread (t :: ts) [n] := by
  refine covering ⟨t, List.mem_cons_self, hn⟩ (fun m hm => ?_) h.behind
  obtain ⟨u, hu, hm⟩ := h.root hm
  rw [hn, hm]
  exact Int.le_of_lt ((rising_cons.mp hrising).1 u hu)

/-- A tree that lies at the first of its parts. -/
theorem joined (hparts : n.partsInText = a :: ns) (hn : n.position = a.position)
    (h : Spread ts (a :: ns)) : Spread ts [n] := by
  refine covering (hn ▸ h.root List.mem_cons_self) ?_ (hparts ▸ h)
  rw [hparts, hn, List.forall_mem_cons]
  exact ⟨Int.le_refl _, fun m hm => Int.le_of_lt ((List.pairwise_cons.mp h.sorted).1 m hm)⟩

end Spread

theorem Atom.spread {t : Token} {n : Node} (h : Atom t n) : Spread [t] [n] := by
  have hrising : Rising [t] := List.pairwise_singleton ..
  cases h <;> exact .headed hrising rfl .nil

/-- The trees of a phrase are spread over its tokens. -/
theorem Derives.spread {phrase : Phrase} {ts : List Token} (h : Derives phrase ts) :
    Rising ts → Spread ts phrase.nodes := by
  induction h with
  | empty | noItems => exact fun _ => .nil
  | separator _ _ ih => exact fun h => (ih h.tail).behind
  | terminated _ _ _ ih ihrest | item _ _ _ ih ihrest =>
    exact fun h => .cons h (ih h.left) (ihrest h.right.tail).behind
  | unterminated _ _ _ _ ih ihrest => exact fun h => .cons h (ih h.left) (ihrest h.right)
  | atom h => exact fun _ => h.spread
  | bareReturn | unit => exact fun h => .headed h rfl .nil
  | returnOf _ _ ih | unary _ _ ih => exact fun h => .headed h rfl (ih h.tail)
  | immutable _ _ _ _ ih => exact fun h => .headed h rfl (ih h.tail.tail.tail).behind.behind
  | mutable _ _ _ _ _ ih =>
    exact fun h => .headed h rfl (ih h.tail.tail.tail.tail).behind.behind.behind
  | assignment _ _ _ _ ihl ihr | or _ _ _ ihl ihr | and _ _ _ ihl ihr | add _ _ _ ihl ihr
  | multiply _ _ _ ihl ihr =>
    exact fun h => .joined rfl rfl (.cons h (ihl h.left) (ihr h.right.tail).behind)
  | compare _ _ _ ihl ihr =>
    exact fun h => .joined rfl rfl (.cons h (ihl h.left.left).before (ihr h.right))
  | @call n _ _ read _ _ _ _ _ _ _ ih ihitems =>
    intro h
    have hitems := Spread.cons h.left (ih h.left.left) (ihitems h.left.right.tail).behind
    exact .before (.joined (congrArg (n :: ·) (List.append_nil read)) rfl hitems)
  | index _ _ _ _ ih ihplace =>
    intro h
    have hplace := Spread.cons h.left (ih h.left.left) (ihplace h.left.right.tail).behind
    exact .before (.joined rfl rfl hplace)
  | grouped _ _ _ ih => exact fun h => (ih h.left.tail).behind.before
  | @tuple _ read _ _ _ _ _ ih | @array _ read _ _ _ _ _ _ ih =>
    intro h
    have hitems : Spread _ read := ih h.left.tail
    rw [← List.append_nil read] at hitems
    exact .headed h rfl hitems.before
  | @block _ ns last _ _ _ _ _ ih =>
    intro h
    have hbody : Spread _ (ns ++ last.toList) := ih h.left.tail
    rw [← List.append_nil (ns ++ last.toList), ← Node.ofValue_last] at hbody
    exact .headed h rfl hbody.before
  | ifThen _ _ _ ihc iht =>
    exact fun h => .headed h rfl (.cons h.tail (ihc h.left.tail) (iht h.right))
  | ifThenElse _ _ _ _ _ ihc iht ihe =>
    intro h
    have hblock := Spread.cons h.left.tail (ihc h.left.left.tail) (iht h.left.right)
    exact .headed h rfl (.append h.tail hblock (ihe h.right.tail).behind)
  -- The other rules pass on the tree of their part.
  | _ => assumption

end Language

end Scriptlet
