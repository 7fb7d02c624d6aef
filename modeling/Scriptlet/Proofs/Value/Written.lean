import Scriptlet.Proofs.Tree.Printing
import Scriptlet.Value.Display

/-!
# Values as words

The text of a value that is no float and no function is made up of words of the language,
with a blank behind each comma between items and no other gap. What lets its last word stand
is what may follow a value: a comma, a closing bracket, or the end of the text.

`holds` looks for a property in a value and in everything inside it; `holds_eq` and
`induction` go down by one level.
-/

namespace Scriptlet

namespace Value

/-- The values that a tuple or an array is made of. -/
def items : Value → List Value
  | tuple vs _ => vs
  | array vs _ => vs
  | _ => []

theorem sizeOf_lt_of_mem_items {u v : Value} (h : u ∈ v.items) : sizeOf u < sizeOf v := by
  cases v <;> simp only [items, List.not_mem_nil] at h
  all_goals
    have hlt := List.sizeOf_lt_of_mem h
    simp only [tuple.sizeOf_spec, array.sizeOf_spec]
    omega

/-- What holds of a value when it holds of its items holds of all values. -/
theorem induction {motive : Value → Prop} (h : ∀ v, (∀ u ∈ v.items, motive u) → motive v)
    (v : Value) : motive v := h v fun u _ => induction h u
termination_by sizeOf v
decreasing_by exact sizeOf_lt_of_mem_items ‹_›

mutual

/-- Has the value the property, or anything inside it? -/
def holds (p : Value → Bool) : Value → Bool
  | tuple vs m => p (tuple vs m) || anyHolds p vs
  | array vs m => p (array vs m) || anyHolds p vs
  | v => p v

def anyHolds (p : Value → Bool) : List Value → Bool
  | [] => false
  | v :: vs => holds p v || anyHolds p vs

end

section Holds

variable {p : Value → Bool}

theorem anyHolds_eq (vs : List Value) : anyHolds p vs = vs.any (holds p) := by
  induction vs with
  | nil => rfl
  | cons v vs ih => rw [anyHolds, ih, List.any_cons]

theorem holds_eq (v : Value) : v.holds p = (p v || v.items.any (holds p)) := by
  cases v <;> simp [holds, items, anyHolds_eq]

theorem holds_eq_false {v : Value} :
    v.holds p = false ↔ p v = false ∧ ∀ u ∈ v.items, u.holds p = false := by
  rw [holds_eq, Bool.or_eq_false_iff, List.any_eq_false]
  simp only [Bool.not_eq_true]

end Holds

/-- Is it none of the 64-bit integers, truth values, strings, the unit, tuples and arrays? -/
def isForeign : Value → Bool
  | integer n => !inRange n
  | float _ _ | function _ | misfit _ _ _ => true
  | _ => false

def isLeast : Value → Bool
  | integer n => n = leastInteger
  | _ => false

def isEmptyTuple : Value → Bool
  | tuple [] _ => true
  | _ => false

end Value

namespace Value

open Word

mutual

/-- The sign of an integer is a word of its own, and one item in parentheses has a comma. -/
def words : Value → List Word
  | integer n => if n < 0 then [fixed .minus, .integer n.natAbs] else [.integer n.natAbs]
  | bool b => [fixed (if b then .kwTrue else .kwFalse)]
  | string s => [⟨.string, Text.literal s.toList⟩]
  | unit => enclosed .leftParen .rightParen []
  | tuple vs _ =>
    enclosed .leftParen .rightParen
      (listed (allWords vs) ++ if vs.length = 1 then [fixed .comma] else [])
  | array vs _ => enclosed .leftBracket .rightBracket (listed (allWords vs))
  | float _ _ | function _ | misfit _ _ _ => []

def allWords : List Value → List (List Word)
  | [] => []
  | v :: vs => words v :: allWords vs

end

theorem allWords_eq_map (vs : List Value) : allWords vs = vs.map words := by
  induction vs with
  | nil => rfl
  | cons v vs ih => rw [allWords, ih, List.map_cons]

theorem displayAll_eq_map (vs : List Value) : displayAll vs = vs.map display := by
  induction vs with
  | nil => rfl
  | cons v vs ih => rw [displayAll, ih, List.map_cons]

end Value

namespace Word

variable {k : Token.Kind} {c : Char} {rest : List Char} {ws : List Word}

theorem Stands.spelled {w : Word} (hw : w.Stands rest) (h : Spelled rest ws) :
    Spelled (w.lexeme ++ rest) (w :: ws) := .word .nil hw h

/-- The marks that no character behind them makes something else. -/
def marks : List Token.Kind := [.leftParen, .rightParen, .leftBracket, .rightBracket, .comma]

theorem Spelled.mark (hmark : k ∈ marks) (hc : k.spelling = [c]) (h : Spelled rest ws) :
    Spelled (c :: rest) (fixed k :: ws) := by
  have hall : ∀ k ∈ marks, (k.spelling, k) ∈ Token.operators ∧
      k.spelling ∉ [['='], ['+'], ['-'], ['*'], ['/'], ['!']] := by
    decide
  obtain ⟨hglyph, hnot⟩ := hall k hmark
  have hstands : (fixed k).Stands rest := by
    refine Scan.stands_operator hglyph fun d _ => ?_
    simp only [hc, List.mem_cons, List.cons.injEq, and_true, List.not_mem_nil, or_false,
      not_or] at hnot
    simp [Scan.prolongs, Token.operators, hc, eq_comm, hnot]
  have hspelled := hstands.spelled h
  have hlexeme : (fixed k).lexeme = [c] := hc
  rwa [hlexeme] at hspelled

end Word

namespace Value

open Word

/-- What may stand behind a value: a comma, a closing bracket, or nothing. -/
def Ends (rest : List Char) : Prop := ∀ c, rest.head? = some c → c ∈ [',', ')', ']']

theorem ends_cons {c : Char} (rest : List Char) (h : c ∈ [',', ')', ']']) : Ends (c :: rest) :=
  fun _ hd => Option.some.inj hd ▸ h

variable {rest : List Char} {ws : List Word}

/-- The characters that may stand behind a value are no part of what stands before them. -/
theorem Ends.not_part {p : Char → Bool} (hp : [',', ')', ']'].any p = false) (h : Ends rest) :
    ∀ c, rest.head? = some c → p c = false :=
  fun c hc => eq_false_of_ne_true (List.any_eq_false.mp hp c (h c hc))

theorem spelled_natural (n : Nat) (hrest : Ends rest) (h : Spelled rest ws) :
    Spelled (Nat.toDigits 10 n ++ rest) (.integer n :: ws) := by
  have hstands : (Word.integer n).Stands rest := by
    refine Scan.stands_integer (Decimal.digits_toDigits n) fun c hc => ⟨?_, ?_⟩
    · exact hrest.not_part (by decide) c hc
    · rintro rfl
      exact absurd (hrest _ hc) (by decide)
  exact hstands.spelled h

theorem spelled_negative (n : Nat) (h : Spelled (Nat.toDigits 10 n ++ rest) ws) :
    Spelled ('-' :: Nat.toDigits 10 n ++ rest) (fixed .minus :: ws) :=
  (stands_minus (Decimal.digits_toDigits n)).spelled h

theorem spelled_integer (n : Int) (hrest : Ends rest) (h : Spelled rest ws) :
    Spelled ((toString n).toList ++ rest) ((integer n).words ++ ws) := by
  have hnatural := spelled_natural n.natAbs hrest h
  rw [words, Int.toString_eq_repr]
  cases n with
  | ofNat n =>
    have hsign : ¬ Int.ofNat n < 0 := Int.not_lt.mpr (Int.natCast_nonneg n)
    have htext : (Int.ofNat n).repr.toList = Nat.toDigits 10 n := String.toList_ofList
    rw [if_neg hsign, htext]
    exact hnatural
  | negSucc n =>
    have htext : (Int.negSucc n).repr.toList = '-' :: Nat.toDigits 10 (n + 1) := by
      change ("-" ++ String.ofList (Nat.toDigits 10 (n + 1))).toList = _
      simp
    rw [if_pos (Int.negSucc_lt_zero n), htext]
    exact spelled_negative (n + 1) hnatural

theorem spelled_bool (b : Bool) (hrest : Ends rest) (h : Spelled rest ws) :
    Spelled ((bool b).display.toList ++ rest) ((bool b).words ++ ws) := by
  have hpart : ∀ c, rest.head? = some c → Scan.isWordPart c = false := hrest.not_part (by decide)
  have hstands (name : String) (hstart : name.toList.head?.any Scan.isWordStart = true)
      (hparts : name.toList.all Scan.isWordPart = true) :
      Word.Stands ⟨Token.wordKind name, name.toList⟩ rest := Scan.stands_word hstart hparts hpart
  cases b with
  | true => exact (hstands "true" (by decide) (by decide)).spelled h
  | false => exact (hstands "false" (by decide) (by decide)).spelled h

/-- Items with commas between them. -/
theorem spelled_items (vs : List Value) (hrest : Ends rest) (h : Spelled rest ws)
    (hvs : ∀ v ∈ vs, ∀ {rest ws}, Ends rest → Spelled rest ws →
      Spelled (v.display.toList ++ rest) (v.words ++ ws)) :
    Spelled ((Text.commaSeparated (vs.map display)).toList ++ rest)
      (listed (vs.map words) ++ ws) := by
  rw [Text.commaSeparated, String.toList_intercalate, List.map_map]
  induction vs with
  | nil => exact h
  | cons v vs ih =>
    obtain ⟨hv, hvs⟩ := List.forall_mem_cons.mp hvs
    cases vs with
    | nil =>
      rw [List.map_singleton, List.map_singleton, listed_singleton]
      simpa [List.intercalate] using hv hrest h
    | cons u vs =>
      have htail := (ih hvs).blank.mark (k := .comma) (c := ',') (by decide) (by decide)
      rw [List.map_cons, List.map_cons, List.map_cons, List.map_cons, listed_cons_cons,
        List.append_assoc]
      have hall := hv (ends_cons _ (by decide)) htail
      simpa [List.intercalate] using hall

/-- The text of a value is made up of its words, whatever else is behind it. -/
theorem spelled_display (v : Value) (hv : v.holds isForeign = false) (hrest : Ends rest)
    (h : Spelled rest ws) : Spelled (v.display.toList ++ rest) (v.words ++ ws) := by
  induction v using Value.induction generalizing rest ws with
  | _ v ih =>
  obtain ⟨hforeign, hitems⟩ := holds_eq_false.mp hv
  cases v with
  | integer n => exact spelled_integer n hrest h
  | bool b => exact spelled_bool b hrest h
  | string s =>
    rw [display, String.toList_ofList]
    exact (Scan.stands_string s.toList rest).spelled h
  | unit => exact (h.mark (k := .rightParen) (by decide) (by decide)).mark (by decide) (by decide)
  | tuple vs m =>
    have hclosed := h.mark (k := .rightParen) (c := ')') (by decide) (by decide)
    rw [display, words, allWords_eq_map, displayAll_eq_map]
    match vs, ih, hitems with
    | [], _, _ => exact hclosed.mark (by decide) (by decide)
    | [u], ih, hitems =>
      have hcomma := hclosed.mark (k := .comma) (c := ',') (by decide) (by decide)
      have hitem := ih u List.mem_cons_self (hitems u List.mem_cons_self)
        (ends_cons _ (by decide)) hcomma
      have hopened := hitem.mark (k := .leftParen) (c := '(') (by decide) (by decide)
      simpa [tupleText, listed_singleton, enclosed] using hopened
    | u :: w :: vs, ih, hitems =>
      have hlist := spelled_items (u :: w :: vs) (ends_cons _ (by decide)) hclosed
        fun v hv => ih v hv (hitems v hv)
      have hopened := hlist.mark (k := .leftParen) (c := '(') (by decide) (by decide)
      simpa [tupleText, enclosed] using hopened
  | array vs m =>
    have hclosed := h.mark (k := .rightBracket) (c := ']') (by decide) (by decide)
    have hlist := spelled_items vs (ends_cons _ (by decide)) hclosed
      fun u hu => ih u hu (hitems u hu)
    have hopened := hlist.mark (k := .leftBracket) (c := '[') (by decide) (by decide)
    rw [display, words, allWords_eq_map, displayAll_eq_map]
    simpa [enclosed] using hopened
  | float | function | misfit => cases hforeign

/-- The least integer has a sign and a number that is out of range. -/
theorem mem_words_of_least {v : Value} (h : v.holds isLeast = true) :
    Word.integer (greatestInteger + 1) ∈ v.words := by
  induction v using Value.induction with
  | _ v ih =>
  rw [holds_eq, Bool.or_eq_true, List.any_eq_true] at h
  rcases h with hleast | ⟨u, hu, hinside⟩
  · cases v with
    | integer n =>
      obtain rfl : n = leastInteger := of_decide_eq_true hleast
      exact List.mem_cons_of_mem _ List.mem_cons_self
    | _ => cases hleast
  · have hword := ih u hu hinside
    have hlisted (vs : List Value) (hu : u ∈ vs) :
        Word.integer (greatestInteger + 1) ∈ listed (allWords vs) := by
      rw [allWords_eq_map]
      exact mem_listed (List.mem_map_of_mem hu) hword
    cases v with
    | tuple vs m => simp [words, enclosed, hlisted vs hu]
    | array vs m => simp [words, enclosed, hlisted vs hu]
    | _ => cases hu

end Value

end Scriptlet
