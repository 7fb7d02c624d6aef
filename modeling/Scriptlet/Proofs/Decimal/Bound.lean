import Mathlib.Algebra.Group.Nat.Defs
import Scriptlet.Grammar.Rule

/-!
# How large a literal can be

A number of few digits is small, also where a token made by hand puts a sign or
blanks around them.
-/

namespace Scriptlet

namespace Decimal

theorem digit_le {c : Char} (h : isDigit c = true) : c.toNat - '0'.toNat ≤ 9 := by
  simp only [isDigit, Bool.and_eq_true, decide_eq_true_eq] at h
  have hle : c.toNat ≤ '9'.toNat := h.2
  have hnine : '9'.toNat = 57 := rfl
  have hzero : '0'.toNat = 48 := rfl
  omega

theorem natOfDigits_append (ds : List Char) (d : Char) :
    natOfDigits (ds ++ [d]) = 10 * natOfDigits ds + (d.toNat - '0'.toNat) := by
  simp [natOfDigits]

theorem natOfDigits_lt {n : Nat} {ds : List Char} (hds : ∀ d ∈ ds, isDigit d = true)
    (hn : ds.length ≤ n) : natOfDigits ds < 10 ^ n := by
  induction n generalizing ds with
  | zero =>
    rw [List.eq_nil_of_length_eq_zero (Nat.le_zero.mp hn)]
    decide
  | succ n ih =>
    obtain rfl | ⟨ds, d, rfl⟩ := List.eq_nil_or_concat ds
    · exact Nat.pow_pos (by decide)
    · rw [List.concat_eq_append] at hds hn ⊢
      rw [natOfDigits_append, Nat.pow_succ]
      have hd := digit_le (hds d (by simp))
      have hrest := ih (fun c hc => hds c (List.mem_append_left _ hc)) (by simpa using hn)
      omega

theorem natOf?_lt {n m : Nat} {ds : List Char} (h : natOf? ds = some m) (hn : ds.length ≤ n) :
    m < 10 ^ n := by
  rw [natOf?] at h
  split at h
  · next hall =>
    simp only [Bool.and_eq_true, List.all_eq_true] at hall
    cases h
    exact natOfDigits_lt hall.1 hn
  · cases h

/-- What is put in front of a rest makes it longer by one. -/
theorem map_cons_length {c : Char} {rest t : List Char} {u : Option (List Char)}
    (hrest : ∀ v, u = some v → v.length ≤ rest.length) (h : u.map (c :: ·) = some t) :
    t.length ≤ rest.length + 1 := by
  obtain ⟨v, hv, rfl⟩ := Option.map_eq_some_iff.mp h
  exact Nat.succ_le_succ (hrest v hv)

theorem joined?_length {s t : List Char} {behindDigit : Bool} (h : joined? behindDigit s = some t) :
    t.length ≤ s.length := by
  induction behindDigit, s using joined?.induct generalizing t with
  | case1 =>
    cases h
    exact Nat.le_refl _
  | case2 behindDigit d rest hd ih =>
    rw [joined?, if_pos hd] at h
    exact Nat.le_succ_of_le (map_cons_length (fun _ => ih) h)
  | case3 behindDigit d rest hd =>
    rw [joined?, if_neg hd] at h
    cases h
  | case4 behindDigit rest hrest =>
    rw [joined?, if_pos rfl] at h
    · cases h
    · exact hrest
  | case5 behindDigit c rest hrest hc ih =>
    rw [joined?, if_neg hc] at h
    · exact map_cons_length (fun _ => ih) h
    · exact hrest

theorem bare?_length {s t : List Char} (h : bare? s = some t) : t.length ≤ s.length := by
  have htrimmed := joined?_length h
  have hfront : (s.dropWhile isMargin).length ≤ s.length := (List.dropWhile_sublist _).length_le
  have hback := (List.dropWhile_sublist isMargin (l := (s.dropWhile isMargin).reverse)).length_le
  simp only [List.length_map, List.length_reverse] at htrimmed hback
  omega

/-- A number below zero has a sign in front of its digits. -/
theorem integerOf?_cases {s : List Char} {i : Int} (h : integerOf? s = some i) :
    0 ≤ i ∨ ∃ ds m, natOf? ds = some m ∧ ds.length < s.length ∧ i = -(m : Int) := by
  have hdigits {ds : List Char} {k : Int} (hk : (natOf? ds >>= fun m => pure (m : Int)) = some k) :
      ∃ m : Nat, natOf? ds = some m ∧ (m : Int) = k := by
    obtain ⟨m, hm, hpure⟩ := Option.bind_eq_some_iff.mp hk
    exact ⟨m, hm, Option.some.inj hpure⟩
  rw [integerOf?] at h
  split at h
  · cases h
  · next ds hbare =>
    have hlength : ds.length < s.length := by
      split at hbare
      · exact bare?_length hbare
      · cases hbare
    obtain ⟨k, hk, rfl⟩ := Option.map_eq_some_iff.mp h
    obtain ⟨m, hm, rfl⟩ := hdigits hk
    exact .inr ⟨ds, m, hm, hlength, rfl⟩
  all_goals
    obtain ⟨k, hk, rfl⟩ := Option.map_eq_some_iff.mp h
    obtain ⟨m, -, rfl⟩ := hdigits hk
    exact .inl (Int.natCast_nonneg m)

/-- A number of few characters, the sign among them, is not far below zero. -/
theorem integerOf?_gt {s : List Char} {i : Int} {n : Nat} (h : integerOf? s = some i)
    (hs : s.length ≤ n + 1) : -(10 ^ n : Nat) < i := by
  obtain hi | ⟨ds, m, hm, hlength, rfl⟩ := integerOf?_cases h
  · have hpos : 0 < 10 ^ n := Nat.pow_pos (by decide)
    omega
  · have hlt := natOf?_lt hm (Nat.le_of_lt_succ (Nat.lt_of_lt_of_le hlength hs))
    omega

end Decimal

/-- The number of a literal fits into 64 bits, whatever the token holds. -/
theorem Grammar.integerLiteral_inRange {lexeme : String} {n : Int}
    (h : integerLiteral lexeme = .ok n) : Value.inRange n = true := by
  unfold integerLiteral at h
  dsimp only at h
  split at h
  · cases h
  · next hlength =>
    split at h
    · cases h
    · next m hm =>
      split at h
      · cases h
      · next hgreatest =>
        cases h
        have hleast := Decimal.integerOf?_gt hm (Nat.le_of_not_lt hlength)
        have hbound : Value.leastInteger = -9223372036854775808 := rfl
        simp only [Value.inRange, Bool.and_eq_true, decide_eq_true_eq]
        omega

end Scriptlet
