import Scriptlet.Token.Scan

/-!
# How far scanning goes

What is scanned is a stretch at the front of the text: never longer than the text is.
-/

namespace Scriptlet

namespace Scan

theorem word_length_le (s : List Char) : (word s).length ≤ s.length :=
  (List.takeWhile_prefix _).length_le

theorem number_length_le (s : List Char) : (number s).length ≤ s.length := by
  have htake (t : List Char) : (t.takeWhile Decimal.isDigit).length ≤ t.length :=
    (List.takeWhile_prefix _).length_le
  have hs := htake s
  unfold number
  dsimp only
  split
  · next rest hrest =>
    have hlength := congrArg List.length hrest
    have hfraction := htake rest
    simp only [List.length_drop, List.length_cons] at hlength
    split
    · next hpoint =>
      obtain ⟨more, hmore⟩ := List.head?_eq_some_iff.mp hpoint
      have hlength' := congrArg List.length hmore
      simp only [List.length_drop, List.length_cons] at hlength'
      dsimp only
      omega
    · dsimp only
      omega
  · exact hs

theorem closingQuote?_quote (rest : List Char) : closingQuote? ('"' :: rest) = some 1 := by
  cases rest <;> rfl

theorem closingQuote?_escape (c : Char) (rest : List Char) :
    closingQuote? ('\\' :: c :: rest) = (closingQuote? rest).map (· + 2) := rfl

theorem closingQuote?_plain {c : Char} (hquote : c ≠ '"') (hslash : c ≠ '\\')
    (rest : List Char) : closingQuote? (c :: rest) = (closingQuote? rest).map (· + 1) := by
  cases rest <;> simp [closingQuote?, hquote, hslash]

theorem closingQuote?_le {s : List Char} {n : Nat} (h : closingQuote? s = some n) :
    n ≤ s.length := by
  induction s using closingQuote?.induct generalizing n with
  | case1 => cases h
  | case2 rest =>
    rw [closingQuote?_quote] at h
    cases h
    simp
  | case3 => cases h
  | case4 c rest hquote ih =>
    obtain ⟨m, hm, rfl⟩ := Option.map_eq_some_iff.mp h
    have hle := ih hm
    simp only [List.length_cons]
    omega
  | case5 c rest hquote hslash ih =>
    rw [closingQuote?_plain hquote hslash] at h
    obtain ⟨m, hm, rfl⟩ := Option.map_eq_some_iff.mp h
    have hle := ih hm
    simp only [List.length_cons]
    omega

theorem string_length_le (c : Char) (s : List Char) :
    (string (c :: s)).length ≤ (c :: s).length := by
  unfold string
  split
  · next n hn =>
    have hle := closingQuote?_le hn
    rw [List.drop_succ_cons, List.drop_zero] at hle
    simp only [List.length_cons]
    omega
  · exact Nat.le_refl _

theorem operator_length_le {c : Char} {s : List Char} {p : Piece}
    (h : operator? (c :: s) = some p) : p.length ≤ (c :: s).length := by
  unfold operator? at h
  split at h
  · cases h
    exact List.length_take_le' _ _
  · obtain ⟨kind, -, rfl⟩ := Option.map_eq_some_iff.mp h
    simp

theorem token_length_le (c : Char) (s : List Char) :
    (token c (c :: s)).length ≤ (c :: s).length := by
  unfold token
  split
  · exact word_length_le _
  · split
    · exact number_length_le _
    · split
      · exact string_length_le c s
      · cases h : operator? (c :: s) with
        | none => simp
        | some p => exact operator_length_le h

end Scan

end Scriptlet
