import Scriptlet.Proofs.Token.Words

/-!
# Scanning at the end of a line

The end of a line ends a token, and a comment to the end of the line, just as the end of the text
does. What is scanned at the end of a text is scanned the same when more lines follow, unless the
text ends within a string or within a comment. And where only a semicolon follows on a line of its
own, it ends neither.
-/

namespace Scriptlet.Scan

variable (s t : List Char)

theorem takeWhile_line {p : Char → Bool} (hp : p '\n' = false) :
    (s ++ '\n' :: t).takeWhile p = s.takeWhile p := by
  induction s with
  | nil => simp [hp]
  | cons c s ih => rw [List.cons_append, List.takeWhile_cons, List.takeWhile_cons, ih]

theorem head?_line {c : Char} (hc : c ≠ '\n') :
    (s ++ '\n' :: t).head? = some c ↔ s.head? = some c := by
  cases s with
  | nil => simp [hc.symm]
  | cons d s => rfl

theorem word_line : word (s ++ '\n' :: t) = word s := by
  rw [word, word, takeWhile_line s t (by decide)]

theorem drop_takeWhile_line {p : Char → Bool} :
    (s ++ '\n' :: t).drop (s.takeWhile p).length = s.drop (s.takeWhile p).length ++ '\n' :: t :=
  List.drop_append_of_le_length (List.takeWhile_prefix p).length_le

theorem number_line : number (s ++ '\n' :: t) = number s := by
  rw [number, number, takeWhile_line s t (by decide), drop_takeWhile_line]
  rcases s.drop (s.takeWhile Decimal.isDigit).length with - | ⟨c, rest⟩
  · rfl
  · by_cases hc : c = '.'
    · subst hc
      have hfraction := takeWhile_line rest t (p := Decimal.isDigit) (by decide)
      have hpoint := head?_line ((rest.drop (rest.takeWhile Decimal.isDigit).length)) t
        (show '.' ≠ '\n' by decide)
      simp only [List.cons_append, hfraction, drop_takeWhile_line, hpoint]
    · simp only [List.cons_append]
      split
      · next heq => exact absurd (List.cons.inj heq).1 hc
      · split
        · next heq => exact absurd (List.cons.inj heq).1 hc
        · rfl

variable {s}

theorem closingQuote?_append {n : Nat} (h : closingQuote? s = some n) :
    closingQuote? (s ++ t) = some n := by
  induction s using closingQuote?.induct generalizing n with
  | case1 => cases h
  | case2 rest =>
    rw [closingQuote?_quote] at h
    rw [List.cons_append, closingQuote?_quote, h]
  | case3 => cases h
  | case4 d rest _ ih =>
    rw [closingQuote?_escape] at h
    obtain ⟨m, hm, rfl⟩ := Option.map_eq_some_iff.mp h
    rw [List.cons_append, List.cons_append, closingQuote?_escape, ih hm, Option.map_some]
  | case5 d rest hquote hslash ih =>
    rw [closingQuote?_plain hquote hslash] at h
    obtain ⟨m, hm, rfl⟩ := Option.map_eq_some_iff.mp h
    rw [List.cons_append, closingQuote?_plain hquote hslash, ih hm, Option.map_some]

variable {c : Char} {r : List Char}

theorem string_line (h : (string (c :: r)).fault ≠ some .unterminatedString) :
    string (c :: r ++ '\n' :: t) = string (c :: r) := by
  rw [string, string] at *
  simp only [List.drop_succ_cons, List.drop_zero, List.cons_append] at h ⊢
  cases hquote : closingQuote? r with
  | none =>
    rw [hquote] at h
    exact absurd rfl h
  | some n => rw [closingQuote?_append _ hquote]

/-- No operator goes beyond the line. -/
theorem operator?_line : operator? (c :: r ++ '\n' :: t) = operator? (c :: r) := by
  cases r with
  | nil =>
    have hall : ∀ e ∈ Token.operators, '\n' ∉ e.1 := by decide
    have hnone : Token.operators.lookup [c, '\n'] = none :=
      List.lookup_eq_none_iff.mpr fun e he => bne_iff_ne.mpr fun heq =>
        hall e he (heq ▸ by simp)
    simp only [operator?, List.cons_append, List.nil_append, List.take_succ_cons, List.take_zero,
      List.take_nil, hnone]
    cases Token.operators.lookup [c] <;> rfl
  | cons d r => rfl

/-- A token that is not broken off at the end of the text is the same at the end of the line. -/
theorem token_line (h : (token c (c :: r)).fault ≠ some .unterminatedString) :
    token c (c :: r ++ '\n' :: t) = token c (c :: r) := by
  unfold token at h ⊢
  split
  · exact word_line ..
  · next hstart =>
    rw [if_neg hstart] at h
    split
    · exact number_line ..
    · next hdigit =>
      rw [if_neg hdigit] at h
      split
      · next hquote =>
        rw [if_pos hquote] at h
        exact string_line t h
      · rw [operator?_line]

theorem isGap_line {front rest : List Char} (h : IsGap rest front) :
    IsGap (rest ++ '\n' :: t) front := by
  induction h with
  | nil => exact .nil
  | blank hblank _ ih => exact .blank hblank ih
  | @line body s hbody hhead _ ih =>
    refine .line hbody ?_ ih
    rw [← List.append_assoc]
    intro d hd
    cases hs : s ++ rest with
    | nil =>
      rw [hs] at hd
      exact (Option.some.inj hd).symm
    | cons e s' =>
      rw [hs] at hd hhead
      exact hhead d hd
  | block hfirst _ ih => exact .block hfirst ih

/-- Where no gap starts, none starts when the line ends with the text. -/
theorem gap_start_line (h : gap (c :: r) = ⟨0, none⟩) : gap (c :: r ++ '\n' :: t) = ⟨0, none⟩ := by
  have hlength := congrArg Gap.length h
  rw [gap] at hlength
  split at hlength
  · simp [Gap.behind] at hlength
  · next hblank =>
    split at hlength
    · simp [Gap.behind] at hlength
    · next hline =>
      split at hlength
      · split at hlength <;> simp [Gap.behind] at hlength
      · next hblock =>
        rw [List.cons_append]
        refine gap_token (eq_false_of_ne_true hblank) fun hc => ?_
        rw [ne_eq, ne_eq, head?_line r t (by decide), head?_line r t (by decide)]
        exact ⟨fun hr => hline ⟨hc, hr⟩, fun hr => hblock ⟨hc, hr⟩⟩

/-- A gap that is closed goes on behind the line if nothing else follows it there. -/
theorem gap_line (h : (gap s).unclosed = none) :
    gap (s ++ '\n' :: t) =
      if s.length ≤ (gap s).length then (gap t).behind (s.length + 1) else gap s := by
  have hfound := gap_found s
  rw [Gap.Found, h] at hfound
  obtain ⟨front, rest, rfl, hlength, hgap⟩ := hfound
  have hs := gap_append hgap
  have hrest : gap rest = ⟨0, none⟩ := by
    rw [hs] at hlength h
    rcases hg : gap rest with ⟨n, unclosed⟩
    rw [hg] at hlength h
    obtain rfl := Option.map_eq_none_iff.mp h
    obtain rfl : n = 0 := Nat.add_left_cancel hlength
    rfl
  rw [List.append_assoc, gap_append (isGap_line t hgap), hlength]
  cases rest with
  | nil =>
    rw [List.nil_append, List.append_nil, if_pos (Nat.le_refl _), gap, if_pos (by decide),
      Gap.behind_behind]
  | cons c r => rw [gap_start_line t hrest, if_neg (by simp), hs, hrest]

theorem closingQuote?_semicolon (h : closingQuote? s = none) :
    closingQuote? (s ++ ['\n', ';']) = none := by
  induction s using closingQuote?.induct with
  | case1 => rfl
  | case2 rest =>
    rw [closingQuote?_quote] at h
    cases h
  | case3 => rfl
  | case4 d rest _ ih =>
    rw [closingQuote?_escape, Option.map_eq_none_iff] at h
    rw [List.cons_append, List.cons_append, closingQuote?_escape, ih h, Option.map_none]
  | case5 d rest hquote hslash ih =>
    rw [closingQuote?_plain hquote hslash, Option.map_eq_none_iff] at h
    rw [List.cons_append, closingQuote?_plain hquote hslash, ih h, Option.map_none]

/-- It ends no string: one that is open in front of it is open behind it too. -/
theorem fault_semicolon (h : (token c (c :: r ++ ['\n', ';'])).fault ≠ some .unterminatedString) :
    (token c (c :: r)).fault ≠ some .unterminatedString := by
  intro hopen
  apply h
  unfold token at hopen ⊢
  split at hopen
  · cases hopen
  · next hstart =>
    rw [if_neg hstart]
    split at hopen
    · next hdigit => rwa [if_pos hdigit, number_line]
    · next hdigit =>
      rw [if_neg hdigit]
      split at hopen
      · next hquote =>
        rw [if_pos hquote, string]
        rw [string, List.drop_succ_cons, List.drop_zero] at hopen
        cases hr : closingQuote? r with
        | some n =>
          rw [hr] at hopen
          cases hopen
        | none =>
          rw [List.cons_append, List.drop_succ_cons, List.drop_zero, closingQuote?_semicolon hr]
      · next hquote => rwa [if_neg hquote, operator?_line]

theorem commentLength?_semicolon (h : commentLength? s = none) :
    commentLength? (s ++ ['\n', ';']) = none := by
  induction s with
  | nil => rfl
  | cons d s ih =>
    rw [commentLength?] at h
    split at h
    · cases h
    · next hend =>
      have hend' : ¬ (d = '*' ∧ (s ++ ['\n', ';']).head? = some '/') :=
        fun hd => hend ⟨hd.1, (head?_line s [';'] (by decide)).mp hd.2⟩
      rw [List.cons_append, commentLength?, if_neg hend', ih (Option.map_eq_none_iff.mp h),
        Option.map_none]

/-- It closes no comment either. -/
theorem closed_semicolon (h : (gap (s ++ ['\n', ';'])).unclosed = none) :
    (gap s).unclosed = none := by
  by_contra hopen
  obtain ⟨front, comment, rfl, hgap, body, rfl, hbody⟩ := endsOpen_iff.mpr hopen
  refine endsOpen_iff.mp ⟨front, _, List.append_assoc .., isGap_line [';'] hgap, ?_⟩ h
  refine ⟨body ++ ['\n', ';'], rfl, ?_⟩
  rw [← commentLength?_eq_none] at hbody ⊢
  exact commentLength?_semicolon hbody

end Scriptlet.Scan
