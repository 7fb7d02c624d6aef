import Mathlib.Data.List.Infix
import Mathlib.Data.List.TakeWhile
import Scriptlet.Token.Scan

/-!
# What stands between tokens

`IsGap rest s` says what a gap is without saying how it is found: blanks, line comments
and block comments, with `rest` behind them. A line comment goes on to the end of its
line, which may lie in `rest`. A block comment ends where `*/` is first found behind its
two opening characters, so that in `/*/` it is still open.

Scanning finds just these. A gap that was found can be cut off and found again in front
of any other gap (`gap_append`), so there is one way only to read it.
-/

namespace Scriptlet

/-- The two characters that end a block comment. -/
def commentEnd : List Char := ['*', '/']

inductive IsGap (rest : List Char) : List Char → Prop where
  | nil : IsGap rest []
  | blank {c : Char} {s : List Char} : Text.isGap c = true → IsGap rest s → IsGap rest (c :: s)
  | line {body s : List Char} : '\n' ∉ body → (∀ c ∈ (s ++ rest).head?, c = '\n') →
      IsGap rest s → IsGap rest ('/' :: '/' :: (body ++ s))
  | block {body s : List Char} : ¬ commentEnd <:+: body ++ ['*'] →
      IsGap rest s → IsGap rest ('/' :: '*' :: (body ++ commentEnd ++ s))

/-- A block comment that goes on to the end of the text. -/
def IsOpenComment (s : List Char) : Prop :=
  ∃ body, s = '/' :: '*' :: body ∧ ¬ commentEnd <:+: body

/-- A last gap that ends in a block comment which is never closed. -/
def EndsOpen (s : List Char) : Prop :=
  ∃ front comment, s = front ++ comment ∧ IsGap comment front ∧ IsOpenComment comment

namespace Scan

theorem commentEnd_infix_cons (c : Char) (s : List Char) :
    commentEnd <:+: c :: s ↔ (c = '*' ∧ s.head? = some '/') ∨ commentEnd <:+: s := by
  rw [List.infix_cons_iff]
  apply or_congr_left
  cases s with
  | nil => simp [commentEnd]
  | cons d s => simp [commentEnd, eq_comm]

theorem commentLength?_eq_none {s : List Char} :
    commentLength? s = none ↔ ¬ commentEnd <:+: s := by
  induction s with
  | nil => simp [commentLength?, commentEnd]
  | cons c s ih =>
    rw [commentLength?, commentEnd_infix_cons]
    by_cases h : c = '*' ∧ s.head? = some '/'
    · simp [h]
    · simp [h, ih]

/-- The end that is found is the first one. -/
theorem commentLength?_eq_some {s : List Char} {n : Nat} (h : commentLength? s = some n) :
    ∃ body rest, s = body ++ commentEnd ++ rest ∧ n = (body ++ commentEnd).length ∧
      ¬ commentEnd <:+: body ++ ['*'] := by
  induction s generalizing n with
  | nil => cases h
  | cons c s ih =>
    rw [commentLength?] at h
    by_cases hend : c = '*' ∧ s.head? = some '/'
    · obtain ⟨rfl, hhead⟩ := hend
      obtain ⟨rest, rfl⟩ := List.head?_eq_some_iff.mp hhead
      refine ⟨[], rest, rfl, ?_, by decide⟩
      simpa [commentEnd] using h.symm
    · rw [if_neg hend] at h
      obtain ⟨m, hm, rfl⟩ := Option.map_eq_some_iff.mp h
      obtain ⟨body, rest, rfl, rfl, hfirst⟩ := ih hm
      refine ⟨c :: body, rest, rfl, rfl, ?_⟩
      rw [List.cons_append, commentEnd_infix_cons]
      rintro (⟨rfl, hhead⟩ | hinfix)
      · apply hend
        refine ⟨rfl, ?_⟩
        cases body with
        | nil => cases hhead
        | cons d body => exact hhead
      · exact hfirst hinfix

theorem commentLength?_append {body : List Char} (h : ¬ commentEnd <:+: body ++ ['*'])
    (rest : List Char) :
    commentLength? (body ++ commentEnd ++ rest) = some (body ++ commentEnd).length := by
  induction body with
  | nil => rfl
  | cons c body ih =>
    rw [List.cons_append, commentEnd_infix_cons, not_or] at h
    have hend : ¬ (c = '*' ∧ (body ++ commentEnd ++ rest).head? = some '/') := by
      rintro ⟨rfl, hhead⟩
      apply h.1
      refine ⟨rfl, ?_⟩
      cases body with
      | nil => cases hhead
      | cons d body => exact hhead
    rw [List.cons_append, List.cons_append, commentLength?, if_neg hend, ih h.2]
    rfl

theorem exists_line (s : List Char) :
    ∃ body rest, s = body ++ rest ∧ lineLength s = body.length ∧ '\n' ∉ body ∧
      ∀ c ∈ rest.head?, c = '\n' := by
  refine ⟨s.takeWhile (· ≠ '\n'), s.dropWhile (· ≠ '\n'), ?_, rfl, ?_, ?_⟩
  · exact List.takeWhile_append_dropWhile.symm
  · intro hmem
    simpa using List.mem_takeWhile_imp hmem
  · intro c hc
    rw [← List.find?_not_eq_head?_dropWhile] at hc
    simpa using List.find?_some hc

theorem lineLength_append {body rest : List Char} (hbody : '\n' ∉ body)
    (hrest : ∀ c ∈ rest.head?, c = '\n') : lineLength (body ++ rest) = body.length := by
  have hall : ∀ c ∈ body, decide (c ≠ '\n') = true := by
    intro c hc
    rw [decide_eq_true_iff]
    rintro rfl
    exact hbody hc
  have hnone : rest.takeWhile (· ≠ '\n') = [] := by
    cases rest with
    | nil => rfl
    | cons c rest => simp [hrest c rfl]
  rw [lineLength, List.takeWhile_append_of_pos hall, hnone, List.append_nil]

/-- What is said of a gap that was found: it is closed and the text goes on behind it, or
its last comment is open and there is nothing more. -/
def Gap.Found (g : Gap) (s : List Char) : Prop :=
  match g.unclosed with
  | none => ∃ front rest, s = front ++ rest ∧ g.length = front.length ∧ IsGap rest front
  | some n => ∃ front comment, s = front ++ comment ∧ g.length = s.length ∧ n = front.length ∧
      IsGap comment front ∧ IsOpenComment comment

/-- One more piece in front of a gap. -/
theorem Gap.Found.behind {g : Gap} {s : List Char} (h : g.Found s) (piece : List Char)
    (hpiece : ∀ front rest, s = front ++ rest → IsGap rest front → IsGap rest (piece ++ front)) :
    (g.behind piece.length).Found (piece ++ s) := by
  obtain ⟨length, unclosed⟩ := g
  cases unclosed with
  | none =>
    obtain ⟨front, rest, rfl, hlength, hgap⟩ := h
    refine ⟨piece ++ front, rest, ?_, ?_, hpiece _ _ rfl hgap⟩
    · rw [List.append_assoc]
    · simp only [Gap.behind, List.length_append]
      exact congrArg _ hlength
  | some n =>
    obtain ⟨front, comment, rfl, hlength, rfl, hgap, hopen⟩ := h
    refine ⟨piece ++ front, comment, ?_, ?_, ?_, hpiece _ _ rfl hgap, hopen⟩
    · rw [List.append_assoc]
    · rw [List.length_append]
      exact congrArg _ hlength
    · rw [List.length_append]

theorem gap_found (s : List Char) : (gap s).Found s := by
  induction s using gap.induct with
  | case1 =>
    rw [gap]
    exact ⟨[], [], rfl, rfl, .nil⟩
  | case2 c rest hblank ih =>
    rw [gap, if_pos hblank]
    exact ih.behind [c] fun _ _ _ hgap => .blank hblank hgap
  | case3 c rest hblank hline ih =>
    rw [gap, if_neg hblank, if_pos hline]
    obtain ⟨rfl, hhead⟩ := hline
    obtain ⟨rest, rfl⟩ := List.head?_eq_some_iff.mp hhead
    obtain ⟨body, tail, rfl, hlength, hbody, htail⟩ := exists_line rest
    have hslash : lineLength ('/' :: (body ++ tail)) = body.length + 1 := by
      rw [← hlength]
      simp [lineLength]
    rw [hslash] at ih ⊢
    rw [List.drop_succ_cons, List.drop_left] at ih ⊢
    refine ih.behind ('/' :: '/' :: body) fun front rest hs hgap => ?_
    exact .line hbody (hs ▸ htail) hgap
  | case4 c rest hblank hline hblock n hn ih =>
    rw [gap, if_neg hblank, if_neg hline, if_pos hblock, hn]
    obtain ⟨rfl, hhead⟩ := hblock
    obtain ⟨rest, rfl⟩ := List.head?_eq_some_iff.mp hhead
    obtain ⟨body, tail, rfl, rfl, hfirst⟩ := commentLength?_eq_some hn
    rw [List.drop_succ_cons, List.drop_left] at ih
    dsimp only
    rw [List.drop_succ_cons, List.drop_left]
    refine ih.behind ('/' :: '*' :: (body ++ commentEnd)) fun front rest _ hgap => ?_
    exact .block hfirst hgap
  | case5 c rest hblank hline hblock hn =>
    rw [gap, if_neg hblank, if_neg hline, if_pos hblock, hn]
    obtain ⟨rfl, hhead⟩ := hblock
    obtain ⟨rest, rfl⟩ := List.head?_eq_some_iff.mp hhead
    exact ⟨[], _, rfl, rfl, rfl, .nil, rest, rfl, commentLength?_eq_none.mp hn⟩
  | case6 c rest hblank hline hblock =>
    rw [gap, if_neg hblank, if_neg hline, if_neg hblock]
    exact ⟨[], _, rfl, rfl, .nil⟩

theorem Gap.behind_behind (g : Gap) (m n : Nat) : (g.behind n).behind m = g.behind (m + n) := by
  simp only [Gap.behind, Gap.mk.injEq, Option.map_map]
  refine ⟨by omega, ?_⟩
  congr 1
  funext k
  simp only [Function.comp_apply]
  omega

/-- A gap in front of any text is found whole, and scanning goes on behind it. -/
theorem gap_append {front rest : List Char} (h : IsGap rest front) :
    gap (front ++ rest) = (gap rest).behind front.length := by
  induction h with
  | nil => simp [Gap.behind]
  | @blank c s hblank _ ih =>
    rw [List.cons_append, gap, if_pos hblank, ih, Gap.behind_behind, List.length_cons, Nat.add_comm]
  | @line body s hbody hhead _ ih =>
    have hlength : lineLength ('/' :: (body ++ s ++ rest)) = body.length + 1 := by
      rw [List.append_assoc, ← lineLength_append hbody hhead]
      simp [lineLength]
    have hdrop : ('/' :: (body ++ s ++ rest)).drop (body.length + 1) = s ++ rest := by
      rw [List.drop_succ_cons, List.append_assoc, List.drop_left]
    rw [List.cons_append, List.cons_append, gap, if_neg (by decide), if_pos ⟨rfl, rfl⟩, hlength,
      hdrop, ih, Gap.behind_behind]
    congr 1
    simp only [List.length_cons, List.length_append]
    omega
  | @block body s hfirst _ ih =>
    have hlength := commentLength?_append hfirst (s ++ rest)
    have hdrop : ('*' :: (body ++ commentEnd ++ (s ++ rest))).drop
        ((body ++ commentEnd).length + 1) = s ++ rest := by
      rw [List.drop_succ_cons, List.drop_left]
    rw [List.cons_append, List.cons_append, List.append_assoc, gap, if_neg (by decide),
      if_neg (by simp), if_pos ⟨rfl, rfl⟩, List.drop_succ_cons, List.drop_zero, hlength]
    dsimp only
    rw [hdrop, ih, Gap.behind_behind]
    congr 1
    simp only [List.length_cons, List.length_append]
    omega

/-- An open comment is found where it starts. -/
theorem gap_openComment {s : List Char} (h : IsOpenComment s) : gap s = ⟨s.length, some 0⟩ := by
  obtain ⟨body, rfl, hopen⟩ := h
  rw [gap, if_neg (by decide), if_neg (by simp), if_pos ⟨rfl, rfl⟩, List.drop_succ_cons,
    List.drop_zero, commentLength?_eq_none.mpr hopen]
  rfl

/-- A last gap ends in an open comment exactly when scanning finds one. -/
theorem endsOpen_iff {s : List Char} : EndsOpen s ↔ (gap s).unclosed ≠ none := by
  constructor
  · rintro ⟨front, comment, rfl, hgap, hopen⟩
    rw [gap_append hgap, gap_openComment hopen]
    exact Option.some_ne_none _
  · intro h
    have hfound := gap_found s
    rw [Gap.Found] at hfound
    cases hunclosed : (gap s).unclosed with
    | none => exact absurd hunclosed h
    | some n =>
      rw [hunclosed] at hfound
      obtain ⟨front, comment, hs, -, -, hgap, hopen⟩ := hfound
      exact ⟨front, comment, hs, hgap, hopen⟩

end Scan

end Scriptlet
