import Scriptlet.Proofs.Decimal.Bound
import Scriptlet.Proofs.Token.Diagnosis

/-!
# The numbers of a text

A number token of a text is a run of digits, or such a run with one point behind it and
further digits behind the point. Its literal is the number that the digits denote.
-/

namespace Scriptlet

namespace Decimal

/-- One digit at least. -/
def Digits (cs : List Char) : Prop := cs ≠ [] ∧ ∀ c ∈ cs, isDigit c = true

/-- The characters of numerals in their plain form. -/
def isPlain (c : Char) : Bool := isDigit c || c = '.'

theorem toNat_le_of_isPlain {c : Char} (h : isPlain c = true) : c.toNat < 58 := by
  rcases Bool.or_eq_true_iff.mp h with hdigit | hpoint
  · simp only [isDigit, Bool.and_eq_true, decide_eq_true_eq] at hdigit
    have hle : c.toNat ≤ '9'.toNat := hdigit.2
    have hnine : '9'.toNat = 57 := rfl
    omega
  · rw [of_decide_eq_true hpoint]
    decide

/-- They stand for themselves. -/
theorem plain_facts {c : Char} (h : isPlain c = true) :
    isMargin c = false ∧ plainDigit c = c ∧ c ≠ '_' ∧ c ≠ '-' ∧ c ≠ '+' := by
  have hall : ∀ n < 58, isPlain (Char.ofNat n) = true →
      isMargin (Char.ofNat n) = false ∧ plainDigit (Char.ofNat n) = Char.ofNat n ∧
        Char.ofNat n ≠ '_' ∧ Char.ofNat n ≠ '-' ∧ Char.ofNat n ≠ '+' := by
    decide
  have hc := hall c.toNat (toNat_le_of_isPlain h)
  rw [Char.ofNat_toNat] at hc
  exact hc h

section Plain

variable {s : List Char}

theorem joined?_plain (h : ∀ c ∈ s, isPlain c = true) (behindDigit : Bool) :
    joined? behindDigit s = some s := by
  induction s generalizing behindDigit with
  | nil => rfl
  | cons c rest ih =>
    obtain ⟨-, -, hunderscore, -, -⟩ := plain_facts (h c List.mem_cons_self)
    have hrest := ih (fun d hd => h d (List.mem_cons_of_mem _ hd)) (isDigit c)
    rw [joined?, if_neg hunderscore, hrest]
    · rfl
    · intro d rest' heq
      exact absurd heq hunderscore

theorem dropMargin_plain (h : ∀ c ∈ s, isPlain c = true) : s.dropWhile isMargin = s := by
  cases s with
  | nil => rfl
  | cons c rest =>
    rw [List.dropWhile_cons_of_neg]
    simp [(plain_facts (h c List.mem_cons_self)).1]

theorem plainDigits_plain (h : ∀ c ∈ s, isPlain c = true) : s.map plainDigit = s := by
  rw [List.map_congr_left fun c hc => (plain_facts (h c hc)).2.1, List.map_id']

theorem bare?_plain (h : ∀ c ∈ s, isPlain c = true) : bare? s = some s := by
  have hreverse : ∀ c ∈ s.reverse, isPlain c = true := fun c hc => h c (List.mem_reverse.mp hc)
  rw [bare?, dropMargin_plain h, dropMargin_plain hreverse, List.reverse_reverse,
    plainDigits_plain h, joined?_plain h]

end Plain

theorem Digits.plain {ds : List Char} (h : Digits ds) : ∀ c ∈ ds, isPlain c = true := by
  intro c hc
  rw [isPlain, h.2 c hc, Bool.true_or]

theorem frontDigits_le {s : List Char} (h : ∀ c ∈ s, isPlain c = true) :
    frontDigits s ≤ s.length := by
  have hfront (run : List Char) (hrun : ∀ c ∈ run, isPlain c = true) :
      ((joined? false (run.takeWhile fun c => isDigit c || c = '_')).getD []).length ≤
        run.length := by
    have hrunFront := List.takeWhile_prefix (l := run) fun c => isDigit c || c = '_'
    rw [joined?_plain fun c hc => hrun c (hrunFront.subset hc)]
    exact hrunFront.length_le
  unfold frontDigits
  rw [dropMargin_plain h, plainDigits_plain h]
  split
  · next rest => exact absurd rfl (plain_facts (h '-' List.mem_cons_self)).2.2.2.1
  · next rest => exact absurd rfl (plain_facts (h '+' List.mem_cons_self)).2.2.2.2
  · exact hfront s h

theorem natOfDigits_dropZeros (ds : List Char) :
    natOfDigits (ds.dropWhile (· = '0')) = natOfDigits ds := by
  induction ds with
  | nil => rfl
  | cons d ds ih =>
    by_cases hd : d = '0'
    · subst hd
      rw [List.dropWhile_cons_of_pos (by simp), ih]
      rfl
    · rw [List.dropWhile_cons_of_neg (by simpa using hd)]

theorem natOfDigits_stripZeros (ds : List Char) : natOfDigits (stripZeros ds) = natOfDigits ds := by
  rw [← natOfDigits_dropZeros ds, stripZeros]
  split
  · next hnil =>
    rw [hnil]
    rfl
  · rfl

theorem Digits.stripZeros {ds : List Char} (h : Digits ds) : Digits (stripZeros ds) := by
  rw [Decimal.stripZeros]
  split
  · exact ⟨List.cons_ne_nil _ _, fun c hc => List.mem_singleton.mp hc ▸ rfl⟩
  · next hne => exact ⟨hne, fun c hc => h.2 c ((List.dropWhile_suffix _).subset hc)⟩

theorem integerOf?_digits {ds : List Char} (h : Digits ds) (hlength : ds.length ≤ mostDigits) :
    integerOf? ds = some (natOfDigits ds : Int) := by
  have hnat : natOf? ds = some (natOfDigits ds) := by
    rw [natOf?, if_pos]
    rw [Bool.and_eq_true, List.all_eq_true, Bool.not_eq_true', List.isEmpty_eq_false_iff]
    exact ⟨h.2, h.1⟩
  rw [integerOf?, if_pos (Nat.le_trans (frontDigits_le h.plain) hlength), bare?_plain h.plain]
  split
  · next heq => cases heq
  · next heq =>
    cases heq
    exact absurd rfl (plain_facts (h.plain '-' List.mem_cons_self)).2.2.2.1
  · next heq =>
    cases heq
    exact absurd rfl (plain_facts (h.plain '+' List.mem_cons_self)).2.2.2.2
  · next heq =>
    cases heq
    rw [hnat]
    rfl

/-- Further digits behind a number. -/
theorem natOfDigits_behind (n : Nat) (ds : List Char) :
    ds.foldl (fun n d => 10 * n + (d.toNat - '0'.toNat)) n =
      n * 10 ^ ds.length + natOfDigits ds := by
  induction ds generalizing n with
  | nil => simp [natOfDigits]
  | cons d ds ih =>
    rw [natOfDigits, List.foldl_cons, List.foldl_cons, ih, ih, List.length_cons, Nat.pow_succ,
      Nat.mul_zero, Nat.zero_add, Nat.add_mul, Nat.mul_comm 10 n, Nat.mul_assoc,
      Nat.mul_comm 10, Nat.add_assoc]

theorem natOfDigits_cons (d : Char) (ds : List Char) :
    natOfDigits (d :: ds) = (d.toNat - '0'.toNat) * 10 ^ ds.length + natOfDigits ds := by
  rw [natOfDigits, List.foldl_cons, natOfDigits_behind, Nat.mul_zero, Nat.zero_add]

/-- A number without zeros in front is as large as its length says. -/
theorem natOfDigits_ge {d : Char} {ds : List Char} (hdigit : isDigit d = true) (hd : d ≠ '0') :
    10 ^ ds.length ≤ natOfDigits (d :: ds) := by
  have hpos : 1 ≤ d.toNat - '0'.toNat := by
    simp only [isDigit, Bool.and_eq_true, decide_eq_true_eq] at hdigit
    have hge : '0'.toNat ≤ d.toNat := hdigit.1
    have hne : d.toNat ≠ '0'.toNat := fun heq => hd (Char.toNat_inj.mp heq)
    omega
  rw [natOfDigits_cons]
  exact Nat.le_add_right_of_le (Nat.le_mul_of_pos_left _ hpos)

theorem length_stripZeros_le {n : Nat} {ds : List Char} (h : Digits ds)
    (hn : natOfDigits ds < 10 ^ n) (hpos : 0 < n) : (stripZeros ds).length ≤ n := by
  have hdigits := h.stripZeros.2
  rw [← natOfDigits_stripZeros] at hn
  rw [stripZeros] at hn hdigits ⊢
  split at hn
  · exact hpos
  · next hne =>
    cases hdrop : ds.dropWhile (· = '0') with
    | nil => exact absurd hdrop hne
    | cons d rest =>
      have hd : d ≠ '0' := by
        have hhead := List.head?_dropWhile_not (· = '0') ds
        simpa [hdrop] using hhead
      rw [hdrop] at hn hdigits
      have hge : 10 ^ rest.length ≤ natOfDigits (d :: rest) :=
        natOfDigits_ge (hdigits d List.mem_cons_self) hd
      have hlt := (Nat.pow_lt_pow_iff_right (by decide)).mp (Nat.lt_of_le_of_lt hge hn)
      rw [Nat.lt_iff_add_one_le] at hlt
      exact hlt

theorem takeWhile_run {p : Char → Bool} {front rest : List Char} (h : ∀ c ∈ front, p c = true)
    (hrest : ∀ c, rest.head? = some c → p c = false) :
    (front ++ rest).takeWhile p = front ∧ (front ++ rest).dropWhile p = rest := by
  rw [List.takeWhile_append_of_pos h, List.dropWhile_append_of_pos h]
  cases rest with
  | nil => simp
  | cons c rest =>
    have hc := hrest c rfl
    rw [List.takeWhile_cons_of_neg (by simp [hc]), List.dropWhile_cons_of_neg (by simp [hc])]
    exact ⟨List.append_nil _, rfl⟩

theorem read?_point {whole fraction : List Char} (hwhole : Digits whole)
    (hfraction : ∀ c ∈ fraction, isDigit c = true) :
    Numeral.read? (whole ++ '.' :: fraction) = some ⟨false, whole, fraction, none⟩ := by
  obtain ⟨c, cs, rfl⟩ := List.exists_cons_of_ne_nil hwhole.1
  obtain ⟨-, -, -, hminus, hplus⟩ := plain_facts (hwhole.plain c List.mem_cons_self)
  have hpoint : ∀ d, ('.' :: fraction).head? = some d → isDigit d = false := by
    intro d hd
    cases hd
    decide
  have hend : ∀ d, ([] : List Char).head? = some d → isDigit d = false := by simp
  obtain ⟨htake, hdrop⟩ := takeWhile_run hwhole.2 hpoint
  obtain ⟨htake', hdrop'⟩ := takeWhile_run hfraction hend
  rw [List.append_nil] at htake' hdrop'
  unfold Numeral.read?
  split
  next negative body heq =>
  have hbody : negative = false ∧ body = c :: cs ++ '.' :: fraction := by
    rw [List.cons_append] at heq
    split at heq
    · next h => exact absurd (List.cons.inj h).1 hminus
    · next h => exact absurd (List.cons.inj h).1 hplus
    · cases heq
      exact ⟨rfl, rfl⟩
  obtain ⟨rfl, rfl⟩ := hbody
  rw [htake, hdrop]
  simp [htake', hdrop']

theorem plain_point {whole fraction : List Char} (hwhole : Digits whole)
    (hfraction : ∀ c ∈ fraction, isDigit c = true) :
    ∀ c ∈ whole ++ '.' :: fraction, isPlain c = true := by
  intro c hc
  rcases List.mem_append.mp hc with hc | hc
  · exact hwhole.plain c hc
  · rcases List.mem_cons.mp hc with rfl | hc
    · rfl
    · rw [isPlain, hfraction c hc, Bool.true_or]

end Decimal

open Decimal

/-- The literal of digits with a point is the float nearest to the number, if that is finite. -/
theorem Grammar.floatLiteral_iff {lexeme : String} {whole fraction : List Char} {x : Float}
    (hlexeme : lexeme.toList = whole ++ '.' :: fraction) (hwhole : Digits whole)
    (hfraction : ∀ c ∈ fraction, isDigit c = true) :
    floatLiteral lexeme = .ok x ↔
      x = (Numeral.mk false whole fraction none).toFloat ∧
        (Numeral.mk false whole fraction none).toFloat.isInf = false := by
  rw [floatLiteral, floatOf?, hlexeme, bare?_plain (plain_point hwhole hfraction)]
  dsimp only
  rw [read?_point hwhole hfraction]
  dsimp only
  split
  · next hinf => exact iff_of_false (by simp) fun hx => by simp [hx.2] at hinf
  · next hfinite =>
    rw [Except.ok.injEq, eq_comm]
    exact (and_iff_left (eq_false_of_ne_true hfinite)).symm

/-- The literal of a run of digits is its number, if that is in range, and nothing else is wrong
with it otherwise: where digits are refused by their count alone, the number is out of range. -/
theorem Grammar.integerLiteral_of_digits {lexeme : String} (h : Digits lexeme.toList) :
    integerLiteral lexeme =
      if natOfDigits lexeme.toList ≤ Value.greatestInteger then
        .ok (natOfDigits lexeme.toList : Int)
      else .error (.integerOutOfRange lexeme) := by
  have hgreatest : Value.greatestInteger = 9223372036854775807 := rfl
  unfold integerLiteral
  dsimp only
  split
  · next hlength =>
    rw [if_neg]
    intro hle
    have hfew := length_stripZeros_le (n := 19) h (by omega) (by decide)
    omega
  · next hlength =>
    have hmost : (stripZeros lexeme.toList).length ≤ mostDigits := by
      have hdef : mostDigits = 4300 := rfl
      omega
    rw [integerOf?_digits h.stripZeros hmost, natOfDigits_stripZeros]
    dsimp only
    split
    · next hbeyond =>
      rw [if_neg]
      omega
    · next hwithin =>
      rw [if_pos]
      omega

theorem Grammar.integerLiteral_iff {lexeme : String} {n : Int} (h : Digits lexeme.toList) :
    integerLiteral lexeme = .ok n ↔
      n = natOfDigits lexeme.toList ∧ (natOfDigits lexeme.toList : Int) ≤ Value.greatestInteger := by
  rw [integerLiteral_of_digits h]
  split
  · next hle =>
    rw [Except.ok.injEq, eq_comm]
    exact (and_iff_left (Int.ofNat_le.mpr hle)).symm
  · next hbeyond => exact iff_of_false nofun fun hn => hbeyond (Int.ofNat_le.mp hn.2)

/-- Does a token of the kind look like a number of that kind? -/
def Numeric (kind : Token.Kind) (lexeme : List Char) : Prop :=
  (kind = .integer → Digits lexeme) ∧
    (kind = .float → ∃ whole fraction, lexeme = whole ++ '.' :: fraction ∧ Digits whole ∧
      ∀ c ∈ fraction, isDigit c = true)

theorem numeric_of_ne {kind : Token.Kind} {lexeme : List Char}
    (h : kind ∉ [.integer, .float]) : Numeric kind lexeme := by
  simp only [List.mem_cons, List.not_mem_nil, or_false, not_or] at h
  exact ⟨fun hk => absurd hk h.1, fun hk => absurd hk h.2⟩

namespace Scan

theorem wordKind_not_number (w : String) : Token.wordKind w ∉ [.integer, .float] := by
  rw [Token.wordKind]
  cases h : Token.keywords.lookup w with
  | none => decide
  | some k =>
    have hall : ∀ e ∈ Token.keywords, e.2 ∉ [.integer, .float] := by decide
    exact hall _ (mem_of_lookup h)

theorem operator_not_number {s : List Char} {p : Piece} (h : operator? s = some p) :
    p.kind ∉ [.integer, .float] := by
  have hall : ∀ e ∈ Token.operators, e.2 ∉ [.integer, .float] := by decide
  rw [operator?] at h
  split at h
  · next k hk =>
    cases h
    exact hall _ (mem_of_lookup hk)
  · obtain ⟨k, hk, rfl⟩ := Option.map_eq_some_iff.mp h
    exact hall _ (mem_of_lookup hk)

theorem number_numeric {c : Char} {s : List Char} (hc : isDigit c = true) :
    Numeric (number (c :: s)).kind ((c :: s).take (number (c :: s)).length) := by
  have hfront (t : List Char) : t.take (t.takeWhile isDigit).length = t.takeWhile isDigit :=
    (List.prefix_iff_eq_take.mp (List.takeWhile_prefix _)).symm
  have hdigits (t : List Char) : ∀ c ∈ t.takeWhile isDigit, isDigit c = true :=
    List.all_eq_true.mp List.all_takeWhile
  have hwhole : Digits ((c :: s).takeWhile isDigit) := by
    refine ⟨?_, hdigits _⟩
    rw [List.takeWhile_cons_of_pos hc]
    exact List.cons_ne_nil _ _
  generalize c :: s = t at *
  unfold number
  dsimp only
  split
  · next rest hrest =>
    split
    · exact numeric_of_ne (by simp)
    · refine ⟨nofun, fun _ => ⟨t.takeWhile isDigit, rest.takeWhile isDigit, ?_, hwhole, hdigits _⟩⟩
      rw [Nat.add_assoc, List.take_add, hfront, hrest, List.take_succ_cons, hfront]
  · refine ⟨fun _ => ?_, nofun⟩
    rw [hfront]
    exact hwhole

theorem token_numeric (c : Char) (s : List Char) :
    Numeric (token c (c :: s)).kind ((c :: s).take (token c (c :: s)).length) := by
  rw [token]
  split
  · exact numeric_of_ne (wordKind_not_number _)
  split
  · next hc => exact number_numeric hc
  split
  · rw [string]
    split <;> exact numeric_of_ne (by simp)
  · cases h : operator? (c :: s) with
    | none => exact numeric_of_ne (by simp)
    | some p => exact numeric_of_ne (operator_not_number h)

end Scan

namespace Lexer

theorem takeToken_numeric (lx : Lexer) :
    Numeric lx.takeToken.1.kind lx.takeToken.1.lexeme.toList := by
  rw [takeToken]
  split
  · exact numeric_of_ne (by simp [Token.endAt])
  · next c rest hrest =>
    rw [take_kind, take_lexeme, String.toList_ofList, hrest]
    exact Scan.token_numeric c rest

theorem tokens_numeric (lx : Lexer) : ∀ t ∈ lx.tokens.1, Numeric t.kind t.lexeme.toList := by
  induction lx using tokens.induct with
  | case1 lx step h => simp [tokens_of_eof h]
  | case2 lx step h ih =>
    rw [tokens_of_ne_eof h]
    exact List.forall_mem_cons.mpr ⟨takeToken_numeric _, ih⟩

end Lexer

end Scriptlet
