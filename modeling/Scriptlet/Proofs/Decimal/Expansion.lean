import Mathlib.Algebra.Field.Rat
import Mathlib.Tactic.FieldSimp
import Mathlib.Tactic.Ring
import Scriptlet.Proofs.Token.Respelled
import Scriptlet.Proofs.Tree.Printing

/-!
# Numerals without exponents

A float is reported as `[-]digits[.digits][e(+|-)digits]`. Programs have no exponents: the point
is moved instead, and zeros fill the places that it passes. What comes of that is a numeral of the
same form without an exponent, for the same rational number and with the same sign, and it is read
as the literal of a float, with a minus in front of it if there is one.
-/

namespace Scriptlet

open Decimal

namespace Decimal

theorem natOfDigits_concat (ds es : List Char) :
    natOfDigits (ds ++ es) = natOfDigits ds * 10 ^ es.length + natOfDigits es := by
  rw [natOfDigits, List.foldl_append, natOfDigits_behind]
  rfl

theorem natOfDigits_zeros (k : Nat) : natOfDigits (List.replicate k '0') = 0 := by
  induction k with
  | zero => rfl
  | succ k ih =>
    rw [List.replicate_succ, natOfDigits_cons, ih, Nat.sub_self, Nat.zero_mul]

theorem Digits.append {ds es : List Char} (h : Digits ds) (hes : ∀ c ∈ es, isDigit c = true) :
    Digits (ds ++ es) := by
  refine ⟨List.append_ne_nil_of_left_ne_nil h.1 es, fun c hc => ?_⟩
  rcases List.mem_append.mp hc with hc | hc
  · exact h.2 c hc
  · exact hes c hc

theorem Digits.behind {ds es : List Char} (h : Digits ds) (hes : ∀ c ∈ es, isDigit c = true) :
    Digits (es ++ ds) := by
  refine ⟨List.append_ne_nil_of_right_ne_nil es h.1, fun c hc => ?_⟩
  rcases List.mem_append.mp hc with hc | hc
  · exact hes c hc
  · exact h.2 c hc

/-- A place inside of the digits leaves digits on both sides. -/
theorem Digits.split {ds : List Char} {i : Nat} (h : Digits ds) (hpos : 0 < i)
    (hlt : i < ds.length) : Digits (ds.take i) ∧ Digits (ds.drop i) := by
  refine ⟨⟨?_, fun c hc => h.2 c (List.mem_of_mem_take hc)⟩,
    ⟨?_, fun c hc => h.2 c (List.mem_of_mem_drop hc)⟩⟩
  · intro hnil
    rcases List.take_eq_nil_iff.mp hnil with hzero | hempty
    · omega
    · exact h.1 hempty
  · intro hnil
    have hle := List.drop_eq_nil_iff.mp hnil
    omega

theorem isDigit_zeros {k : Nat} : ∀ c ∈ List.replicate k '0', isDigit c = true := by
  intro c hc
  rw [List.eq_of_mem_replicate hc]
  decide

theorem not_mem_of_digits {ds : List Char} {c : Char} (h : ∀ c ∈ ds, isDigit c = true)
    (hc : isDigit c = false) : c ∉ ds := fun hmem => by simp [h c hmem] at hc

theorem digits_zero : Digits ['0'] :=
  ⟨List.cons_ne_nil _ _, List.forall_mem_singleton.mpr (by decide)⟩

/-- A text of the form `[-]digits[.digits][e(+|-)digits]`, in its parts. An exponent is its sign,
which is true for a minus, and its digits. -/
structure Scientific where
  negative : Bool
  whole : List Char
  fraction : Option (List Char)
  exponent : Option (Bool × List Char)
  whole_digits : Digits whole
  fraction_digits : ∀ ds ∈ fraction, Digits ds
  exponent_digits : ∀ e ∈ exponent, Digits e.2

namespace Scientific

def sign (n : Scientific) : List Char := if n.negative then ['-'] else []

def fractionText (n : Scientific) : List Char := n.fraction.elim [] ('.' :: ·)

def exponentText (n : Scientific) : List Char :=
  n.exponent.elim [] fun e => 'e' :: (if e.1 then '-' else '+') :: e.2

/-- The text without its sign. -/
def body (n : Scientific) : List Char := n.whole ++ (n.fractionText ++ n.exponentText)

def text (n : Scientific) : List Char := n.sign ++ n.body

/-- The number that an exponent denotes. -/
def signed (e : Bool × List Char) : Int :=
  if e.1 then -(natOfDigits e.2 : Int) else natOfDigits e.2

/-- The power of ten that the exponent asks for. -/
def power (n : Scientific) : Int := (n.exponent.map signed).getD 0

/-- The digits behind the point. -/
def places (n : Scientific) : List Char := n.fraction.getD []

/-- The rational number that the text denotes. -/
def value (n : Scientific) : ℚ :=
  (if n.negative then -1 else 1) *
    (natOfDigits n.whole + natOfDigits n.places / 10 ^ n.places.length) * 10 ^ n.power

variable {n : Scientific}

theorem places_digits (n : Scientific) : ∀ c ∈ n.places, isDigit c = true := by
  intro c hc
  rw [places] at hc
  cases h : n.fraction with
  | none =>
    rw [h] at hc
    cases hc
  | some ds =>
    rw [h] at hc
    exact (n.fraction_digits ds h).2 c hc

/-- The point counts for as much as a power of ten. -/
theorem value_eq (n : Scientific) :
    n.value = (if n.negative then -1 else 1) *
      (natOfDigits (n.whole ++ n.places) * 10 ^ (n.power - n.places.length)) := by
  have hten : (10 : ℚ) ≠ 0 := by norm_num
  rw [value, natOfDigits_concat, zpow_sub₀ hten, zpow_natCast]
  push_cast
  field_simp

theorem body_head (n : Scientific) : ∃ d ds, n.body = d :: ds ∧ isDigit d = true := by
  obtain ⟨d, ds, hd⟩ := List.exists_cons_of_ne_nil n.whole_digits.1
  refine ⟨d, ds ++ (n.fractionText ++ n.exponentText), ?_, ?_⟩
  · rw [body, hd, List.cons_append]
  · exact n.whole_digits.2 d (hd ▸ List.mem_cons_self)

/-- No digit stands at the start of an exponent, nor of a fraction with its point. -/
theorem behind_digits (n : Scientific) :
    (∀ c, n.exponentText.head? = some c → isDigit c = false) ∧
      ∀ c, (n.fractionText ++ n.exponentText).head? = some c → isDigit c = false := by
  have hexponent : ∀ c, n.exponentText.head? = some c → isDigit c = false := by
    intro c hc
    rw [exponentText] at hc
    cases h : n.exponent with
    | none =>
      rw [h] at hc
      cases hc
    | some e =>
      rw [h] at hc
      obtain rfl := Option.some.inj hc
      decide
  refine ⟨hexponent, fun c hc => ?_⟩
  rw [fractionText] at hc
  cases h : n.fraction with
  | none =>
    rw [h] at hc
    exact hexponent c hc
  | some ds =>
    rw [h] at hc
    obtain rfl := Option.some.inj hc
    decide

theorem exponentOf?_signed {e : Bool × List Char} (h : Digits e.2) :
    exponentOf? ((if e.1 then '-' else '+') :: e.2) = some (signed e) := by
  obtain ⟨negative, ds⟩ := e
  obtain ⟨d, ds, rfl⟩ := List.exists_cons_of_ne_nil h.1
  have hall : (d :: ds).all isDigit = true := List.all_eq_true.mpr h.2
  cases negative with
  | true =>
    rw [if_pos rfl, exponentOf?, if_pos hall]
    rfl
  | false =>
    rw [if_neg Bool.false_ne_true, exponentOf?, if_pos hall]
    rfl

/-- The text is taken apart again. -/
theorem read?_text (n : Scientific) :
    Numeral.read? n.text = some ⟨n.negative, n.whole, n.places, n.exponent.map signed⟩ := by
  obtain ⟨hexponent, hbehind⟩ := n.behind_digits
  obtain ⟨htake, hdrop⟩ := takeWhile_run n.whole_digits.2 hbehind
  unfold Numeral.read?
  split
  next negative body heq =>
  have hbody : negative = n.negative ∧ body = n.body := by
    obtain ⟨d, ds, hd, hdigit⟩ := n.body_head
    rw [text, sign] at heq
    cases h : n.negative with
    | true =>
      rw [h] at heq
      cases heq
      exact ⟨rfl, rfl⟩
    | false =>
      rw [h, hd] at heq
      have hplain : isPlain d = true := by rw [isPlain, hdigit, Bool.true_or]
      obtain ⟨-, -, -, hminus, hplus⟩ := plain_facts hplain
      rw [hd]
      simp only [Bool.false_eq_true, if_false, List.nil_append] at heq
      split at heq
      · next h => exact absurd (List.cons.inj h).1 hminus
      · next h => exact absurd (List.cons.inj h).1 hplus
      · cases heq
        exact ⟨rfl, rfl⟩
  obtain ⟨rfl, rfl⟩ := hbody
  have hwhole : n.whole.isEmpty = false := List.isEmpty_eq_false_iff.mpr n.whole_digits.1
  rw [Scientific.body, htake, hdrop]
  cases hfraction : n.fraction with
  | none =>
    cases he : n.exponent with
    | none => simp [places, fractionText, exponentText, hfraction, he, hwhole]
    | some e =>
      have hsigned := exponentOf?_signed (n.exponent_digits e he)
      simp [places, fractionText, exponentText, hfraction, he, hwhole, hsigned]
  | some ds =>
    obtain ⟨hfront, hback⟩ := takeWhile_run (n.fraction_digits ds hfraction).2 hexponent
    cases he : n.exponent with
    | none =>
      simp only [exponentText, he, Option.elim_none, List.append_nil] at hfront hback
      simp [places, fractionText, exponentText, hfraction, he, hwhole, hfront, hback]
    | some e =>
      have hsigned := exponentOf?_signed (n.exponent_digits e he)
      simp only [exponentText, he, Option.elim_some] at hfront hback
      simp [places, fractionText, exponentText, hfraction, he, hwhole, hfront, hback, hsigned]

/-- Digits, a point and digits. -/
def plain (negative : Bool) (whole fraction : List Char) (hwhole : Digits whole)
    (hfraction : Digits fraction) : Scientific where
  negative := negative
  whole := whole
  fraction := some fraction
  exponent := none
  whole_digits := hwhole
  fraction_digits := by
    rintro ds ⟨⟩
    exact hfraction
  exponent_digits := nofun

section Plain

variable {whole fraction : List Char} {hwhole : Digits whole} {hfraction : Digits fraction}

theorem body_plain (negative : Bool) :
    (plain negative whole fraction hwhole hfraction).body = whole ++ '.' :: fraction := by
  change whole ++ ('.' :: fraction ++ []) = _
  rw [List.append_nil]

theorem text_plain (negative : Bool) : (plain negative whole fraction hwhole hfraction).text =
    (if negative then ['-'] else []) ++ (whole ++ '.' :: fraction) := by
  rw [text, body_plain]
  rfl

/-- The number stays the same if `k` zeros come to the digits and the point moves along. -/
theorem value_plain {k : Nat}
    (hdigits : natOfDigits (whole ++ fraction) = natOfDigits (n.whole ++ n.places) * 10 ^ k)
    (hpoint : (k : Int) - fraction.length = n.power - n.places.length) :
    (plain n.negative whole fraction hwhole hfraction).value = n.value := by
  have hten : (10 : ℚ) ≠ 0 := by norm_num
  have hplain : (plain n.negative whole fraction hwhole hfraction).value =
      (if n.negative then -1 else 1) *
        ((natOfDigits (whole ++ fraction) : ℚ) * 10 ^ (0 - (fraction.length : Int))) := value_eq _
  rw [hplain, value_eq, hdigits, ← hpoint, zero_sub, sub_eq_add_neg (k : Int), zpow_add₀ hten,
    zpow_natCast]
  push_cast
  ring

end Plain

/-- Only an exponent has an `e` in it. -/
theorem contains_text (n : Scientific) : n.text.contains 'e' = n.exponent.isSome := by
  have hwhole : 'e' ∉ n.whole := not_mem_of_digits n.whole_digits.2 (by decide)
  have hfraction : 'e' ∉ n.fractionText := by
    rw [fractionText]
    cases h : n.fraction with
    | none => exact List.not_mem_nil
    | some ds =>
      have hds : 'e' ∉ ds := not_mem_of_digits (n.fraction_digits ds h).2 (by decide)
      simpa using hds
  have hsign : 'e' ∉ n.sign := by
    rw [sign]
    split <;> decide
  rw [Bool.eq_iff_iff, List.contains_iff_mem, text, body, exponentText]
  cases h : n.exponent with
  | none => simp [hwhole, hfraction, hsign]
  | some e => simp

/-- A numeral is expanded if it has an exponent. -/
theorem expand_text (n : Scientific) :
    expand n.text =
      if n.exponent.isSome then
        Numeral.expanded ⟨n.negative, n.whole, n.places, n.exponent.map signed⟩
      else n.text := by
  rw [expand, contains_text, read?_text]

end Scientific

theorem literalText_of_mem {s : List Char} (h : '.' ∈ expand s) : literalText s = expand s :=
  if_pos (List.contains_iff_mem.mpr h)

theorem literalText_of_not_mem {s : List Char} (h : '.' ∉ expand s) :
    literalText s = expand s ++ ['.', '0'] :=
  if_neg fun hc => h (List.contains_iff_mem.mp hc)

namespace Scientific

/-- Is the literal of the numeral one of the same number, without an exponent? -/
def Expands (n : Scientific) (s : List Char) : Prop :=
  ∃ whole fraction, ∃ (hwhole : Digits whole) (hfraction : Digits fraction),
    literalText s = (plain n.negative whole fraction hwhole hfraction).text ∧
      (plain n.negative whole fraction hwhole hfraction).value = n.value

variable {n : Scientific}

theorem sign_append_digits {ds : List Char} (h : Digits ds) : '.' ∉ n.sign ++ ds := by
  have hds : '.' ∉ ds := not_mem_of_digits h.2 (by decide)
  rw [sign]
  split <;> simp [hds]

/-- A point and a zero are put behind digits alone. -/
theorem expands_of_digits {ds : List Char} {k : Nat} (hds : Digits ds)
    (hexpand : expand n.text = n.sign ++ ds)
    (hdigits : natOfDigits ds = natOfDigits (n.whole ++ n.places) * 10 ^ k)
    (hpoint : (k : Int) = n.power - n.places.length) : n.Expands n.text := by
  refine ⟨ds, ['0'], hds, digits_zero, ?_, value_plain (k := k + 1) ?_ ?_⟩
  · have hnone : '.' ∉ expand n.text := by
      rw [hexpand]
      exact sign_append_digits hds
    rw [literalText_of_not_mem hnone, hexpand, text_plain, List.append_assoc]
    rfl
  · rw [natOfDigits_concat, hdigits, Nat.pow_succ, Nat.mul_assoc]
    rfl
  · rw [List.length_singleton]
    omega

/-- What has a point already is left alone. -/
theorem expands_of_point {whole fraction : List Char} (hwhole : Digits whole)
    (hfraction : Digits fraction)
    (hexpand : expand n.text = n.sign ++ (whole ++ '.' :: fraction))
    (hdigits : natOfDigits (whole ++ fraction) = natOfDigits (n.whole ++ n.places))
    (hpoint : -(fraction.length : Int) = n.power - n.places.length) : n.Expands n.text := by
  refine ⟨whole, fraction, hwhole, hfraction, ?_, value_plain (k := 0) ?_ ?_⟩
  · have hsome : '.' ∈ expand n.text := by
      rw [hexpand]
      simp
    rw [literalText_of_mem hsome, hexpand, text_plain]
    rfl
  · rw [hdigits, Nat.pow_zero, Nat.mul_one]
  · omega

theorem expands_of_none (he : n.exponent = none) : n.Expands n.text := by
  have hpower : n.power = 0 := by
    rw [power, he]
    rfl
  have hexpand : expand n.text = n.sign ++ (n.whole ++ n.fractionText) := by
    rw [expand_text, he, text, body, exponentText, he]
    simp
  cases hf : n.fraction with
  | none =>
    have hplaces : n.places = [] := by
      rw [places, hf]
      rfl
    refine expands_of_digits (k := 0) n.whole_digits ?_ ?_ ?_
    · rw [hexpand, fractionText, hf, Option.elim_none, List.append_nil]
    · rw [hplaces, List.append_nil, Nat.pow_zero, Nat.mul_one]
    · rw [hplaces, hpower]
      rfl
  | some ds =>
    have hplaces : n.places = ds := by
      rw [places, hf]
      rfl
    refine expands_of_point n.whole_digits (n.fraction_digits ds hf) ?_ ?_ ?_
    · rw [hexpand, fractionText, hf, Option.elim_some]
    · rw [hplaces]
    · rw [hplaces, hpower, Int.zero_sub]

/-- The point comes to stand in front of all digits, behind all of them, or between them. -/
theorem expands_of_some {e : Bool × List Char} (he : n.exponent = some e) : n.Expands n.text := by
  have hexpand : expand n.text =
      Numeral.expanded ⟨n.negative, n.whole, n.places, n.exponent.map signed⟩ := by
    rw [expand_text, he]
    rfl
  have hdigits : Digits (n.whole ++ n.places) := n.whole_digits.append n.places_digits
  have hlength : (n.whole ++ n.places).length = n.whole.length + n.places.length :=
    List.length_append
  have hpower : (n.exponent.map signed).getD 0 = n.power := rfl
  rw [Numeral.expanded] at hexpand
  dsimp only at hexpand
  rw [hpower] at hexpand
  generalize hpoint : (n.whole.length : Int) + n.power = point at hexpand
  by_cases hfront : point ≤ 0
  · rw [if_pos hfront] at hexpand
    have hfilled : Digits (List.replicate (-point).toNat '0' ++ (n.whole ++ n.places)) :=
      hdigits.behind isDigit_zeros
    refine expands_of_point digits_zero hfilled ?_ ?_ ?_
    · rw [hexpand, List.append_assoc]
      rfl
    · have hzero : natOfDigits ['0'] = 0 := rfl
      rw [natOfDigits_concat, natOfDigits_concat (List.replicate _ _), natOfDigits_zeros, hzero,
        Nat.zero_mul, Nat.zero_mul, Nat.zero_add, Nat.zero_add]
    · rw [List.length_append, List.length_replicate]
      omega
  · rw [if_neg hfront] at hexpand
    by_cases hback : ((n.whole ++ n.places).length : Int) ≤ point
    · rw [if_pos hback] at hexpand
      have hfilled : Digits (n.whole ++ n.places ++
          List.replicate (point - (n.whole ++ n.places).length).toNat '0') :=
        hdigits.append isDigit_zeros
      refine expands_of_digits hfilled.stripZeros hexpand ?_ ?_
        (k := (point - (n.whole ++ n.places).length).toNat)
      · rw [natOfDigits_stripZeros, natOfDigits_concat, natOfDigits_zeros, List.length_replicate,
          Nat.add_zero]
      · omega
    · rw [if_neg hback] at hexpand
      obtain ⟨htaken, hdropped⟩ := hdigits.split (i := point.toNat) (by omega) (by omega)
      refine expands_of_point htaken.stripZeros hdropped ?_ ?_ ?_
      · rw [hexpand, List.append_assoc]
        rfl
      · rw [natOfDigits_concat, natOfDigits_stripZeros, ← natOfDigits_concat,
          List.take_append_drop]
      · rw [List.length_drop]
        omega

theorem expands (n : Scientific) : n.Expands n.text := by
  cases he : n.exponent with
  | none => exact expands_of_none he
  | some e => exact expands_of_some he

end Scientific

namespace Scientific

variable {n : Scientific}

/-- Every layout of a report is of the form. -/
theorem exists_layOut (f : FloatStyle) (d : Scaled) (negative : Bool) :
    ∃ n : Scientific, n.negative = negative ∧ n.body = f.layOut d := by
  unfold FloatStyle.layOut
  extract_lets digits lead
  have hdigits : Digits digits := digits_toDigits d.digits
  have hlead : lead = d.exponent + digits.length - 1 := rfl
  clear_value lead digits
  have hpos : 0 < digits.length := List.length_pos_iff.mpr hdigits.1
  by_cases hpositional : f.leastPositional ≤ lead ∧ lead ≤ f.mostPositional
  · rw [if_pos hpositional]
    by_cases hwhole : 0 ≤ d.exponent
    · rw [if_pos hwhole]
      exact ⟨plain negative _ _ (hdigits.append isDigit_zeros) digits_zero, rfl, rfl⟩
    · rw [if_neg hwhole]
      by_cases hinside : 0 ≤ lead
      · rw [if_pos hinside]
        obtain ⟨htaken, hdropped⟩ := hdigits.split (i := lead.toNat + 1) (by omega) (by omega)
        exact ⟨plain negative _ _ htaken hdropped, rfl, body_plain negative⟩
      · rw [if_neg hinside]
        exact ⟨plain negative _ _ digits_zero (hdigits.behind isDigit_zeros), rfl,
          body_plain negative⟩
  · rw [if_neg hpositional]
    have hexponent : ∃ e : Bool × List Char, Digits e.2 ∧
        f.exponentText lead = 'e' :: (if e.1 then '-' else '+') :: e.2 := by
      have hfilled : Digits (List.replicate (f.exponentWidth -
          (Nat.toDigits 10 lead.natAbs).length) '0' ++ Nat.toDigits 10 lead.natAbs) :=
        (digits_toDigits lead.natAbs).behind isDigit_zeros
      refine ⟨(decide (lead < 0), _), hfilled, ?_⟩
      simp only [FloatStyle.exponentText, decide_eq_true_eq]
    obtain ⟨e, he, htext⟩ := hexponent
    have hdigits' : ∀ e' ∈ some e, Digits e'.2 := by
      rintro e' ⟨⟩
      exact he
    rw [htext]
    by_cases hone : digits.length = 1
    · refine ⟨⟨negative, digits, none, some e, hdigits, nofun, hdigits'⟩, rfl, ?_⟩
      rw [if_pos hone, List.take_of_length_le (by omega), List.append_nil]
      rfl
    · rw [if_neg hone]
      obtain ⟨htaken, hdropped⟩ := hdigits.split (i := 1) (by omega) (by omega)
      refine ⟨⟨negative, digits.take 1, some (digits.drop 1), some e, htaken, ?_, hdigits'⟩, rfl,
        ?_⟩
      · rintro ds ⟨⟩
        exact hdropped
      · rw [List.append_assoc]
        rfl

/-- A finite float is reported in the form. -/
theorem exists_reportText {x : Float} {m : Nat} {q : Int} (h : magnitude? x = some (m, q)) :
    ∃ n : Scientific, n.negative = isNegative x ∧ n.text = reportText x := by
  obtain ⟨n, hsign, hbody⟩ := exists_layOut reportStyle (shortest m q) (isNegative x)
  refine ⟨n, hsign, ?_⟩
  rw [text, sign, hsign, hbody, reportText, h]

/-- Digits with a point are one word, and a sign in front of them is another. -/
theorem lex_plain {whole fraction : List Char} (negative : Bool) (hwhole : Digits whole)
    (hfraction : Digits fraction) :
    (lex (plain negative whole fraction hwhole hfraction).text).1.map Token.word =
        (if negative then [Word.fixed .minus] else []) ++ [⟨.float, whole ++ '.' :: fraction⟩] ∧
      (lex (plain negative whole fraction hwhole hfraction).text).2.diagnostics = [] := by
  refine lex_spelled ?_
  have hend : ∀ c ∈ ([] : List Char).head?, isDigit c = false ∧ c ≠ '.' := nofun
  have hfloat : Word.Spelled (whole ++ '.' :: fraction) [⟨.float, whole ++ '.' :: fraction⟩] := by
    have hword := Word.Spelled.word .nil (Scan.stands_float hwhole hfraction.2 hend) (.nil .nil)
    rwa [List.append_nil] at hword
  rw [text_plain]
  cases negative with
  | false => exact hfloat
  | true =>
    have hminus : (Word.fixed .minus).Stands (whole ++ '.' :: fraction) := Word.stands_minus hwhole
    exact .word .nil hminus hfloat

end Scientific

/-- The literal that is made from a numeral has no exponent, denotes the same number with the same
sign, and is read as one float, with a minus in front of it if that is the sign. Finite floats are
reported in numerals, so that all of this holds of their literals. -/
theorem numerals_are_expanded_exactly :
    (∀ n : Scientific, ∃ m : Scientific, literalText n.text = m.text ∧ m.exponent = none ∧
        'e' ∉ literalText n.text ∧ m.value = n.value ∧ m.sign = n.sign ∧
        (lex (literalText n.text)).1.map Token.word =
          (if n.negative then [Word.fixed .minus] else []) ++ [⟨.float, m.body⟩] ∧
        (lex (literalText n.text)).2.diagnostics = []) ∧
      ∀ x, magnitude? x = none ∨ ∃ n : Scientific, n.negative = isNegative x ∧
        n.text = reportText x ∧ floatLiteral x = literalText n.text := by
  constructor
  · intro n
    obtain ⟨whole, fraction, hwhole, hfraction, htext, hvalue⟩ := n.expands
    obtain ⟨hwords, hdiagnostics⟩ := Scientific.lex_plain n.negative hwhole hfraction
    refine ⟨.plain n.negative whole fraction hwhole hfraction, htext, rfl, ?_, hvalue, rfl, ?_, ?_⟩
    · have hcontains := (Scientific.plain n.negative whole fraction hwhole hfraction).contains_text
      rw [htext]
      exact fun hmem => Bool.false_ne_true (hcontains.symm.trans (List.contains_iff_mem.mpr hmem))
    · rw [htext, hwords, Scientific.body_plain]
    · rw [htext, hdiagnostics]
  · intro x
    rcases h : magnitude? x with - | ⟨m, q⟩
    · exact .inl rfl
    · obtain ⟨n, hsign, htext⟩ := Scientific.exists_reportText h
      refine .inr ⟨n, hsign, htext, ?_⟩
      rw [floatLiteral, htext]

/-- The point passes all digits to the left, and zeros fill the gap. -/
example : literalText "-1.25e-07".toList = "-0.000000125".toList := by decide

end Decimal

end Scriptlet
