import Mathlib.Data.Nat.Digits.Defs
import Scriptlet.Proofs.Grammar.Exact
import Scriptlet.Proofs.Token.Numeral

/-!
# The range of integer literals

An integer literal is the number that its digits denote, if that is in range, and is reported
where it stands otherwise. The rule never computes a number of more than nineteen digits: what is
longer behind its leading zeros is refused unseen. `integerLiteral_of_digits` says that no literal
is told differently for that.
-/

namespace Scriptlet.Grammar

open Scriptlet.Parser
open Decimal (Digits natOfDigits)

/-- The digits of a literal as numbers, the last one first. -/
def digitValues (lexeme : String) : List Nat :=
  lexeme.toList.reverse.map fun c => c.toNat - '0'.toNat

/-- Reading the digits from left to right gives the number that they denote in base ten. -/
theorem natOfDigits_eq_ofDigits (lexeme : String) :
    natOfDigits lexeme.toList = Nat.ofDigits 10 (digitValues lexeme) := by
  rw [digitValues]
  induction lexeme.toList with
  | nil => rfl
  | cons d ds ih =>
    rw [Decimal.natOfDigits_cons, ih, List.reverse_cons, List.map_append, Nat.ofDigits_append,
      List.length_map, List.length_reverse, List.map_singleton, Nat.ofDigits_singleton]
    rw [Nat.mul_comm, Nat.add_comm]

variable {room : Nat} {s : State}

/-- A literal of digits is read if its number is in range. Otherwise it is reported once, where it
stands, and an error node takes its place. Either way it is consumed, which reports nothing. -/
theorem integer_literals_are_range_checked (hkind : s.current.kind = .integer)
    (hdigits : Digits s.current.lexeme.toList) :
    let t := s.current
    let number := Nat.ofDigits 10 (digitValues t.lexeme)
    let message := s!"integer literal {t.lexeme} is out of range"
    (number ≤ Value.greatestInteger →
        (parse (room + 1) .operand).Gives s (.make .integer t.position (.int number) [])
          s.advance) ∧
      (Value.greatestInteger < number →
        (parse (room + 1) .operand).Gives s (.ofError message t.position)
          (s.advance.record ⟨.parser, message, t.position⟩)) ∧
      s.advance.diagnostics = s.diagnostics := by
  intro t number message
  have hliteral := integerLiteral_of_digits hdigits
  rw [natOfDigits_eq_ofDigits] at hliteral
  refine ⟨?_, ?_, diagnostics_advance s⟩
  · intro hwithin
    rw [if_pos hwithin] at hliteral
    apply serves_parse
    exact .leaf (.integer hkind hliteral)
  · intro hbeyond
    rw [if_neg (Nat.not_le.mpr hbeyond)] at hliteral
    apply serves_parse
    exact .refused (.integer hkind hliteral)

/-- The least number that is out of range has as many digits as the greatest one in range; zeros in
front do not count. -/
theorem least_integer_out_of_range_is_refused :
    let t : Token := ⟨.integer, "0009223372036854775808", ⟨4, 1, 5⟩, 22⟩
    let message := "integer literal 0009223372036854775808 is out of range"
    let s := State.ofSupply (.tokens [t]) []
    s.current.kind = .integer ∧ Digits s.current.lexeme.toList ∧
      Value.greatestInteger + 1 = Nat.ofDigits 10 (digitValues s.current.lexeme) ∧
      (parse 1 .operand).Gives s (.ofError message t.position)
        (s.advance.record ⟨.parser, message, t.position⟩) := by
  intro t message s
  have hdigits : Digits s.current.lexeme.toList := by
    constructor
    · decide +kernel
    · exact List.all_eq_true.mp (by decide +kernel)
  have hnumber : Value.greatestInteger + 1 = Nat.ofDigits 10 (digitValues s.current.lexeme) := by
    decide +kernel
  refine ⟨rfl, hdigits, hnumber, (integer_literals_are_range_checked rfl hdigits).2.1 ?_⟩
  rw [← hnumber]
  exact Nat.lt_succ_self _

/-- Zeros alone are the number zero, however many there are. -/
example : integerLiteral (String.ofList (List.replicate 40 '0')) = .ok 0 := by decide +kernel

end Scriptlet.Grammar
