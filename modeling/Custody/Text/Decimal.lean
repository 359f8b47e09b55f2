/-!
# Decimal numerals

Natural numbers of any size as ASCII digits.  Writing uses no leading zero; reading allows them
and allows nothing else.
-/

namespace Custody.Decimal

/-- The digits of a number, without leading zeros. -/
def write (n : Nat) : List Char := Nat.toDigits 10 n

/-- The number that one or more ASCII digits denote. -/
def read? (cs : List Char) : Option Nat :=
  if !cs.isEmpty && cs.all Char.isDigit then some (Nat.ofDigitChars 10 cs 0) else none

theorem read?_write (n : Nat) : read? (write n) = some n := by
  have hne : (write n).isEmpty = false := by
    rw [List.isEmpty_eq_false_iff]; exact Nat.toDigits_ne_nil
  have hd : (write n).all Char.isDigit = true := by
    rw [List.all_eq_true]
    exact fun c hc => Nat.isDigit_of_mem_toDigits (by decide) (by decide) hc
  simp only [read?, hne, hd]
  exact congrArg some Nat.ofDigitChars_ten_toDigits

example : read? ['0', '0', '7'] = some 7 := by decide

example : read? ['+', '7'] = none := by decide

end Custody.Decimal
