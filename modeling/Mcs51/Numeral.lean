/-
  Mcs51.Numeral — numbers as they are written in a program.

  A number is written in base 16 with a final letter, or in base 10 without one.  It is kept as it
  is written until its value is needed, because asking for the value can fail: very long decimal
  numbers are not converted.

  Main definitions:
    * `Numeral`, `Numeral.value` : a written number and its value;
    * `registerNumber` : the number of a register, from its optional digit.
-/
import Mcs51.Digits
import Mcs51.Fault
import Mcs51.Text.DecimalDigit

namespace Mcs51

/-- A number as written, without its marks. -/
inductive Numeral where
  /-- Digits of base 16. -/
  | hex (digits : List Char)
  /-- Digits of base 10. -/
  | dec (digits : List Char)
  deriving Repr, DecidableEq

/-- The value of a number.  Base 16 has no limit; base 10 has one, and leading zeros count. -/
def Numeral.value : Numeral → Except Crash Nat
  | .hex digits => .ok (Digits.value 16 digits)
  | .dec digits =>
    if digits.length ≤ maxDecimalDigits then .ok (Digits.value 10 digits)
    else .error (.tooManyDigits digits.length)

/-- The number of a register.  The digit may be of any script; without one there is no number. -/
def registerNumber (digit : List Char) : Except Crash Nat :=
  match digit.head?.bind Text.decimalValue? with
  | some n => .ok n
  | none => .error (.badDigits 10 "")

end Mcs51
