/-
  Mcs51.Digits — numbers as lists of digits.

  Reading is a left fold over the digits.  Writing gives at least a certain width, filled up with
  zeros after the sign; a longer number is written in full.

  Main definitions:
    * `Digits.value`, `Digits.signedValue` : reading;
    * `Digits.padded` : writing;
    * `Digits.isSignedHex` : does a text consist of an optional sign and at least one digit.
-/
namespace Mcs51.Digits

/-! ## §1. Reading. -/

/-- Is the character a digit of base 10? -/
def isDecimal (c : Char) : Bool :=
  '0' ≤ c && c ≤ '9'

/-- Is the character a digit of base 16, in capitals? -/
def isHexCapital (c : Char) : Bool :=
  isDecimal c || ('A' ≤ c && c ≤ 'F')

/-- Is the character a digit of base 16? -/
def isHex (c : Char) : Bool :=
  isHexCapital c || ('a' ≤ c && c ≤ 'f')

/-- The value of a digit.  Letters are the digits from ten on, in both cases. -/
def digitValue (c : Char) : Nat :=
  if isDecimal c then c.toNat - '0'.toNat
  else if 'A' ≤ c && c ≤ 'F' then c.toNat - 'A'.toNat + 10
  else if 'a' ≤ c && c ≤ 'f' then c.toNat - 'a'.toNat + 10
  else 0

/-- The number that a list of digits stands for, the most significant digit first. -/
def value (base : Nat) (digits : List Char) : Nat :=
  digits.foldl (fun n c => n * base + digitValue c) 0

/-- The number that digits with an optional minus sign stand for. -/
def signedValue (base : Nat) : List Char → Int
  | '-' :: digits => -(value base digits : Int)
  | digits => (value base digits : Int)

/-- Is the text an optional minus sign and at least one digit of base 16? -/
def isSignedHex : List Char → Bool
  | '-' :: digits => !digits.isEmpty && digits.all isHex
  | digits => !digits.isEmpty && digits.all isHex

/-- One digit more moves the others up by one place. -/
theorem value_concat (base : Nat) (digits : List Char) (c : Char) :
    value base (digits ++ [c]) = value base digits * base + digitValue c := by
  simp [value]

/-! ## §2. Writing. -/

/-- Digits filled up with zeros on the left. -/
def zeroFill (width : Nat) (digits : List Char) : List Char :=
  List.replicate (width - digits.length) '0' ++ digits

/-- A number in at least `width` characters.  The sign counts as one of them and stands before the
zeros. -/
def padded (base width : Nat) (n : Int) : List Char :=
  if n < 0 then '-' :: zeroFill (width - 1) (Nat.toDigits base n.natAbs)
  else zeroFill width (Nat.toDigits base n.natAbs)

end Mcs51.Digits
