/-
  Mcs51.Operand — what an operand denotes.

  An operand is read off its spelling alone, in one of three ways: as a byte (a register, a cell, a
  number), as a bit, or as a label.  Numbers and register digits stay as they are written, so that
  reading an operand never fails.

  Main definitions:
    * `Operand`, `Operand.ofText` : operands that denote bytes;
    * `BitOperand`, `BitOperand.ofText` : operands that denote bits;
    * `labelName?` : operands that name a label.
-/
import Mcs51.Numeral
import Mcs51.Shape
import Mcs51.SpecialRegister

namespace Mcs51

/-! ## §1. Numbers. -/

/-- A plain number: the address of a cell or of a bit. -/
def Numeral.ofText? (text : List Char) : Option Numeral :=
  match Shape.hex.capture? text with
  | some digits => some (.hex digits)
  | none => (Shape.dec.capture? text).map .dec

/-- A number marked as immediate. -/
def Numeral.ofImmediate? (text : List Char) : Option Numeral :=
  match Shape.immediateHex.capture? text with
  | some digits => some (.hex digits)
  | none => (Shape.immediateDec.capture? text).map .dec

/-! ## §2. Bytes. -/

/-- An operand that denotes a byte. -/
inductive Operand where
  /-- The cell that a register points to, with the register's digit as written. -/
  | indirect (digit : List Char)
  /-- A register, with its digit as written. -/
  | register (digit : List Char)
  /-- A special function register, by its address. -/
  | special (address : Nat)
  /-- A cell, by its address as written. -/
  | direct (address : Numeral)
  /-- A constant, as written. -/
  | immediate (constant : Numeral)
  /-- None of these. -/
  | other
  deriving Repr, DecidableEq

/-- Reads an operand that denotes a byte.  No text is of two kinds, so the order of the tests does
not matter. -/
def Operand.ofText (text : String) : Operand :=
  match Shape.indirect.capture? text.toList with
  | some digit => .indirect digit
  | none =>
  match Shape.register.capture? text.toList with
  | some digit => .register digit
  | none =>
  match SpecialRegister.address? text with
  | some address => .special address
  | none =>
  match Numeral.ofText? text.toList with
  | some address => .direct address
  | none =>
  match Numeral.ofImmediate? text.toList with
  | some constant => .immediate constant
  | none => .other

/-! ## §3. Bits. -/

/-- An operand that denotes a bit. -/
inductive BitOperand where
  /-- A bit of a special function register, by its address. -/
  | named (address : Nat)
  /-- A bit, by its address as written. -/
  | literal (address : Numeral)
  /-- None of these. -/
  | other
  deriving Repr, DecidableEq

/-- Reads an operand that denotes a bit. -/
def BitOperand.ofText (text : String) : BitOperand :=
  match SpecialRegister.bitAddress? text with
  | some address => .named address
  | none =>
  match Numeral.ofText? text.toList with
  | some address => .literal address
  | none => .other

/-- The bit behind the mark of inversion. -/
def invertedBit? (text : String) : Option String :=
  (Shape.inverted.capture? text.toList).map String.ofList

/-! ## §4. Labels. -/

/-- The label that an operand names. -/
def labelName? (text : String) : Option String :=
  (Shape.word.capture? text.toList).map String.ofList

end Mcs51
