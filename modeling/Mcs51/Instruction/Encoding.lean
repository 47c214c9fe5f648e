/-
  Mcs51.Instruction.Encoding — the code of one instruction.

  An instruction is encoded without regard to where it stands: as the cells it occupies and the
  label it refers to.  Cells that depend on a label are left as placeholders and filled in later.

  Main definitions:
    * `Reference`, `Encoding` : cells and reference of an instruction;
    * `Refusal` : why an instruction has no encoding;
    * `directAddress`, `bitAddress`, … : the values of operands inside an encoding.
-/
import Mcs51.Operand

namespace Mcs51

/-! ## §1. Encodings and refusals. -/

/-- The content of a cell that waits for a label's address. -/
def placeholder : Nat := 0xA5

/-- A place that waits for a label: the operation that stands there and the label it names. -/
structure Reference where
  mnemonic : String
  label : String
  deriving Repr, DecidableEq

/-- The code of one instruction. -/
structure Encoding where
  /-- The cells, in order. -/
  cells : List Nat
  /-- The reference that the placeholders among the cells wait for. -/
  reference : Option Reference
  /-- Is the reference noted before the cells are stored? -/
  noteFirst : Bool
  deriving Repr, DecidableEq

/-- The label that the placeholders among the cells wait for. -/
def Encoding.label (encoding : Encoding) : Option String :=
  encoding.reference.map Reference.label

/-- Why an instruction has no encoding. -/
inductive Refusal where
  /-- The operands do not fit; these cells were stored before that was seen. -/
  | malformed (stored : List Nat)
  /-- The encoder failed. -/
  | crash (crash : Crash)
  deriving Repr, DecidableEq

/-- An encoding, or the reason why there is none. -/
abbrev Encoded := Except Refusal Encoding

namespace Encoded

/-- Cells that wait for no label. -/
def plain (cells : List Nat) : Encoded :=
  .ok ⟨cells, none, false⟩

/-- Cells that wait for a label; its reference is noted first. -/
def noting (cells : List Nat) (reference : Reference) : Encoded :=
  .ok ⟨cells, some reference, true⟩

/-- Cells that wait for a label; its reference is noted when they are stored. -/
def awaiting (cells : List Nat) (reference : Reference) : Encoded :=
  .ok ⟨cells, some reference, false⟩

/-- The operands do not fit, and nothing was stored. -/
def malformed : Encoded :=
  .error (.malformed [])

/-- An operand is looked at that is not there. -/
def missing : Encoded :=
  .error (.crash .missingOperand)

end Encoded

/-! ## §2. Values of operands. -/

/-- The value of a number. -/
def numberOf (numeral : Numeral) : Except Refusal Nat :=
  numeral.value.mapError .crash

/-- The number of a register. -/
def registerOf (digit : List Char) : Except Refusal Nat :=
  (registerNumber digit).mapError .crash

/-- The address of a directly addressed cell: a special function register or a number. -/
def directAddress (text : String) : Except Refusal Nat :=
  match Operand.ofText text with
  | .special address => .ok address
  | .direct address => numberOf address
  | _ => .error (.malformed [])

/-- The value of a constant. -/
def immediateValue (text : String) : Except Refusal Nat :=
  match Operand.ofText text with
  | .immediate constant => numberOf constant
  | _ => .error (.malformed [])

/-- The address of a bit: a named bit or a number. -/
def bitAddress (text : String) : Except Refusal Nat :=
  match BitOperand.ofText text with
  | .named address => .ok address
  | .literal address => numberOf address
  | .other => .error (.malformed [])

/-- The address of a bit, where numbers of base 16 fail: the digits are converted together with
their mark. -/
def decimalBitAddress (text : String) : Except Refusal Nat :=
  match BitOperand.ofText text with
  | .named address => .ok address
  | .literal (.hex digits) =>
    .error (.crash (.badDigits 16 (String.ofList (Shape.hex.spell digits))))
  | .literal (.dec digits) => numberOf (.dec digits)
  | .other => .error (.malformed [])

end Mcs51
