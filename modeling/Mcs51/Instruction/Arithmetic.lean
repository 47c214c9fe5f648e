/-
  Mcs51.Instruction.Arithmetic — arithmetic and logic on bytes.

  The operations that combine the accumulator with an operand share one way of reading the operand;
  they differ only in the base of their operation codes.

  Main definitions:
    * `rotate`, `rotateThroughCarry`, `onAccumulator`, `onPair` : operations on the accumulator
      alone;
    * `increment`, `decrement` : counting;
    * `accumulate` : combining the accumulator with an operand;
    * `addInto`, `addIntoLoosely`, `combine`, `combineOrCarry` : the operations built on it.
-/
import Mcs51.Instruction.Boolean

namespace Mcs51.Instruction

open Encoded

/-! ## §1. The accumulator alone. -/

/-- A rotation.  Only the first operand is looked at. -/
def rotate (opcode : Nat) : List String → Encoded
  | [] => missing
  | target :: _ => if target = "A" then plain [opcode] else malformed

/-- The rotation to the left through the carry.  It is stored before its operands are counted, and
there have to be two. -/
def rotateThroughCarry : List String → Encoded
  | [] => missing
  | [target, _] => if target = "A" then plain [0x33] else malformed
  | target :: _ => if target = "A" then .error (.malformed [0x33]) else malformed

/-- An operation whose only operand is the accumulator. -/
def onAccumulator (opcode : Nat) : List String → Encoded
  | [target] => if target = "A" then plain [opcode] else malformed
  | _ => malformed

/-- An operation on the accumulator together with register B.  Only the first operand is looked
at. -/
def onPair (opcode : Nat) : List String → Encoded
  | [] => missing
  | target :: _ => if target = "AB" then plain [opcode] else malformed

/-! ## §2. Counting. -/

/-- Increments or decrements the accumulator, a register or a cell. -/
def countOperand (base : Nat) (target : String) : Encoded :=
  if target = "A" then plain [base + 4]
  else
    match Operand.ofText target with
    | .indirect digit => do plain [base + 6 + (← registerOf digit)]
    | .register digit => do plain [base + 8 + (← registerOf digit)]
    | _ => do plain [base + 5, ← directAddress target]

/-- The increment.  It has one operand more than the decrement: the data pointer. -/
def increment : List String → Encoded
  | [target] => if target = "DLOCCTR" then plain [0xA3] else countOperand 0x00 target
  | _ => malformed

/-- The decrement. -/
def decrement : List String → Encoded
  | [target] => countOperand 0x10 target
  | _ => malformed

/-! ## §3. Combining the accumulator with an operand. -/

/-- Combines the accumulator with an operand.  The kind of the operand selects the operation code
above the base. -/
def accumulate (base : Nat) (source : String) : Encoded :=
  match Operand.ofText source with
  | .indirect digit => do plain [base + 6 + (← registerOf digit)]
  | .register digit => do plain [base + 8 + (← registerOf digit)]
  | .special address => plain [base + 5, address]
  | .direct address => do plain [base + 5, ← numberOf address]
  | .immediate constant => do plain [base + 4, ← numberOf constant]
  | .other => malformed

/-- An operation with exactly two operands, the accumulator and another one. -/
def addInto (base : Nat) : List String → Encoded
  | [target, source] => if target = "A" then accumulate base source else malformed
  | _ => malformed

/-- An operation on the accumulator and another operand, where operands after the second are
ignored. -/
def addIntoLoosely (base : Nat) : List String → Encoded
  | [] => missing
  | target :: rest =>
    if target = "A" then
      match rest with
      | [] => missing
      | source :: _ => accumulate base source
    else malformed

/-- Combines a cell with the accumulator or with a constant.  A constant is converted before the
address of the cell. -/
def combineCell (base : Nat) (target source : String) : Encoded :=
  if source = "A" then do plain [base + 2, ← directAddress target]
  else do
    let constant ← immediateValue source
    let address ← directAddress target
    plain [base + 3, address, constant]

/-- A logical operation on the accumulator or a cell.  Operands after the second are ignored. -/
def combine (base : Nat) : List String → Encoded
  | target :: source :: _ =>
    if target = "A" then accumulate base source else combineCell base target source
  | _ => missing

/-- A logical operation on the accumulator, the carry or a cell.  Operands after the second are
ignored. -/
def combineOrCarry (base carryOpcode invertedOpcode : Nat) : List String → Encoded
  | target :: source :: _ =>
    if target = "A" then accumulate base source
    else if target = "C" then combineCarry carryOpcode invertedOpcode source
    else combineCell base target source
  | _ => missing

end Mcs51.Instruction
