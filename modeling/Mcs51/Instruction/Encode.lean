/-
  Mcs51.Instruction.Encode — the code of every operation.

  Main definitions:
    * `Mnemonic.encode` : the encoding of an operation with its operands;
    * `origin` : the address of an origin directive.
-/
import Mcs51.Instruction.Arithmetic
import Mcs51.Instruction.Branch
import Mcs51.Instruction.Transfer
import Mcs51.Mnemonic

namespace Mcs51

open Instruction

/-- The encoding of an operation with its operands. -/
def Mnemonic.encode : Mnemonic → List String → Encoded
  | .nop, _ => .plain [0x01]
  | .ret, _ => .plain [0x22]
  | .reti, _ => .plain [0x32]
  | .rr, operands => rotate 0x03 operands
  | .rrc, operands => rotate 0x13 operands
  | .rl, operands => rotate 0x23 operands
  | .rlc, operands => rotateThroughCarry operands
  | .inc, operands => increment operands
  | .dec, operands => decrement operands
  | .add, operands => addInto 0x20 operands
  | .addc, operands => addIntoLoosely 0x30 operands
  | .subb, operands => addInto 0x90 operands
  | .orl, operands => combineOrCarry 0x40 0x72 0xA0 operands
  | .anl, operands => combineOrCarry 0x50 0x82 0xB0 operands
  | .xrl, operands => combine 0x60 operands
  | .mul, operands => onPair 0xA3 operands
  | .div, operands => onPair 0x84 operands
  | .swap, operands => onAccumulator 0xC4 operands
  | .da, operands => onAccumulator 0xD4 operands
  | .mov, operands => move operands
  | .movc, operands => moveCode operands
  | .movx, operands => moveExternal operands
  | .push, operands => stack 0xC0 operands
  | .pop, operands => stack 0xD0 operands
  | .xch, operands => exchange operands
  | .xchd, operands => exchangeDigit operands
  | .clr, operands => clear operands
  | .setb, operands => setBit operands
  | .cpl, operands => complement operands
  | .ajmp, operands => jumpTo "AJMP" 2 operands
  | .acall, operands => jumpTo "ACALL" 2 operands
  | .ljmp, operands => jumpTo "LJMP" 3 operands
  | .lcall, operands => jumpTo "LCALL" 3 operands
  | .jmp, operands => jump operands
  | .jc, operands => branch "JC" 0x40 operands
  | .jnc, operands => branch "JNC" 0x50 operands
  | .jz, operands => branch "JZ" 0x60 operands
  | .jnz, operands => branch "JNZ" 0x70 operands
  | .sjmp, operands => branch "SJMP" 0x80 operands
  | .jbc, operands => branchOnBit "JBC" 0x10 operands
  | .jb, operands => branchOnBit "JB" 0x20 operands
  | .jnb, operands => branchOnBit "JNB" 0x30 operands
  | .cjne, operands => compareBranch operands
  | .djnz, operands => countBranch operands

/-- The address of an origin directive: its only operand is a number. -/
def origin : List String → Except Refusal Nat
  | [text] =>
    match Numeral.ofText? text.toList with
    | some address => numberOf address
    | none => .error (.malformed [])
  | _ => .error (.malformed [])

end Mcs51
