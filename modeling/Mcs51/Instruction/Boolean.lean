/-
  Mcs51.Instruction.Boolean — instructions on single bits.

  Main definitions:
    * `complement`, `clear`, `setBit` : changing a bit, the carry or the accumulator;
    * `combineCarry` : combining the carry with a bit.
-/
import Mcs51.Instruction.Encoding

namespace Mcs51.Instruction

open Encoded

/-- Inverts the accumulator, the carry or a bit. -/
def complement : List String → Encoded
  | [target] =>
    if target = "A" then plain [0xF4]
    else if target = "C" then plain [0xB3]
    else do plain [0xB2, ← decimalBitAddress target]
  | _ => malformed

/-- Clears the accumulator, the carry or a bit. -/
def clear : List String → Encoded
  | [target] =>
    if target = "A" then plain [0xE4]
    else if target = "C" then plain [0xC3]
    else do plain [0xC2, ← bitAddress target]
  | _ => malformed

/-- Sets the carry or a bit. -/
def setBit : List String → Encoded
  | [target] =>
    if target = "C" then plain [0xD3]
    else do plain [0xD2, ← bitAddress target]
  | _ => malformed

/-- Combines the carry with a bit, or with an inverted bit under an operation code of its own. -/
def combineCarry (opcode invertedOpcode : Nat) (source : String) : Encoded :=
  match invertedBit? source with
  | some bit => do plain [invertedOpcode, ← bitAddress bit]
  | none => do plain [opcode, ← bitAddress source]

end Mcs51.Instruction
