/-
  Mcs51.Instruction.Transfer — instructions that move data.

  Main definitions:
    * `move` : between registers, cells, constants, the carry and the data pointer;
    * `moveCode`, `moveExternal` : from the code memory, from and to the external memory;
    * `stack` : to and from the stack;
    * `exchange`, `exchangeDigit` : exchanging the accumulator with an operand.
-/
import Mcs51.Instruction.Encoding

namespace Mcs51.Instruction

open Encoded

/-! ## §1. Moving inside the processor. -/

/-- Moves into a register or the cell it points to.  The three operation codes are for the
accumulator, a constant and a cell. -/
def moveIntoRegister (fromA fromConstant fromCell : Nat) (source : String) : Encoded :=
  if source = "A" then plain [fromA]
  else
    match Operand.ofText source with
    | .immediate constant => do plain [fromConstant, ← numberOf constant]
    | _ => do plain [fromCell, ← directAddress source]

/-- Moves into the accumulator. -/
def moveIntoA (source : String) : Encoded :=
  match Operand.ofText source with
  | .indirect digit => do plain [0xE6 + (← registerOf digit)]
  | .register digit => do plain [0xE8 + (← registerOf digit)]
  | .immediate constant => do plain [0x74, ← numberOf constant]
  | _ => do plain [0xE5, ← directAddress source]

/-- Moves into a cell.  Between two cells the source is stored before the target. -/
def moveIntoCell (address : Nat) (source : String) : Encoded :=
  if source = "A" then plain [0xF5, address]
  else
    match Operand.ofText source with
    | .immediate constant => do plain [0x75, address, ← numberOf constant]
    | .register digit => do plain [0x88 + (← registerOf digit), address]
    | .indirect digit => do plain [0x86 + (← registerOf digit), address]
    | _ => do plain [0x85, ← directAddress source, address]

/-- Loads the data pointer with a constant, the high part first. -/
def movePointer (source : String) : Encoded := do
  let constant ← immediateValue source
  plain [0x90, constant / 256, constant % 256]

/-- Moves where neither the accumulator nor the carry nor the data pointer is the target. -/
def moveElsewhere (target source : String) : Encoded :=
  match Operand.ofText target with
  | .register digit => do
    let n ← registerOf digit
    moveIntoRegister (0xF8 + n) (0x78 + n) (0xA8 + n) source
  | _ => do moveIntoCell (← directAddress target) source

/-- The general move.  A target cell that a register points to is seen first, then the accumulator
and the carry on the left, then the carry on the right, then the data pointer. -/
def move : List String → Encoded
  | [target, source] =>
    match Operand.ofText target with
    | .indirect digit => do
      let n ← registerOf digit
      moveIntoRegister (0xF6 + n) (0x76 + n) (0xA6 + n) source
    | _ =>
      if target = "A" then moveIntoA source
      else if target = "C" then do plain [0xA2, ← bitAddress source]
      else if source = "C" then do plain [0x92, ← bitAddress target]
      else if target = "DPTR" then movePointer source
      else moveElsewhere target source
  | _ => malformed

/-! ## §2. Moving from and to other memories. -/

/-- Moves a byte of the code memory into the accumulator.  Relative to the program counter this move
is recognised but has no code. -/
def moveCode : List String → Encoded
  | [] => missing
  | target :: rest =>
    if target = "A" then
      match rest with
      | [] => missing
      | source :: _ =>
        if source = "@A+DPTR" then plain [0x93]
        else if source = "@A+PC" then .error (.crash .unencodable)
        else malformed
    else malformed

/-- Moves between the accumulator and the external memory. -/
def moveExternal : List String → Encoded
  | [target, source] =>
    if target = "A" then
      if source = "@DPTR" then plain [0xE0]
      else
        match Operand.ofText source with
        | .indirect digit => do plain [0xE2 + (← registerOf digit)]
        | _ => malformed
    else
      match Operand.ofText target with
      | .indirect digit =>
        if source = "A" then do plain [0xF2 + (← registerOf digit)] else malformed
      | _ => malformed
  | _ => malformed

/-- Moves a cell to or from the stack. -/
def stack (opcode : Nat) : List String → Encoded
  | [cell] => do plain [opcode, ← directAddress cell]
  | _ => malformed

/-! ## §3. Exchanging. -/

/-- Exchanges the accumulator with a register or the cell it points to.  Any other operand stands
for the accumulator itself. -/
def exchange : List String → Encoded
  | [target, source] =>
    if target = "A" then
      match Operand.ofText source with
      | .indirect digit => do plain [0xC6 + (← registerOf digit)]
      | .register digit => do plain [0xC8 + (← registerOf digit)]
      | _ => plain [0xC5, 0xE0]
    else malformed
  | _ => malformed

/-- Exchanges the low digit of the accumulator with that of the cell a register points to. -/
def exchangeDigit : List String → Encoded
  | [target, source] =>
    if target = "A" then
      match Operand.ofText source with
      | .indirect digit => do plain [0xD6 + (← registerOf digit)]
      | _ => malformed
    else malformed
  | _ => malformed

end Mcs51.Instruction
