/-
  Mcs51.Instruction.Branch — jumps, calls and branches.

  Every instruction here leaves placeholders for the address of a label, and notes the label under
  its own name.

  Main definitions:
    * `jumpTo`, `jump` : jumps and calls, all of whose cells wait for the label;
    * `branch`, `branchOnBit` : branches that note their label before they are stored;
    * `compareBranch`, `countBranch` : branches that look at their label after they are stored.
-/
import Mcs51.Instruction.Encoding

namespace Mcs51.Instruction

open Encoded

/-! ## §1. Jumps and calls. -/

/-- A jump or call of `size` cells. -/
def jumpTo (name : String) (size : Nat) : List String → Encoded
  | [target] =>
    match labelName? target with
    | some label => awaiting (List.replicate size placeholder) ⟨name, label⟩
    | none => malformed
  | _ => malformed

/-- The jump whose size is chosen later, or the jump through the data pointer. -/
def jump : List String → Encoded
  | [target] => if target = "@A+DPTR" then plain [0x73] else jumpTo "JMP" 2 [target]
  | _ => malformed

/-! ## §2. Branches that note their label first. -/

/-- A branch on the carry or the accumulator, or the short jump. -/
def branch (name : String) (opcode : Nat) : List String → Encoded
  | [target] =>
    match labelName? target with
    | some label => noting [opcode, placeholder] ⟨name, label⟩
    | none => malformed
  | _ => malformed

/-- A branch on a bit. -/
def branchOnBit (name : String) (opcode : Nat) : List String → Encoded
  | [bit, target] => do
    let address ← decimalBitAddress bit
    match labelName? target with
    | some label => noting [opcode, address, placeholder] ⟨name, label⟩
    | none => malformed
  | _ => malformed

/-! ## §3. Branches that look at their label last. -/

/-- The cells are stored, and only then the operand has to name a label. -/
def storeThenAwait (name : String) (cells : List Nat) (target : String) : Encoded :=
  match labelName? target with
  | some label => awaiting cells ⟨name, label⟩
  | none => .error (.malformed cells)

/-- The cells that compare two operands.  The accumulator is compared with a constant or a cell, the
other operands with a constant only. -/
def compareCells (left right : String) : Except Refusal (List Nat) :=
  if left = "A" then
    match Operand.ofText right with
    | .immediate constant => do return [0xB4, ← numberOf constant, placeholder]
    | .special address => return [0xB4, address, placeholder]
    | .direct address => do return [0xB5, ← numberOf address, placeholder]
    | _ => .error (.malformed [])
  else
    match Operand.ofText left with
    | .indirect digit => do
      let n ← registerOf digit
      return [0xB6 + n, ← immediateValue right, placeholder]
    | .register digit => do
      let n ← registerOf digit
      return [0xB8 + n, ← immediateValue right, placeholder]
    | _ => .error (.malformed [])

/-- The branch if two operands differ. -/
def compareBranch : List String → Encoded
  | [left, right, target] => do storeThenAwait "CJNE" (← compareCells left right) target
  | _ => malformed

/-- The cells that count a register or a cell down. -/
def countCells (counter : String) : Except Refusal (List Nat) :=
  match Operand.ofText counter with
  | .register digit => do return [0xD8 + (← registerOf digit), placeholder]
  | _ => do return [0xD5, ← directAddress counter, placeholder]

/-- The branch if a counter has not come to zero. -/
def countBranch : List String → Encoded
  | [counter, target] => do storeThenAwait "DJNZ" (← countCells counter) target
  | _ => malformed

end Mcs51.Instruction
