/-
  Mcs51.Memory — the code memory.

  The memory is a row of cells.  A cell that was never programmed reads as minus one, which no
  stored byte does.

  Main definitions:
    * `Memory`, `Memory.blank` : the memory, and one with nothing in it;
    * `Memory.slot?`, `Memory.put` : finding and changing a cell;
    * `Memory.dump` : its first cells as text.
-/
import Mcs51.Digits
import Mcs51.Fault

namespace Mcs51

/-- The code memory. -/
structure Memory where
  cells : Array Int
  deriving Repr, DecidableEq

namespace Memory

/-- The content of a cell that was never programmed. -/
def erased : Int := -1

/-- A memory of the given size with nothing in it. -/
def blank (size : Nat) : Memory :=
  ⟨Array.replicate size erased⟩

/-- The number of cells that the processor can address. -/
def fullSize : Nat := 65536

/-- The greatest address that any memory can have. -/
def maxAddress : Int := 0x7FFFFFFFFFFFFFFF

/-- The place of an address in the row of cells.  Addresses below zero count back from the end. -/
def slot? (memory : Memory) (address : Int) : Except Crash Nat :=
  if maxAddress < address ∨ address < -maxAddress - 1 then .error .unaddressable
  else if 0 ≤ address ∧ address < memory.cells.size then .ok address.toNat
  else if address < 0 ∧ 0 ≤ address + memory.cells.size then
    .ok (address + memory.cells.size).toNat
  else .error .outsideMemory

/-- Changes one cell. -/
def put (memory : Memory) (slot : Nat) (cell : Int) : Memory :=
  ⟨memory.cells.setIfInBounds slot cell⟩

@[simp] theorem size_put (memory : Memory) (slot : Nat) (cell : Int) :
    (memory.put slot cell).cells.size = memory.cells.size := by
  simp [put]

/-! ## Showing the memory. -/

/-- A number of base 16 with its mark and sign. -/
def hexText (n : Int) : String :=
  (if n < 0 then "-0x" else "0x") ++ String.ofList (Nat.toDigits 16 n.natAbs)

/-- The first hundred cells, in one line. -/
def dump (memory : Memory) : String :=
  " ".intercalate ((memory.cells.toList.take 100).map hexText)

end Memory

end Mcs51
