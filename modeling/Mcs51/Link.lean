/-
  Mcs51.Link — filling in the addresses of labels.

  Once all labels are known, the memory is searched for placeholder cells.  The first placeholder
  found belongs to the first reference, and so on.  Each reference is replaced by the cells that its
  operation needs.  A jump of flexible size may need one cell more than it has placeholders; then
  the rest of the memory moves up, and so do the labels above its target.

  Main definitions:
    * `offsetCell` : the cell of a branch distance;
    * `Patch`, `LinkKind.patch` : the cells that replace placeholders;
    * `Linking.scan`, `Assembler.link` : the search.
-/
import Mcs51.Assembler

namespace Mcs51

/-! ## §1. Cells that depend on an address. -/

/-- The cell of a branch distance: distances below zero in the eight-bit complement. -/
def offsetCell (distance : Int) : Int :=
  if 0 ≤ distance then distance else ((distance.natAbs ^^^ 0xFF) + 1 : Nat)

/-- The two cells of a jump or call inside a block of 2048 cells.  The first three digits of the
address stand in the first cell, above the five that select the operation. -/
def absoluteCells (selector : List Char) (address : Int) : List Int :=
  let digits := Digits.padded 2 11 address
  [Digits.signedValue 2 (digits.take 3 ++ selector), Digits.signedValue 2 (digits.drop 3)]

/-- The three cells of a jump or call to any address. -/
def longCells (opcode : Int) (address : Int) : List Int :=
  let digits := Digits.padded 2 16 address
  [opcode, Digits.signedValue 2 (digits.take 8), Digits.signedValue 2 (digits.drop 8)]

/-- Is the address in the same block of 2048 cells as the cell after a jump of two cells? -/
def sameBlock (position : Nat) (address : Int) : Bool :=
  (Digits.padded 2 16 (position + 2)).take 5 == (Digits.padded 2 16 address).take 5

/-- The digits that select the jump inside a block. -/
def jumpSelector : List Char := ['0', '0', '0', '0', '1']

/-- The digits that select the call inside a block. -/
def callSelector : List Char := ['1', '0', '0', '0', '1']

/-! ## §2. Patches. -/

/-- The ways in which an operation refers to a label. -/
inductive LinkKind where
  /-- By the distance to the label, in one cell. -/
  | relative
  /-- By the address inside a block, in two cells. -/
  | absolute (selector : List Char)
  /-- By the whole address, in three cells. -/
  | long (opcode : Int)
  /-- By whichever of the last two is enough. -/
  | flexible
  deriving Repr, DecidableEq

/-- How an operation refers to its label. -/
def LinkKind.ofMnemonic? : String → Option LinkKind
  | "JB" | "JNB" | "JBC" | "JC" | "JNC" | "JZ" | "JNZ" | "SJMP" | "CJNE" | "DJNZ" => some .relative
  | "AJMP" => some (.absolute jumpSelector)
  | "ACALL" => some (.absolute callSelector)
  | "LJMP" => some (.long 0x02)
  | "LCALL" => some (.long 0x12)
  | "JMP" => some .flexible
  | _ => none

/-- Cells, and the number of cells in memory that they replace. -/
structure Patch where
  cells : List Int
  covers : Nat
  deriving Repr, DecidableEq

/-- Does the patch need more room than it covers? -/
def Patch.grows (patch : Patch) : Bool :=
  patch.covers < patch.cells.length

/-- The patch for a placeholder at the given position and a label at the given address. -/
def LinkKind.patch (position : Nat) (address : Int) : LinkKind → Patch
  | .relative => ⟨[offsetCell (address - position - 1)], 1⟩
  | .absolute selector => ⟨absoluteCells selector address, 2⟩
  | .long opcode => ⟨longCells opcode address, 3⟩
  | .flexible =>
    if sameBlock position address then ⟨absoluteCells jumpSelector address, 2⟩
    else ⟨longCells 0x02 address, 2⟩

/-! ## §3. The search for placeholders. -/

/-- How far the search has come. -/
structure Linking where
  /-- The cells behind the search, as they will stay. -/
  done : Array Int
  /-- The labels, moved as far as patches have grown. -/
  labels : LabelTable
  /-- The references whose placeholders are still ahead. -/
  pending : List Reference
  deriving Repr, DecidableEq

namespace Linking

/-- Leaves cells as they are. -/
def keep (linking : Linking) (cells : List Int) : Linking :=
  { linking with done := linking.done ++ cells }

/-- Puts a patch in place of its placeholders. -/
def apply (linking : Linking) (patch : Patch) (address : Int) (pending : List Reference) :
    Linking where
  done := linking.done ++ patch.cells
  labels := if patch.grows then linking.labels.shiftAbove address else linking.labels
  pending := pending

/-- Searches the cells ahead, of which the first `covered` are covered by a patch already.  A
placeholder whose reference belongs to an operation without a way to refer to labels stays, and so
does the reference.  If the search stops, the cells ahead stay as they are. -/
def scan : Nat → List Int → Linking → EStateM.Result Stop Linking Unit
  | _, [], linking => .ok () linking
  | covered + 1, _ :: ahead, linking => scan covered ahead linking
  | 0, cell :: ahead, linking =>
    if cell ≠ (placeholder : Int) then scan 0 ahead (linking.keep [cell])
    else
      match linking.pending with
      | [] => .error (.crashed .unmatchedPlaceholder) (linking.keep (cell :: ahead))
      | reference :: pending =>
        match LinkKind.ofMnemonic? reference.mnemonic with
        | none => scan 0 ahead (linking.keep [cell])
        | some kind =>
          match linking.labels.find? reference.label with
          | none =>
            .error (.reported (.undefinedLabel reference.label)) (linking.keep (cell :: ahead))
          | some address =>
            let patch := kind.patch linking.done.size address
            scan (patch.covers - 1) ahead (linking.apply patch address pending)

end Linking

namespace Assembler

/-- The state after the search has come this far. -/
def withLinking (s : Assembler) (linking : Linking) : Assembler :=
  { s with memory := ⟨linking.done⟩, labels := linking.labels }

/-- Fills in the addresses of all labels. -/
def link : AssemblerM Unit := fun s =>
  match Linking.scan 0 s.memory.cells.toList ⟨#[], s.labels, s.references⟩ with
  | .ok _ linking => .ok () (s.withLinking linking)
  | .error stop linking => .error stop (s.withLinking linking)

end Assembler

end Mcs51
