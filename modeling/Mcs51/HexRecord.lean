/-
  Mcs51.HexRecord — the memory as a listing of records.

  Programmed cells are listed in records of up to sixteen cells.  A record gives the number of its
  cells, the address of the first, its type and the cells, all in base 16, and a check sum at the
  end.  The last cell of the memory only serves as the neighbour of the one before it.

  Main definitions:
    * `HexRecord`, `HexRecord.line` : a record and its line;
    * `HexRecord.collect` : the records of a memory;
    * `Listing`, `Memory.listing` : all lines.
-/
import Mcs51.Memory

namespace Mcs51

/-- Consecutive programmed cells and the address of the first. -/
structure HexRecord where
  address : Int
  cells : List Int
  deriving Repr, DecidableEq

namespace HexRecord

/-! ## §1. The records of a memory. -/

/-- The greatest number of cells in one record. -/
def maxCells : Nat := 16

/-- The cells collected so far, with one more if it is programmed. -/
def collected (pending : List Int) (cell : Int) : List Int :=
  if cell = Memory.erased then pending else pending ++ [cell]

/-- Is a record complete?  It is if it is full, or if the next cell is erased. -/
def isComplete (cells : List Int) (next : Int) : Bool :=
  (next == Memory.erased && !cells.isEmpty) || maxCells ≤ cells.length

/-- The records of the cells from `position` on, the first of them beginning with the pending cells.
Cells still pending at the end are lost. -/
def collect (position : Nat) (pending : List Int) : List Int → List HexRecord
  | [] => []
  | [_] => []
  | cell :: next :: rest =>
    let cells := collected pending cell
    if isComplete cells next then
      ⟨(position : Int) - cells.length + 1, cells⟩ :: collect (position + 1) [] (next :: rest)
    else collect (position + 1) cells (next :: rest)

/-! ## §2. The line of a record. -/

/-- The digits of a record, without its check sum.  Its type is always zero. -/
def digits (record : HexRecord) : List Char :=
  Digits.padded 16 2 record.cells.length ++ Digits.padded 16 4 record.address
    ++ Digits.padded 16 2 0 ++ record.cells.flatMap (Digits.padded 16 2)

/-- The sum of the two-digit numbers that the digits make up; a single digit at the end counts
too. -/
def pairSum : List Char → Except Crash Int
  | [] => .ok 0
  | [a] => pairValue [a]
  | a :: b :: rest => do
    let n ← pairValue [a, b]
    let sum ← pairSum rest
    return n + sum
where
  /-- The value of one pair. -/
  pairValue (pair : List Char) : Except Crash Int :=
    if Digits.isSignedHex pair then .ok (Digits.signedValue 16 pair)
    else .error (.badDigits 16 (String.ofList pair))

/-- The check sum: what is missing to the next multiple of 256, where a multiple is missing 256. -/
def checkSum (digits : List Char) : Except Crash Int := do
  return 256 - (← pairSum digits) % 256

/-- The line of a record. -/
def line (record : HexRecord) : Except Crash String := do
  let sum ← checkSum record.digits
  return String.ofList (':' :: record.digits ++ Digits.padded 16 2 sum)

/-- The line that ends a listing. -/
def lastLine : String := ":00000001FF"

end HexRecord

/-! ## §3. Listings. -/

/-- The lines of a listing, up to its end or to the record that has none. -/
structure Listing where
  lines : List String
  crash : Option Crash
  deriving Repr, DecidableEq

namespace Listing

/-- The listing of records. -/
def ofRecords : List HexRecord → Listing
  | [] => ⟨[HexRecord.lastLine], none⟩
  | record :: rest =>
    match record.line with
    | .error crash => ⟨[], some crash⟩
    | .ok line =>
      let listing := ofRecords rest
      ⟨line :: listing.lines, listing.crash⟩

/-- A listing as it is printed. -/
def text (listing : Listing) : String :=
  String.join (listing.lines.map (· ++ "\n"))

end Listing

/-- The listing of a memory. -/
def Memory.listing (memory : Memory) : Listing :=
  Listing.ofRecords (HexRecord.collect 0 [] memory.cells.toList)

end Mcs51
