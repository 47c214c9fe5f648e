/-
  Mcs51.Proofs.TestOrder — the order in which an operand is tested does not matter.

  Every operation tries its own tests on its operands, and it tries them in an order of its own:
  names before numbers, constants before names, or numbers before names.  As no operand is of two
  kinds, each of these orders finds the same.  So reading an operand once and for all is the same as
  trying the tests one after the other, and an operation may even try its tests in any other order.

  Main definitions:
    * `Arrangement` : an order for every list of tests;
    * `Arrangement.operand`, `Arrangement.bit` : what an operand denotes by the first test that it
      passes;
    * `Arrangement.encode`, `Arrangement.origin` : the encoder, with the tests that every operation
      tries.

  Main statements:
    * `Arrangement.operand_of_perm`, `Arrangement.bit_of_perm` : what the tests find, in whatever
      order;
    * `Arrangement.encode_eq` : no order changes an encoding;
    * `operand_kinds_disjoint` : no operand is of two kinds, and no order of the tests makes a
      difference.
-/
import Mcs51.Proofs.OperandKinds

namespace Mcs51

/-! ## §1. Tests in some order. -/

/-- **An order for every list of tests.** -/
structure Arrangement where
  /-- The order in which tests for bytes are tried. -/
  bytes : List ByteKind → List ByteKind
  /-- The order in which tests for bits are tried. -/
  bits : List BitKind → List BitKind
  /-- Each test for a byte is tried, and no others. -/
  bytes_perm : ∀ tests, (bytes tests).Perm tests
  /-- Each test for a bit is tried, and no others. -/
  bits_perm : ∀ tests, (bits tests).Perm tests

/-- The tests of every operation as they are listed below. -/
instance : Inhabited Arrangement :=
  ⟨⟨id, id, fun _ => .refl _, fun _ => .refl _⟩⟩

/-- The operand, if its kind is tested, and otherwise none. -/
def Operand.within (tests : List ByteKind) (operand : Operand) : Operand :=
  if tests.any (operand.kind? == some ·) then operand else .other

/-- The bit, if its kind is tested, and otherwise none. -/
def BitReading.within (tests : List BitKind) (reading : BitReading) : BitReading :=
  if tests.any (reading.kind? == some ·) then reading else .plain .other

namespace Arrangement

variable (arrangement : Arrangement)

/-- What an operand denotes by the first test that it passes. -/
def operand (tests : List ByteKind) (text : String) : Operand :=
  ((arrangement.bytes tests).findSome? (·.read? text)).getD .other

/-- What an operand denotes as a bit, by the first test that it passes. -/
def bit (tests : List BitKind) (text : String) : BitReading :=
  ((arrangement.bits tests).findSome? (·.read? text)).getD (.plain .other)

theorem operand_of_perm {tests tests' : List ByteKind} (perm : tests.Perm tests') (text : String) :
    arrangement.operand tests text = (Operand.ofText text).within tests' :=
  (ByteKind.passesOwn text).getD_findSome?_of_perm
    ((arrangement.bytes_perm tests).trans perm) .other

theorem bit_of_perm {tests tests' : List BitKind} (perm : tests.Perm tests') (text : String) :
    arrangement.bit tests text = (BitReading.ofText text).within tests' :=
  (BitKind.passesOwn text).getD_findSome?_of_perm ((arrangement.bits_perm tests).trans perm)
    (.plain .other)

/-- **In whatever order the tests are tried, they find what the operand denotes**, as far as it is
tested. -/
theorem operand_eq (tests : List ByteKind) (text : String) :
    arrangement.operand tests text = (Operand.ofText text).within tests :=
  arrangement.operand_of_perm (.refl _) text

/-- Where the tests for names and numbers are tried and no others, the mark of inversion is not
seen. -/
theorem bit_eq_plain {tests : List BitKind} (perm : tests.Perm [.named, .hex, .dec])
    (text : String) :
    arrangement.bit tests text = .plain (BitOperand.ofText text) := by
  rw [arrangement.bit_of_perm perm]
  cases marked : invertedBit? text with
  | some bit =>
    -- no test is passed, and the bit cannot be read without its mark either
    rw [BitReading.ofText_of_inverted marked, BitOperand.ofText_of_inverted marked]
    rfl
  | none =>
    rw [BitReading.ofText_of_unmarked marked]
    rcases BitOperand.ofText text with _ | (_ | _) | _ <;> rfl

end Arrangement

/-! ## §2. The tests of every operation. -/

/-- The address of the cell that an operand denotes directly. -/
def Operand.address : Operand → Except Refusal Nat
  | .special address => .ok address
  | .direct address => numberOf address
  | _ => .error (.malformed [])

/-- The value of a constant. -/
def Operand.value : Operand → Except Refusal Nat
  | .immediate constant => numberOf constant
  | _ => .error (.malformed [])

/-- The address of a bit. -/
def BitReading.address : BitReading → Except Refusal Nat
  | .plain (.named address) => .ok address
  | .plain (.literal address) => numberOf address
  | _ => .error (.malformed [])

/-- The address of a bit, where the digits of base 16 are converted together with their mark. -/
def BitReading.decimalAddress : BitReading → Except Refusal Nat
  | .plain (.named address) => .ok address
  | .plain (.literal (.hex digits)) =>
    .error (.crash (.badDigits 16 (String.ofList (Shape.hex.spell digits))))
  | .plain (.literal (.dec digits)) => numberOf (.dec digits)
  | _ => .error (.malformed [])

namespace Arrangement

open Encoded

variable (arrangement : Arrangement)

/-- The increment or the decrement.  Registers are tested before names, and names before numbers. -/
def countOperand (base : Nat) (target : String) : Encoded :=
  if target = "A" then plain [base + 4]
  else
    match arrangement.operand [.indirect, .register, .special, .hex, .dec] target with
    | .indirect digit => do plain [base + 6 + (← registerOf digit)]
    | .register digit => do plain [base + 8 + (← registerOf digit)]
    | found => do plain [base + 5, ← found.address]

/-- Combines the accumulator with an operand.  Names are tested before numbers, and constants
last. -/
def accumulate (base : Nat) (source : String) : Encoded :=
  match arrangement.operand [.indirect, .register, .special, .hex, .dec, .immediateHex,
    .immediateDec]
      source with
  | .indirect digit => do plain [base + 6 + (← registerOf digit)]
  | .register digit => do plain [base + 8 + (← registerOf digit)]
  | .immediate constant => do plain [base + 4, ← numberOf constant]
  | found => do plain [base + 5, ← found.address]

/-- Combines a cell with the accumulator or with a constant. -/
def combineCell (base : Nat) (target source : String) : Encoded :=
  if source = "A" then do
    plain [base + 2, ← (arrangement.operand [.special, .hex, .dec] target).address]
  else do
    let constant ← (arrangement.operand [.immediateHex, .immediateDec] source).value
    let address ← (arrangement.operand [.special, .hex, .dec] target).address
    plain [base + 3, address, constant]

/-- Combines the carry with a bit.  The mark of inversion is tested before names, and names before
numbers. -/
def combineCarry (opcode invertedOpcode : Nat) (source : String) : Encoded :=
  match arrangement.bit [.inverted, .named, .hex, .dec] source with
  | .inverted bit => do plain [invertedOpcode, ← (arrangement.bit [.named, .hex, .dec] bit).address]
  | found => do plain [opcode, ← found.address]

/-- A branch on a bit.  Names are tested before numbers. -/
def branchOnBit (name : String) (opcode : Nat) (bit target : String) : Encoded := do
  let address ← (arrangement.bit [.named, .hex, .dec] bit).decimalAddress
  match labelName? target with
  | some label => noting [opcode, address, placeholder] ⟨name, label⟩
  | none => malformed

/-- The cells that compare two operands.  Constants are tested before names, and names before
numbers. -/
def compareCells (left right : String) : Except Refusal (List Nat) :=
  if left = "A" then
    match arrangement.operand [.immediateHex, .immediateDec, .special, .hex, .dec] right with
    | .immediate constant => do return [0xB4, ← numberOf constant, placeholder]
    | .special address => return [0xB4, address, placeholder]
    | .direct address => do return [0xB5, ← numberOf address, placeholder]
    | _ => .error (.malformed [])
  else
    match arrangement.operand [.indirect, .register] left with
    | .indirect digit => do
      let n ← registerOf digit
      return [0xB6 + n, ← (arrangement.operand [.immediateHex, .immediateDec] right).value,
        placeholder]
    | .register digit => do
      let n ← registerOf digit
      return [0xB8 + n, ← (arrangement.operand [.immediateHex, .immediateDec] right).value,
        placeholder]
    | _ => .error (.malformed [])

/-- The cells that count a register or a cell down.  Registers are tested last. -/
def countCells (counter : String) : Except Refusal (List Nat) :=
  match arrangement.operand [.special, .hex, .dec, .register] counter with
  | .register digit => do return [0xD8 + (← registerOf digit), placeholder]
  | found => do return [0xD5, ← found.address, placeholder]

/-- Moves into a register or the cell it points to.  Constants are tested first. -/
def moveIntoRegister (fromA fromConstant fromCell : Nat) (source : String) : Encoded :=
  if source = "A" then plain [fromA]
  else
    match arrangement.operand [.immediateHex, .immediateDec, .special, .hex, .dec] source with
    | .immediate constant => do plain [fromConstant, ← numberOf constant]
    | found => do plain [fromCell, ← found.address]

/-- Moves into the accumulator.  Registers are tested before constants. -/
def moveIntoA (source : String) : Encoded :=
  match arrangement.operand [.indirect, .register, .immediateHex, .immediateDec, .special,
    .hex, .dec]
      source with
  | .indirect digit => do plain [0xE6 + (← registerOf digit)]
  | .register digit => do plain [0xE8 + (← registerOf digit)]
  | .immediate constant => do plain [0x74, ← numberOf constant]
  | found => do plain [0xE5, ← found.address]

/-- Moves into a cell.  Constants are tested first, and registers last. -/
def moveIntoCell (address : Nat) (source : String) : Encoded :=
  if source = "A" then plain [0xF5, address]
  else
    match arrangement.operand [.immediateHex, .immediateDec, .special, .hex, .dec, .register,
      .indirect]
        source with
    | .immediate constant => do plain [0x75, address, ← numberOf constant]
    | .register digit => do plain [0x88 + (← registerOf digit), address]
    | .indirect digit => do plain [0x86 + (← registerOf digit), address]
    | found => do plain [0x85, ← found.address, address]

/-- Moves where neither the accumulator nor the carry nor the data pointer is the target. -/
def moveElsewhere (target source : String) : Encoded :=
  match arrangement.operand [.register, .special, .hex, .dec] target with
  | .register digit => do
    let n ← registerOf digit
    arrangement.moveIntoRegister (0xF8 + n) (0x78 + n) (0xA8 + n) source
  | found => do arrangement.moveIntoCell (← found.address) source

/-- The general move.  Where the carry is moved, numbers are tested before names. -/
def move (target source : String) : Encoded :=
  match arrangement.operand [.indirect] target with
  | .indirect digit => do
    let n ← registerOf digit
    arrangement.moveIntoRegister (0xF6 + n) (0x76 + n) (0xA6 + n) source
  | _ =>
    if target = "A" then arrangement.moveIntoA source
    else if target = "C" then do
      plain [0xA2, ← (arrangement.bit [.hex, .dec, .named] source).address]
    else if source = "C" then do
      plain [0x92, ← (arrangement.bit [.hex, .dec, .named] target).address]
    else if target = "DPTR" then do
      let constant ← (arrangement.operand [.immediateHex, .immediateDec] source).value
      plain [0x90, constant / 256, constant % 256]
    else arrangement.moveElsewhere target source

/-- Moves between the accumulator and the external memory. -/
def moveExternal (target source : String) : Encoded :=
  if target = "A" then
    if source = "@DPTR" then plain [0xE0]
    else
      match arrangement.operand [.indirect] source with
      | .indirect digit => do plain [0xE2 + (← registerOf digit)]
      | _ => malformed
  else
    match arrangement.operand [.indirect] target with
    | .indirect digit =>
      if source = "A" then do plain [0xF2 + (← registerOf digit)] else malformed
    | _ => malformed

/-- Exchanges the accumulator with a register or the cell it points to.  For any other operand the
tests are tried on the target, numbers before names. -/
def exchange (target source : String) : Encoded :=
  if target = "A" then
    match arrangement.operand [.indirect, .register] source with
    | .indirect digit => do plain [0xC6 + (← registerOf digit)]
    | .register digit => do plain [0xC8 + (← registerOf digit)]
    | _ => do plain [0xC5, ← (arrangement.operand [.hex, .dec, .special] target).address]
  else malformed

/-- Exchanges the low digit of the accumulator with that of the cell a register points to. -/
def exchangeDigit (target source : String) : Encoded :=
  if target = "A" then
    match arrangement.operand [.indirect] source with
    | .indirect digit => do plain [0xD6 + (← registerOf digit)]
    | _ => malformed
  else malformed

/-- **The encoding of an operation, with the tests that it tries on its operands.**  The other
operations, and those with too few or too many operands, test no kind at all. -/
def encode : Mnemonic → List String → Encoded
  | .inc, [target] =>
    if target = "DLOCCTR" then plain [0xA3] else arrangement.countOperand 0x00 target
  | .dec, [target] => arrangement.countOperand 0x10 target
  | .add, [target, source] => if target = "A" then arrangement.accumulate 0x20 source else malformed
  | .addc, target :: source :: _ =>
    if target = "A" then arrangement.accumulate 0x30 source else malformed
  | .subb, [target, source] =>
    if target = "A" then arrangement.accumulate 0x90 source else malformed
  | .orl, target :: source :: _ =>
    if target = "A" then arrangement.accumulate 0x40 source
    else if target = "C" then arrangement.combineCarry 0x72 0xA0 source
    else arrangement.combineCell 0x40 target source
  | .anl, target :: source :: _ =>
    if target = "A" then arrangement.accumulate 0x50 source
    else if target = "C" then arrangement.combineCarry 0x82 0xB0 source
    else arrangement.combineCell 0x50 target source
  | .xrl, target :: source :: _ =>
    if target = "A" then arrangement.accumulate 0x60 source
    else arrangement.combineCell 0x60 target source
  | .mov, [target, source] => arrangement.move target source
  | .movx, [target, source] => arrangement.moveExternal target source
  | .push, [cell] => do plain [0xC0, ← (arrangement.operand [.special, .hex, .dec] cell).address]
  | .pop, [cell] => do plain [0xD0, ← (arrangement.operand [.special, .hex, .dec] cell).address]
  | .xch, [target, source] => arrangement.exchange target source
  | .xchd, [target, source] => arrangement.exchangeDigit target source
  | .clr, [target] =>
    if target = "A" then plain [0xE4]
    else if target = "C" then plain [0xC3]
    else do plain [0xC2, ← (arrangement.bit [.hex, .dec, .named] target).address]
  | .setb, [target] =>
    if target = "C" then plain [0xD3]
    else do plain [0xD2, ← (arrangement.bit [.hex, .dec, .named] target).address]
  | .cpl, [target] =>
    if target = "A" then plain [0xF4]
    else if target = "C" then plain [0xB3]
    else do plain [0xB2, ← (arrangement.bit [.named, .hex, .dec] target).decimalAddress]
  | .jbc, [bit, target] => arrangement.branchOnBit "JBC" 0x10 bit target
  | .jb, [bit, target] => arrangement.branchOnBit "JB" 0x20 bit target
  | .jnb, [bit, target] => arrangement.branchOnBit "JNB" 0x30 bit target
  | .cjne, [left, right, target] => do
    Instruction.storeThenAwait "CJNE" (← arrangement.compareCells left right) target
  | .djnz, [counter, target] => do
    Instruction.storeThenAwait "DJNZ" (← arrangement.countCells counter) target
  | mnemonic, operands => mnemonic.encode operands

/-- The address of an origin directive.  The bases are tested one after the other. -/
def origin : List String → Except Refusal Nat
  | [text] => (arrangement.operand [.hex, .dec] text).address
  | _ => .error (.malformed [])

/-! ## §3. No order makes a difference. -/

theorem address_eq {tests : List ByteKind} (perm : tests.Perm [.special, .hex, .dec])
    (text : String) :
    (arrangement.operand tests text).address = directAddress text := by
  rw [arrangement.operand_of_perm perm]
  unfold directAddress
  rcases Operand.ofText text with _ | _ | _ | (_ | _) | (_ | _) | _ <;> rfl

theorem value_eq (text : String) :
    (arrangement.operand [.immediateHex, .immediateDec] text).value = immediateValue text := by
  rw [operand_eq]
  unfold immediateValue
  rcases Operand.ofText text with _ | _ | _ | (_ | _) | (_ | _) | _ <;> rfl

theorem bitAddress_eq {tests : List BitKind} (perm : tests.Perm [.named, .hex, .dec])
    (text : String) :
    (arrangement.bit tests text).address = bitAddress text := by
  rw [arrangement.bit_eq_plain perm]
  unfold bitAddress
  rcases BitOperand.ofText text with _ | _ | _ <;> rfl

theorem decimalBitAddress_eq (text : String) :
    (arrangement.bit [.named, .hex, .dec] text).decimalAddress = decimalBitAddress text := by
  rw [arrangement.bit_eq_plain (.refl _)]
  unfold decimalBitAddress
  rcases BitOperand.ofText text with _ | (_ | _) | _ <;> rfl

theorem countOperand_eq (base : Nat) (target : String) :
    arrangement.countOperand base target = Instruction.countOperand base target := by
  unfold countOperand Instruction.countOperand directAddress
  rw [operand_eq]
  rcases Operand.ofText target with _ | _ | _ | (_ | _) | (_ | _) | _ <;> rfl

theorem accumulate_eq (base : Nat) (source : String) :
    arrangement.accumulate base source = Instruction.accumulate base source := by
  unfold accumulate Instruction.accumulate
  rw [operand_eq]
  rcases Operand.ofText source with _ | _ | _ | (_ | _) | (_ | _) | _ <;> rfl

theorem combineCell_eq (base : Nat) (target source : String) :
    arrangement.combineCell base target source = Instruction.combineCell base target source := by
  unfold combineCell Instruction.combineCell
  rw [value_eq, arrangement.address_eq (.refl _)]

theorem combineCarry_eq (opcode invertedOpcode : Nat) (source : String) :
    arrangement.combineCarry opcode invertedOpcode source =
      Instruction.combineCarry opcode invertedOpcode source := by
  unfold combineCarry Instruction.combineCarry
  -- the bit behind the mark is tested without it, so only the first reading is left to compare
  simp only [arrangement.bitAddress_eq (.refl _)]
  rw [arrangement.bit_of_perm (.refl _)]
  cases marked : invertedBit? source with
  | some bit =>
    rw [BitReading.ofText_of_inverted marked]
    rfl
  | none =>
    rw [BitReading.ofText_of_unmarked marked]
    unfold bitAddress
    rcases BitOperand.ofText source with _ | (_ | _) | _ <;> rfl

theorem branchOnBit_eq (name : String) (opcode : Nat) (bit target : String) :
    arrangement.branchOnBit name opcode bit target =
      Instruction.branchOnBit name opcode [bit, target] := by
  unfold branchOnBit
  rw [decimalBitAddress_eq]
  rfl

theorem compareCells_eq (left right : String) :
    arrangement.compareCells left right = Instruction.compareCells left right := by
  unfold compareCells Instruction.compareCells
  rw [value_eq, operand_eq, operand_eq]
  split
  · rcases Operand.ofText right with _ | _ | _ | (_ | _) | (_ | _) | _ <;> rfl
  · rcases Operand.ofText left with _ | _ | _ | (_ | _) | (_ | _) | _ <;> rfl

theorem countCells_eq (counter : String) :
    arrangement.countCells counter = Instruction.countCells counter := by
  unfold countCells Instruction.countCells directAddress
  rw [operand_eq]
  rcases Operand.ofText counter with _ | _ | _ | (_ | _) | (_ | _) | _ <;> rfl

theorem moveIntoRegister_eq (fromA fromConstant fromCell : Nat) (source : String) :
    arrangement.moveIntoRegister fromA fromConstant fromCell source =
      Instruction.moveIntoRegister fromA fromConstant fromCell source := by
  unfold moveIntoRegister Instruction.moveIntoRegister directAddress
  rw [operand_eq]
  rcases Operand.ofText source with _ | _ | _ | (_ | _) | (_ | _) | _ <;> rfl

theorem moveIntoA_eq (source : String) :
    arrangement.moveIntoA source = Instruction.moveIntoA source := by
  unfold moveIntoA Instruction.moveIntoA directAddress
  rw [operand_eq]
  rcases Operand.ofText source with _ | _ | _ | (_ | _) | (_ | _) | _ <;> rfl

theorem moveIntoCell_eq (address : Nat) (source : String) :
    arrangement.moveIntoCell address source = Instruction.moveIntoCell address source := by
  unfold moveIntoCell Instruction.moveIntoCell directAddress
  rw [operand_eq]
  rcases Operand.ofText source with _ | _ | _ | (_ | _) | (_ | _) | _ <;> rfl

theorem moveElsewhere_eq (target source : String) :
    arrangement.moveElsewhere target source = Instruction.moveElsewhere target source := by
  unfold moveElsewhere Instruction.moveElsewhere directAddress
  simp only [moveIntoRegister_eq, moveIntoCell_eq, operand_eq]
  rcases Operand.ofText target with _ | _ | _ | (_ | _) | (_ | _) | _ <;> rfl

theorem move_eq (target source : String) :
    arrangement.move target source = Instruction.move [target, source] := by
  have names_last : [BitKind.hex, .dec, .named].Perm [.named, .hex, .dec] := by decide
  unfold move Instruction.move Instruction.movePointer
  simp only [moveIntoRegister_eq, moveIntoA_eq, moveElsewhere_eq, value_eq,
    arrangement.bitAddress_eq names_last]
  rw [operand_eq]
  rcases Operand.ofText target with _ | _ | _ | (_ | _) | (_ | _) | _ <;> rfl

theorem moveExternal_eq (target source : String) :
    arrangement.moveExternal target source = Instruction.moveExternal [target, source] := by
  simp only [moveExternal, Instruction.moveExternal, operand_eq]
  split
  · split
    · rfl
    · rcases Operand.ofText source with _ | _ | _ | (_ | _) | (_ | _) | _ <;> rfl
  · rcases Operand.ofText target with _ | _ | _ | (_ | _) | (_ | _) | _ <;> rfl

theorem exchange_eq (target source : String) :
    arrangement.exchange target source = Instruction.exchange [target, source] := by
  have names_last : [ByteKind.hex, .dec, .special].Perm [.special, .hex, .dec] := by decide
  simp only [exchange, Instruction.exchange, arrangement.address_eq names_last]
  rw [operand_eq]
  split
  next accumulator =>
    -- the accumulator has an address, so the last of the three tests is always passed
    have own : directAddress target = .ok 0xE0 := by
      rw [accumulator]
      rfl
    rw [own]
    rcases Operand.ofText source with _ | _ | _ | (_ | _) | (_ | _) | _ <;> rfl
  · rfl

theorem exchangeDigit_eq (target source : String) :
    arrangement.exchangeDigit target source = Instruction.exchangeDigit [target, source] := by
  simp only [exchangeDigit, Instruction.exchangeDigit, operand_eq]
  rcases Operand.ofText source with _ | _ | _ | (_ | _) | (_ | _) | _ <;> rfl

/-- **No order of the tests changes an encoding.** -/
theorem encode_eq (mnemonic : Mnemonic) (operands : List String) :
    arrangement.encode mnemonic operands = mnemonic.encode operands := by
  have names_last : [BitKind.hex, .dec, .named].Perm [.named, .hex, .dec] := by decide
  unfold encode
  simp only [countOperand_eq, accumulate_eq, combineCell_eq, combineCarry_eq, branchOnBit_eq,
    compareCells_eq, countCells_eq, move_eq, moveExternal_eq, exchange_eq, exchangeDigit_eq,
    arrangement.address_eq (.refl _), arrangement.bitAddress_eq names_last, decimalBitAddress_eq]
  -- now every arm is what the encoder does with so many operands, the last one for all that are
  -- left
  split <;> rfl

/-- No order of the tests changes an origin. -/
theorem origin_eq (operands : List String) :
    arrangement.origin operands = Mcs51.origin operands := by
  rcases operands with _ | ⟨text, _ | ⟨_, _⟩⟩
  · rfl
  · simp only [origin, Mcs51.origin, operand_eq]
    cases plain : Numeral.ofText? text.toList with
    | some numeral =>
      rw [(Operand.reads_of_ofText? plain).1]
      cases numeral <;> rfl
    | none =>
      -- what is read as a cell would be a plain number, and nothing else is tested
      cases read : Operand.ofText text with
      | direct address =>
        have written : Numeral.ofText? text.toList = some address := Operand.spells_of_ofText read
        exact absurd (plain.symm.trans written) (by simp)
      | immediate constant => cases constant <;> rfl
      | _ => rfl
  · rfl

end Arrangement

/-- **No operand is of two kinds, so no order of the tests makes a difference.**  At most one of the
seven kinds of bytes accepts a text, and at most one of the four kinds of bits.  Whichever of the
tests are tried, and in whatever order, the first kind that accepts the text is the only one that
does.  So every operation, and the origin directive, may try its tests in any order: they are
encoded as if each operand were read once and for all. -/
theorem operand_kinds_disjoint (text : String) :
    [ByteKind.indirect, .register, .special, .hex, .dec, .immediateHex, .immediateDec].countP
        (·.accepts text) ≤ 1 ∧
    [BitKind.inverted, .named, .hex, .dec].countP (·.accepts text) ≤ 1 ∧
    (∀ (order : List ByteKind) (kind : ByteKind),
      order.find? (·.accepts text) = some kind ↔ kind ∈ order ∧ kind.accepts text = true) ∧
    (∀ (order : List BitKind) (kind : BitKind),
      order.find? (·.accepts text) = some kind ↔ kind ∈ order ∧ kind.accepts text = true) ∧
    ∀ (arrangement : Arrangement) (operands : List String),
      (∀ mnemonic, arrangement.encode mnemonic operands = mnemonic.encode operands) ∧
        arrangement.origin operands = origin operands := by
  refine ⟨?_, ?_, ?_, ?_, ?_⟩
  · exact (ByteKind.passesOwn text).countP_le_one (by decide)
  · exact (BitKind.passesOwn text).countP_le_one (by decide)
  · intro order kind
    exact (ByteKind.passesOwn text).find?_eq_some_iff
  · intro order kind
    exact (BitKind.passesOwn text).find?_eq_some_iff
  · intro arrangement operands
    exact ⟨fun mnemonic => arrangement.encode_eq mnemonic operands, arrangement.origin_eq operands⟩

-- A bit may be named like a register: bytes and bits are not told apart by their spelling.
example : ByteKind.register.accepts "RS0" = true ∧ BitKind.named.accepts "RS0" = true := by decide

end Mcs51
