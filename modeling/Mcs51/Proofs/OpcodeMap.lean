/-
  Mcs51.Proofs.OpcodeMap — the first cell of an instruction tells its operation and its length.

  The operation codes are laid out so that no two operations share one, and so that all instructions
  under one code are equally long.  The opcode map says so as a table: it is indexed by the first
  cell and gives the operation and the number of cells.  Every instruction is found in it, except
  that the increment of the data pointer is found as a multiplication.  So code can be cut into
  instructions in one way only.

  Main definitions:
    * `OpcodeMap.rows`, `OpcodeMap.entry?` : the table;
    * `OpcodeMap.Lists` : cells that the table describes;
    * `Coded` : an accepted instruction with a fixed operation code and existing registers.

  Main statements:
    * `Coded.listed` : every such instruction is in the table;
    * `Coded.eq_of_flatMap_cells_eq` : code can be cut in one way only;
    * `first_cell_decodes` : both, for all pairs of instructions.
-/
import Mcs51.Proofs.EncodingShape

namespace Mcs51

/-! ## §1. The table. -/

/-- Operation codes that belong to one operation and have the same number of cells. -/
structure OpcodeRow where
  /-- The first of the codes. -/
  first : Nat
  /-- The last of them. -/
  last : Nat
  /-- Their operation. -/
  mnemonic : Mnemonic
  /-- The number of cells of each instruction. -/
  length : Nat
  deriving Repr, DecidableEq

namespace OpcodeMap

/-- The operation codes in use, in ascending order. -/
def rows : List OpcodeRow :=
  [⟨0x01, 0x01, .nop, 1⟩, ⟨0x03, 0x03, .rr, 1⟩, ⟨0x04, 0x04, .inc, 1⟩, ⟨0x05, 0x05, .inc, 2⟩,
   ⟨0x06, 0x0F, .inc, 1⟩,
   ⟨0x10, 0x10, .jbc, 3⟩, ⟨0x13, 0x13, .rrc, 1⟩, ⟨0x14, 0x14, .dec, 1⟩, ⟨0x15, 0x15, .dec, 2⟩,
   ⟨0x16, 0x1F, .dec, 1⟩,
   ⟨0x20, 0x20, .jb, 3⟩, ⟨0x22, 0x22, .ret, 1⟩, ⟨0x23, 0x23, .rl, 1⟩, ⟨0x24, 0x25, .add, 2⟩,
   ⟨0x26, 0x2F, .add, 1⟩,
   ⟨0x30, 0x30, .jnb, 3⟩, ⟨0x32, 0x32, .reti, 1⟩, ⟨0x33, 0x33, .rlc, 1⟩, ⟨0x34, 0x35, .addc, 2⟩,
   ⟨0x36, 0x3F, .addc, 1⟩,
   ⟨0x40, 0x40, .jc, 2⟩, ⟨0x42, 0x42, .orl, 2⟩, ⟨0x43, 0x43, .orl, 3⟩, ⟨0x44, 0x45, .orl, 2⟩,
   ⟨0x46, 0x4F, .orl, 1⟩,
   ⟨0x50, 0x50, .jnc, 2⟩, ⟨0x52, 0x52, .anl, 2⟩, ⟨0x53, 0x53, .anl, 3⟩, ⟨0x54, 0x55, .anl, 2⟩,
   ⟨0x56, 0x5F, .anl, 1⟩,
   ⟨0x60, 0x60, .jz, 2⟩, ⟨0x62, 0x62, .xrl, 2⟩, ⟨0x63, 0x63, .xrl, 3⟩, ⟨0x64, 0x65, .xrl, 2⟩,
   ⟨0x66, 0x6F, .xrl, 1⟩,
   ⟨0x70, 0x70, .jnz, 2⟩, ⟨0x72, 0x72, .orl, 2⟩, ⟨0x73, 0x73, .jmp, 1⟩, ⟨0x74, 0x74, .mov, 2⟩,
   ⟨0x75, 0x75, .mov, 3⟩, ⟨0x76, 0x7F, .mov, 2⟩,
   ⟨0x80, 0x80, .sjmp, 2⟩, ⟨0x82, 0x82, .anl, 2⟩, ⟨0x84, 0x84, .div, 1⟩, ⟨0x85, 0x85, .mov, 3⟩,
   ⟨0x86, 0x8F, .mov, 2⟩,
   ⟨0x90, 0x90, .mov, 3⟩, ⟨0x92, 0x92, .mov, 2⟩, ⟨0x93, 0x93, .movc, 1⟩, ⟨0x94, 0x95, .subb, 2⟩,
   ⟨0x96, 0x9F, .subb, 1⟩,
   ⟨0xA0, 0xA0, .orl, 2⟩, ⟨0xA2, 0xA2, .mov, 2⟩, ⟨0xA3, 0xA3, .mul, 1⟩, ⟨0xA6, 0xAF, .mov, 2⟩,
   ⟨0xB0, 0xB0, .anl, 2⟩, ⟨0xB2, 0xB2, .cpl, 2⟩, ⟨0xB3, 0xB3, .cpl, 1⟩, ⟨0xB4, 0xBF, .cjne, 3⟩,
   ⟨0xC0, 0xC0, .push, 2⟩, ⟨0xC2, 0xC2, .clr, 2⟩, ⟨0xC3, 0xC3, .clr, 1⟩, ⟨0xC4, 0xC4, .swap, 1⟩,
   ⟨0xC5, 0xC5, .xch, 2⟩, ⟨0xC6, 0xCF, .xch, 1⟩,
   ⟨0xD0, 0xD0, .pop, 2⟩, ⟨0xD2, 0xD2, .setb, 2⟩, ⟨0xD3, 0xD3, .setb, 1⟩, ⟨0xD4, 0xD4, .da, 1⟩,
   ⟨0xD5, 0xD5, .djnz, 3⟩, ⟨0xD6, 0xD7, .xchd, 1⟩, ⟨0xD8, 0xDF, .djnz, 2⟩,
   ⟨0xE0, 0xE0, .movx, 1⟩, ⟨0xE2, 0xE3, .movx, 1⟩, ⟨0xE4, 0xE4, .clr, 1⟩, ⟨0xE5, 0xE5, .mov, 2⟩,
   ⟨0xE6, 0xEF, .mov, 1⟩,
   ⟨0xF2, 0xF3, .movx, 1⟩, ⟨0xF4, 0xF4, .cpl, 1⟩, ⟨0xF5, 0xF5, .mov, 2⟩, ⟨0xF6, 0xFF, .mov, 1⟩]

/-- The operation of a code and the number of its cells. -/
def entry? (opcode : Nat) : Option (Mnemonic × Nat) :=
  (rows.find? fun row => row.first ≤ opcode && opcode ≤ row.last).map fun row =>
    (row.mnemonic, row.length)

/-- The table describes the cells: their first one belongs to the operation, and there are as many
as the table says. -/
def Lists (mnemonic : Mnemonic) (cells : List Nat) : Prop :=
  cells.head?.bind entry? = some (mnemonic, cells.length)

/-- Cells that begin alike are equally long, and they belong to the same operation. -/
theorem Lists.eq_of_head?_eq {mnemonic other : Mnemonic} {cells cells' : List Nat}
    (h : Lists mnemonic cells) (h' : Lists other cells') (same : cells.head? = cells'.head?) :
    mnemonic = other ∧ cells.length = cells'.length := by
  unfold Lists at h h'
  rw [same] at h
  exact Prod.mk.inj (Option.some.inj (h.symm.trans h'))

end OpcodeMap

open OpcodeMap

/-! ## §2. Registers. -/

/-- **The operand names a register that exists**, if it names one at all: there are eight registers,
and two of them point to cells. -/
def Operand.InRange (text : String) : Prop :=
  (∀ digit ∈ Shape.register.capture? text.toList, ∀ n ∈ (registerNumber digit).toOption, n ≤ 7) ∧
    ∀ digit ∈ Shape.indirect.capture? text.toList, ∀ n ∈ (registerNumber digit).toOption, n ≤ 1

instance (text : String) : Decidable (Operand.InRange text) :=
  inferInstanceAs (Decidable ((∀ digit ∈ Shape.register.capture? text.toList, _) ∧ _))

namespace Operand

variable {text : String} {digit : List Char} {n : Nat}

theorem toOption_of_registerOf (h : registerOf digit = .ok n) :
    (registerNumber digit).toOption = some n := by
  unfold registerOf at h
  cases number : registerNumber digit with
  | error crash =>
    rw [number] at h
    exact nomatch h
  | ok m =>
    rw [number] at h
    exact congrArg some (Except.ok.inj h)

theorem InRange.register (inRange : InRange text) (named : IsRegister text n) : n < 8 := by
  obtain ⟨digit, kind, number⟩ := named
  have captured : Shape.register.capture? text.toList = some digit := by
    unfold ofText at kind
    split at kind
    · exact absurd kind (by simp)
    · split at kind
      next found => exact found.trans (congrArg some (Operand.register.inj kind))
      · -- the other kinds are no registers
        repeat' split at kind
        all_goals exact absurd kind (by simp)
  exact Nat.lt_succ_of_le (inRange.1 digit captured n (toOption_of_registerOf number))

theorem InRange.pointer (inRange : InRange text) (named : IsPointer text n) : n < 2 := by
  obtain ⟨digit, kind, number⟩ := named
  have captured : Shape.indirect.capture? text.toList = some digit := by
    unfold ofText at kind
    split at kind
    next found => exact found.trans (congrArg some (Operand.indirect.inj kind))
    · repeat' split at kind
      all_goals exact absurd kind (by simp)
  exact Nat.lt_succ_of_le (inRange.2 digit captured n (toOption_of_registerOf number))

end Operand

/-! ## §3. Families of codes. -/

/-- The table describes the cells of an encoding. -/
def Encoding.Listed (mnemonic : Mnemonic) (encoding : Encoding) : Prop :=
  Lists mnemonic encoding.cells

namespace Instruction

variable {mnemonic : Mnemonic} {base : Nat} {operands : List String} {target source : String}

/-! Operations whose first operand may be a register. -/

section First

variable (inRange : ∀ text ∈ operands[0]?.toList, Operand.InRange text)
include inRange

theorem countOperand_listed (accumulator : entry? (base + 4) = some (mnemonic, 1))
    (cell : entry? (base + 5) = some (mnemonic, 2))
    (pointers : ∀ n < 2, entry? (base + 6 + n) = some (mnemonic, 1))
    (registers : ∀ n < 8, entry? (base + 8 + n) = some (mnemonic, 1)) :
    ∀ target ∈ operands[0]?, Yields (Encoding.Listed mnemonic) (countOperand base target) := by
  intro target among
  have exists_target := inRange target (Option.mem_toList.2 among)
  refine countOperand_yields (fun _ => accumulator) (fun _ _ => cell) ?_ ?_
  · exact fun n named => pointers n (exists_target.pointer named)
  · exact fun n named => registers n (exists_target.register named)

theorem compareBranch_listed : Yields (Encoding.Listed .cjne) (compareBranch operands) := by
  have pointers : ∀ n < 2, entry? (0xB6 + n) = some (.cjne, 3) := by decide
  have registers : ∀ n < 8, entry? (0xB8 + n) = some (.cjne, 3) := by decide
  refine compareBranch_yields fun left among right _ => ?_
  have exists_left := inRange left (Option.mem_toList.2 among)
  refine compareCells_yields (fun _ _ _ _ => rfl) (fun _ _ _ _ => rfl) ?_ ?_
  · exact fun n _ named _ _ => pointers n (exists_left.pointer named)
  · exact fun n _ named _ _ => registers n (exists_left.register named)

theorem countBranch_listed : Yields (Encoding.Listed .djnz) (countBranch operands) := by
  have registers : ∀ n < 8, entry? (0xD8 + n) = some (.djnz, 2) := by decide
  refine countBranch_yields fun counter among => countCells_yields (fun _ _ _ => rfl) ?_
  exact fun n named _ => registers n ((inRange counter (Option.mem_toList.2 among)).register named)

end First

/-! Operations whose second operand may be one. -/

section Second

variable (inRange : ∀ text ∈ operands[1]?.toList, Operand.InRange text)
include inRange

theorem accumulate_listed (constant : entry? (base + 4) = some (mnemonic, 2))
    (cell : entry? (base + 5) = some (mnemonic, 2))
    (pointers : ∀ n < 2, entry? (base + 6 + n) = some (mnemonic, 1))
    (registers : ∀ n < 8, entry? (base + 8 + n) = some (mnemonic, 1)) :
    ∀ source ∈ operands[1]?, Yields (Encoding.Listed mnemonic) (accumulate base source) := by
  intro source among
  have exists_source := inRange source (Option.mem_toList.2 among)
  refine accumulate_yields (fun _ _ => constant) (fun _ _ => cell) ?_ ?_
  · exact fun n named => pointers n (exists_source.pointer named)
  · exact fun n named => registers n (exists_source.register named)

theorem exchange_listed : Yields (Encoding.Listed .xch) (exchange operands) := by
  have pointers : ∀ n < 2, entry? (0xC6 + n) = some (.xch, 1) := by decide
  have registers : ∀ n < 8, entry? (0xC8 + n) = some (.xch, 1) := by decide
  refine exchange_yields ?_ ?_ (by rfl)
  · exact fun source among n named =>
      pointers n ((inRange source (Option.mem_toList.2 among)).pointer named)
  · exact fun source among n named =>
      registers n ((inRange source (Option.mem_toList.2 among)).register named)

theorem exchangeDigit_listed : Yields (Encoding.Listed .xchd) (exchangeDigit operands) := by
  have pointers : ∀ n < 2, entry? (0xD6 + n) = some (.xchd, 1) := by decide
  refine exchangeDigit_yields ?_
  exact fun source among n named =>
    pointers n ((inRange source (Option.mem_toList.2 among)).pointer named)

end Second

/-! Operations both of whose operands may be one. -/

theorem moveIntoRegister_listed {fromA fromConstant fromCell : Nat}
    (rows : entry? fromA = some (.mov, 1) ∧ entry? fromConstant = some (.mov, 2) ∧
      entry? fromCell = some (.mov, 2)) (source : String) :
    Yields (Encoding.Listed .mov) (moveIntoRegister fromA fromConstant fromCell source) :=
  moveIntoRegister_yields (fun _ => rows.1) (fun _ _ => rows.2.1) (fun _ _ _ => rows.2.2)

theorem movePair_listed (exists_target : Operand.InRange target)
    (exists_source : Operand.InRange source) :
    Yields (Encoding.Listed .mov) (move [target, source]) := by
  -- into a register or the cell it points to
  have intoPointed : ∀ n < 2, entry? (0xF6 + n) = some (.mov, 1) ∧
      entry? (0x76 + n) = some (.mov, 2) ∧ entry? (0xA6 + n) = some (.mov, 2) := by decide
  have intoRegister : ∀ n < 8, entry? (0xF8 + n) = some (.mov, 1) ∧
      entry? (0x78 + n) = some (.mov, 2) ∧ entry? (0xA8 + n) = some (.mov, 2) := by decide
  -- out of one, into the accumulator or a cell
  have pointers : ∀ n < 2, entry? (0xE6 + n) = some (.mov, 1) ∧
      entry? (0x86 + n) = some (.mov, 2) := by decide
  have registers : ∀ n < 8, entry? (0xE8 + n) = some (.mov, 1) ∧
      entry? (0x88 + n) = some (.mov, 2) := by decide
  refine movePair_yields ?_ (fun _ => ?_) (fun _ _ _ => rfl) (fun _ _ _ => rfl) (fun _ _ _ => rfl)
    (fun _ => ?_)
  · intro n named
    exact moveIntoRegister_listed (intoPointed n (exists_target.pointer named)) source
  · refine moveIntoA_yields ?_ ?_ (fun _ _ => rfl) (fun _ _ => rfl)
    · exact fun n named => (pointers n (exists_source.pointer named)).1
    · exact fun n named => (registers n (exists_source.register named)).1
  · refine moveElsewhere_yields ?_ fun address _ => ?_
    · intro n named
      exact moveIntoRegister_listed (intoRegister n (exists_target.register named)) source
    · refine moveIntoCell_yields (fun _ => rfl) (fun _ _ => rfl) ?_ ?_ (fun _ _ => rfl)
      · exact fun n named => (registers n (exists_source.register named)).2
      · exact fun n named => (pointers n (exists_source.pointer named)).2

section Both

variable (inRange : ∀ text ∈ operands, Operand.InRange text)
include inRange

theorem move_listed : Yields (Encoding.Listed .mov) (move operands) := by
  refine move_yields fun target among source among' => ?_
  exact movePair_listed (inRange target (List.mem_of_getElem? among))
    (inRange source (List.mem_of_getElem? among'))

theorem moveExternal_listed : Yields (Encoding.Listed .movx) (moveExternal operands) := by
  have reads : ∀ n < 2, entry? (0xE2 + n) = some (.movx, 1) := by decide
  have writes : ∀ n < 2, entry? (0xF2 + n) = some (.movx, 1) := by decide
  refine moveExternal_yields (by rfl) ?_ ?_
  · exact fun source among n named =>
      reads n ((inRange source (List.mem_of_getElem? among)).pointer named)
  · exact fun target among n named =>
      writes n ((inRange target (List.mem_of_getElem? among)).pointer named)

end Both

/-! Jumps and calls. -/

/-- A jump or call always refers to a label. -/
theorem jumpTo_labelled (name : String) (size : Nat) (operands : List String) :
    Yields (fun encoding => encoding.label ≠ none) (jumpTo name size operands) :=
  jumpTo_yields (fun label => by simp) operands

/-- The jump through the data pointer has a code of its own. -/
theorem jump_listed (operands : List String) :
    Yields (fun encoding => encoding.label = none → encoding.Listed .jmp) (jump operands) :=
  jump_yields (fun _ => rfl) (fun label none => absurd none (by simp)) operands

end Instruction

/-! ## §4. All instructions. -/

namespace Mnemonic

/-- The jumps and calls that get their operation code when they are linked. -/
def jumps : List Mnemonic :=
  [.ajmp, .acall, .ljmp, .lcall, .jmp]

/-- The operands that may name a register. -/
def registerOperands (operands : List String) : Mnemonic → List String
  | .inc | .dec | .cjne | .djnz => operands[0]?.toList
  | .add | .addc | .subb | .orl | .anl | .xrl | .xch | .xchd => operands[1]?.toList
  | .mov | .movx => operands
  | _ => []

/-- The operation under which an instruction is listed.  The increment of the data pointer has the
code of the multiplication. -/
def listedAs (operands : List String) (mnemonic : Mnemonic) : Mnemonic :=
  if mnemonic = .inc ∧ operands = ["DLOCCTR"] then .mul else mnemonic

end Mnemonic

/-- **An accepted instruction with an operation code of its own**: no jump or call that waits for
its label, and no register that does not exist. -/
structure Coded where
  mnemonic : Mnemonic
  operands : List String
  encoding : Encoding
  /-- The instruction is accepted. -/
  encoded : mnemonic.encode operands = .ok encoding
  /-- A jump or call does not wait for a label. -/
  settled : mnemonic ∈ Mnemonic.jumps → encoding.label = none
  /-- All registers exist. -/
  inRange : ∀ text ∈ mnemonic.registerOperands operands, Operand.InRange text

namespace Coded

open Instruction

/-- The cells of the instruction. -/
def cells (x : Coded) : List Nat :=
  x.encoding.cells

theorem cells_ne_nil (x : Coded) : x.cells ≠ [] :=
  (Mnemonic.shaped_of_encode x.encoded).nonempty

/-- **Every instruction is in the table.** -/
theorem listed (x : Coded) : Lists (x.mnemonic.listedAs x.operands) x.cells := by
  obtain ⟨mnemonic, operands, encoding, encoded, settled, inRange⟩ := x
  show encoding.Listed (mnemonic.listedAs operands)
  by_cases dataPointer : mnemonic = .inc ∧ operands = ["DLOCCTR"]
  · obtain ⟨rfl, rfl⟩ := dataPointer
    rw [Mnemonic.listedAs, if_pos ⟨rfl, rfl⟩]
    exact yields_plain (show Encoding.Listed .mul (.ofCells [0xA3]) from rfl) encoding encoded
  rw [Mnemonic.listedAs, if_neg dataPointer]
  -- of a jump or call only the form without a label remains
  have always : Yields (Encoding.Listed mnemonic) (mnemonic.encode operands) →
      encoding.Listed mnemonic := fun yields => yields encoding encoded
  have never : ∀ {name size}, mnemonic ∈ Mnemonic.jumps → jumpTo name size operands = .ok encoding →
      encoding.Listed mnemonic :=
    fun among jumps => absurd (settled among) (jumpTo_labelled _ _ _ encoding jumps)
  cases mnemonic with
  | nop | ret | reti => exact always (yields_plain (by rfl))
  | rr | rrc | rl => exact always (rotate_yields (by rfl) operands)
  | rlc => exact always (rotateThroughCarry_yields (by rfl) operands)
  | inc =>
    exact always (increment_yields (fun named => absurd ⟨rfl, named⟩ dataPointer)
      (countOperand_listed inRange rfl rfl (by decide) (by decide)))
  | dec =>
    exact always (decrement_yields (countOperand_listed inRange rfl rfl (by decide) (by decide)))
  | add | subb =>
    exact always (addInto_yields fun _ => accumulate_listed inRange rfl rfl (by decide) (by decide))
  | addc =>
    exact always
      (addIntoLoosely_yields fun _ => accumulate_listed inRange rfl rfl (by decide) (by decide))
  | orl | anl =>
    exact always
      (combineOrCarry_yields (fun _ => accumulate_listed inRange rfl rfl (by decide) (by decide))
        (fun _ _ _ _ => combineCell_yields (fun _ _ _ => by rfl) (fun _ _ _ _ => by rfl))
        (fun _ _ _ => combineCarry_yields (fun _ _ => by rfl) (fun _ _ _ _ => by rfl)))
  | xrl =>
    exact always (combine_yields
      (fun _ => accumulate_listed inRange rfl rfl (by decide) (by decide))
      (fun _ _ _ _ => combineCell_yields (fun _ _ _ => rfl) (fun _ _ _ _ => rfl)))
  | mul | div => exact always (onPair_yields (by rfl) operands)
  | swap | da => exact always (onAccumulator_yields (by rfl) operands)
  | mov => exact always (move_listed inRange)
  | movc => exact always (moveCode_yields (by rfl) operands)
  | movx => exact always (moveExternal_listed inRange)
  | push | pop => exact always (stack_yields fun _ _ _ _ => rfl)
  | xch => exact always (exchange_listed inRange)
  | xchd => exact always (exchangeDigit_listed inRange)
  | clr => exact always (clear_yields (fun _ => rfl) (fun _ => rfl) (fun _ _ _ _ => rfl))
  | setb => exact always (setBit_yields (fun _ => rfl) (fun _ _ _ _ => rfl))
  | cpl => exact always (complement_yields (fun _ => rfl) (fun _ => rfl) (fun _ _ _ _ => rfl))
  | ajmp | acall | ljmp | lcall => exact never (by decide) encoded
  | jmp => exact jump_listed operands encoding encoded (settled (by decide))
  | jc | jnc | jz | jnz | sjmp => exact always (branch_yields fun _ _ _ _ => rfl)
  | jbc | jb | jnb => exact always (branchOnBit_yields fun _ _ _ _ _ _ _ => rfl)
  | cjne => exact always (compareBranch_listed inRange)
  | djnz => exact always (countBranch_listed inRange)

/-- Instructions that begin alike are equally long. -/
theorem length_eq_of_head?_eq {x y : Coded} (same : x.cells.head? = y.cells.head?) :
    x.cells.length = y.cells.length :=
  (x.listed.eq_of_head?_eq y.listed same).2

/-- **Code can be cut into instructions in one way only.** -/
theorem eq_of_flatMap_cells_eq {xs ys : List Coded}
    (same : xs.flatMap cells = ys.flatMap cells) : xs.map cells = ys.map cells := by
  induction xs generalizing ys with
  | nil =>
    cases ys with
    | nil => rfl
    | cons y ys => exact absurd same.symm (by simp [y.cells_ne_nil])
  | cons x xs ih =>
    cases ys with
    | nil => exact absurd same (by simp [x.cells_ne_nil])
    | cons y ys =>
      rw [List.flatMap_cons, List.flatMap_cons] at same
      -- the first cell decides where the first instruction ends
      have heads : x.cells.head? = y.cells.head? := by
        have := congrArg List.head? same
        rwa [List.head?_append, List.head?_append, Option.or_of_isSome (by simp [x.cells_ne_nil]),
          Option.or_of_isSome (by simp [y.cells_ne_nil])] at this
      obtain ⟨first, others⟩ := List.append_inj same (length_eq_of_head?_eq heads)
      rw [List.map_cons, List.map_cons, first, ih others]

/-- The pair of instructions that share a code: the increment of the data pointer and the
multiplication. -/
def SharesCode (x y : Coded) : Prop :=
  x.mnemonic = .inc ∧ x.operands = ["DLOCCTR"] ∧ y.mnemonic = .mul ∧ y.operands.head? = some "AB" ∧
    x.cells = [0xA3] ∧ y.cells = [0xA3]

/-- The increment of the data pointer shares its code with every multiplication. -/
theorem sharesCode_of_pointer {x y : Coded} (isInc : x.mnemonic = .inc)
    (pointer : x.operands = ["DLOCCTR"]) (isMul : y.mnemonic = .mul) : x.SharesCode y := by
  have counted : Instruction.increment ["DLOCCTR"] = .ok x.encoding := by
    have := x.encoded
    rwa [isInc, pointer] at this
  have multiplied : Instruction.onPair 0xA3 y.operands = .ok y.encoding := by
    have := y.encoded
    rwa [isMul] at this
  refine ⟨isInc, pointer, isMul, ?_⟩
  have cells_eq : x.cells = [0xA3] := (congrArg Encoding.cells (Except.ok.inj counted)).symm
  unfold Instruction.onPair at multiplied
  split at multiplied
  · exact absurd multiplied (by simp [Encoded.missing])
  next target rest operands_eq =>
    split at multiplied
    next pair =>
      rw [operands_eq, pair]
      exact ⟨rfl, cells_eq, (congrArg Encoding.cells (Except.ok.inj multiplied)).symm⟩
    · exact absurd multiplied (by simp [Encoded.malformed])

/-- Instructions that begin alike belong to the same operation, or they are that pair. -/
theorem mnemonic_eq_or_sharesCode {x y : Coded} (same : x.cells.head? = y.cells.head?) :
    x.mnemonic = y.mnemonic ∨ x.SharesCode y ∨ y.SharesCode x := by
  have listed_eq : x.mnemonic.listedAs x.operands = y.mnemonic.listedAs y.operands :=
    (x.listed.eq_of_head?_eq y.listed same).1
  unfold Mnemonic.listedAs at listed_eq
  split at listed_eq
  next left =>
    split at listed_eq
    next right => exact Or.inl (left.1.trans right.1.symm)
    · exact Or.inr (Or.inl (sharesCode_of_pointer left.1 left.2 listed_eq.symm))
  · split at listed_eq
    next right => exact Or.inr (Or.inr (sharesCode_of_pointer right.1 right.2 listed_eq))
    · exact Or.inl listed_eq

end Coded

/-- **The first cell of an instruction decides how it is read.**  Two instructions that begin with
the same cell are equally long, and they are of the same operation, except for the increment of the
data pointer and the multiplication.  So if two sequences of instructions have the same code, they
have the same instruction boundaries. -/
theorem first_cell_decodes :
    (∀ x y : Coded, x.cells.head? = y.cells.head? → x.cells.length = y.cells.length ∧
      (x.mnemonic = y.mnemonic ∨ x.SharesCode y ∨ y.SharesCode x)) ∧
    ∀ xs ys : List Coded, xs.flatMap Coded.cells = ys.flatMap Coded.cells →
      xs.map Coded.cells = ys.map Coded.cells := by
  refine ⟨?_, ?_⟩
  · intro x y same
    exact ⟨Coded.length_eq_of_head?_eq same, Coded.mnemonic_eq_or_sharesCode same⟩
  · intro xs ys same
    exact Coded.eq_of_flatMap_cells_eq same

/-- The increment of the data pointer. -/
def pointerIncrement : Coded where
  mnemonic := .inc
  operands := ["DLOCCTR"]
  encoding := ⟨[0xA3], none, false⟩
  encoded := rfl
  settled := by decide
  inRange := by decide +kernel

/-- A multiplication. -/
def multiplication : Coded where
  mnemonic := .mul
  operands := ["AB"]
  encoding := ⟨[0xA3], none, false⟩
  encoded := rfl
  settled := by decide
  inRange := by decide

/-- A branch whose label looks like a register. -/
def branchToRegister : Coded where
  mnemonic := .djnz
  operands := ["R7", "R9LOOP"]
  encoding := ⟨[0xDF, placeholder], some ⟨"DJNZ", "R9LOOP"⟩, false⟩
  encoded := by rfl
  settled := by decide
  inRange := by decide +kernel

/-- The two instructions that share a code, each in front of a branch: the boundaries are the same,
and the operations are not. -/
theorem first_cell_decodes_pair :
    [pointerIncrement, branchToRegister].map Coded.cells
        = [multiplication, branchToRegister].map Coded.cells ∧
      pointerIncrement.mnemonic ≠ multiplication.mnemonic ∧
      (pointerIncrement.SharesCode multiplication ∨
        multiplication.SharesCode pointerIncrement) := by
  obtain ⟨decodes, cuts⟩ := first_cell_decodes
  have differ : pointerIncrement.mnemonic ≠ multiplication.mnemonic := by decide
  refine ⟨cuts _ _ rfl, differ, ?_⟩
  exact (decodes pointerIncrement multiplication rfl).2.resolve_left differ

end Mcs51
