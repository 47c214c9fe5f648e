/-
  Mcs51.Proofs.RegisterOperands — how operands that begin like a register are read.

  There are eight registers, and two of them point to cells.  Each operation that takes them has a
  block of codes for them, one for each register.  An operand is read as a register by its opening
  and by the one character behind it, which may be the digit of any script.  What follows is not
  looked at, and the digit is added to the first code of the block without regard to how long the
  block is.  So the instruction stays in its block exactly if the digit is that of an existing
  register, and the operand is the name of one only if in addition it is written in plain digits and
  ends there.

  Main definitions:
    * `RegisterKind` : registers, and registers that point to cells;
    * `RegisterKind.Spelled` : how an operand is read as a register;
    * `Mnemonic.blocks` : the blocks of codes of an operation;
    * `Encoding.Registers` : every register among the operands selects a code of a block.

  Main statements:
    * `registers_of_encode` : all accepted instructions do;
    * `takes_of_names` : every block is reached, by every operand that is read as a register;
    * `register_operand_iff` : when the operand is a register's name, and when the code is in the
      block.
-/
import Mcs51.Proofs.DirectOperands

namespace Mcs51

/-! ## §1. The two kinds of registers. -/

/-- What an operand that begins like a register denotes. -/
inductive RegisterKind where
  /-- The register itself. -/
  | register
  /-- The cell that it points to. -/
  | pointer
  deriving Repr, DecidableEq

namespace RegisterKind

/-- What such operands begin with. -/
def opening : RegisterKind → List Char
  | .register => ['R']
  | .pointer => ['@', 'R']

/-- The number of registers of the kind. -/
def count : RegisterKind → Nat
  | .register => 8
  | .pointer => 2

/-- Where the block of the kind begins, above the base of an operation. -/
def offset : RegisterKind → Nat
  | .register => 8
  | .pointer => 6

/-- The names of the registers. -/
def names (kind : RegisterKind) : List String :=
  (List.range kind.count).map fun n => String.ofList (kind.opening ++ [n.digitChar])

example : register.names = ["R0", "R1", "R2", "R3", "R4", "R5", "R6", "R7"] ∧
    pointer.names = ["@R0", "@R1"] := by decide

/-- The operand of the kind with the given digit. -/
def operand : RegisterKind → List Char → Operand
  | .register => .register
  | .pointer => .indirect

/-- The operand is read as the register of the given number. -/
def Names (kind : RegisterKind) (text : String) (n : Nat) : Prop :=
  ∃ digit, Operand.ofText text = kind.operand digit ∧ registerOf digit = .ok n

/-- The operand consists of the opening, the character `c` and the rest, and `c` is the digit `n` of
some script. -/
def Spelled (kind : RegisterKind) (text : String) (c : Char) (rest : List Char) (n : Nat) : Prop :=
  text.toList = kind.opening ++ c :: rest ∧ Text.decimalValue? c = some n

/-- The code belongs to the block that begins with the given one. -/
def InBlock (kind : RegisterKind) (first code : Nat) : Prop :=
  first ≤ code ∧ code < first + kind.count

instance (kind : RegisterKind) (text : String) (c : Char) (rest : List Char) (n : Nat) :
    Decidable (kind.Spelled text c rest n) :=
  inferInstanceAs (Decidable (_ ∧ _))

instance (kind : RegisterKind) (first code : Nat) : Decidable (kind.InBlock first code) :=
  inferInstanceAs (Decidable (_ ∧ _))

variable {kind other : RegisterKind} {text : String} {c : Char} {tail rest digit digit' : List Char}
  {n : Nat}

theorem count_le (kind : RegisterKind) : kind.count ≤ 8 := by
  cases kind <;> decide

theorem operand_inj (same : kind.operand digit = other.operand digit') :
    kind = other ∧ digit = digit' := by
  cases kind <;> cases other <;> simp_all [operand]

/-! ## §2. Spellings. -/

/-- Whatever begins like a register is one, with at most one digit. -/
theorem ofText_of_opening (spelled : text.toList = kind.opening ++ tail) :
    Operand.ofText text = kind.operand ((tail.take 1).takeWhile Text.isDecimalDigit) := by
  cases kind with
  | register =>
    have noPointer : Shape.indirect.capture? text.toList = none := by
      rw [spelled]
      rfl
    have captured : Shape.register.capture? text.toList
        = some ((tail.take 1).takeWhile Text.isDecimalDigit) := by
      rw [spelled]
      rfl
    simp [Operand.ofText, noPointer, captured, operand]
  | pointer =>
    have captured : Shape.indirect.capture? text.toList
        = some ((tail.take 1).takeWhile Text.isDecimalDigit) := by
      rw [spelled]
      rfl
    simp [Operand.ofText, captured, operand]

theorem opening_of_ofText (read : Operand.ofText text = kind.operand digit) :
    ∃ tail, text.toList = kind.opening ++ tail := by
  cases kind with
  | register =>
    obtain ⟨tail, spelled⟩ := Shape.capture?_eq_spell (Operand.spells_of_ofText read)
    exact ⟨digit ++ tail, by simpa [Shape.spell, Shape.register, opening] using spelled⟩
  | pointer =>
    obtain ⟨tail, spelled⟩ := Shape.capture?_eq_spell (Operand.spells_of_ofText read)
    exact ⟨digit ++ tail, by simpa [Shape.spell, Shape.indirect, opening] using spelled⟩

/-- Only the first character counts, and it has to be a digit. -/
theorem registerOf_eq_ok_iff :
    registerOf ((tail.take 1).takeWhile Text.isDecimalDigit) = .ok n ↔
      ∃ c rest, tail = c :: rest ∧ Text.decimalValue? c = some n := by
  cases tail with
  | nil =>
    refine iff_of_false (fun failed => nomatch failed) ?_
    rintro ⟨c, rest, none, _⟩
    exact nomatch none
  | cons c rest =>
    cases value : Text.decimalValue? c with
    | none => simp [registerOf, registerNumber, Text.isDecimalDigit, value, Except.mapError]
    | some m => simp [registerOf, registerNumber, Text.isDecimalDigit, value, Except.mapError]

theorem names_iff_spelled : kind.Names text n ↔ ∃ c rest, kind.Spelled text c rest n := by
  constructor
  · rintro ⟨digit, read, number⟩
    obtain ⟨tail, spelled⟩ := opening_of_ofText read
    obtain ⟨_, rfl⟩ := operand_inj (read.symm.trans (ofText_of_opening spelled))
    obtain ⟨c, rest, rfl, value⟩ := registerOf_eq_ok_iff.1 number
    exact ⟨c, rest, spelled, value⟩
  · rintro ⟨c, rest, spelled, value⟩
    exact ⟨_, ofText_of_opening spelled, registerOf_eq_ok_iff.2 ⟨c, rest, rfl, value⟩⟩

/-- A name is the opening and one plain digit of a register that exists. -/
theorem Spelled.mem_names_iff (spelled : kind.Spelled text c rest n) :
    text ∈ kind.names ↔ n < kind.count ∧ c = n.digitChar ∧ rest = [] := by
  obtain ⟨written, value⟩ := spelled
  have plain : ∀ m < 10, Text.decimalValue? m.digitChar = some m := by decide
  constructor
  · intro member
    obtain ⟨m, small, rfl⟩ := List.mem_map.1 member
    have below : m < kind.count := List.mem_range.1 small
    have same : [m.digitChar] = c :: rest := by simpa using written
    obtain ⟨rfl, rfl⟩ := List.cons.inj same
    -- a digit has one value only
    obtain rfl : m = n := by
      have := kind.count_le
      exact Option.some.inj ((plain m (by omega)).symm.trans value)
    exact ⟨below, rfl, rfl⟩
  · rintro ⟨below, rfl, rfl⟩
    refine List.mem_map.2 ⟨n, List.mem_range.2 below, ?_⟩
    rw [← written, String.ofList_toList]

end RegisterKind

/-! ## §3. Blocks of codes. -/

/-- The first codes of the blocks that an operation has for registers of a kind. -/
def Mnemonic.blocks : Mnemonic → RegisterKind → List Nat
  | .inc, kind => [0x00 + kind.offset]
  | .dec, kind => [0x10 + kind.offset]
  | .add, kind => [0x20 + kind.offset]
  | .addc, kind => [0x30 + kind.offset]
  | .orl, kind => [0x40 + kind.offset]
  | .anl, kind => [0x50 + kind.offset]
  | .xrl, kind => [0x60 + kind.offset]
  | .subb, kind => [0x90 + kind.offset]
  | .mov, kind => [0x70 + kind.offset, 0x80 + kind.offset, 0xA0 + kind.offset, 0xE0 + kind.offset,
      0xF0 + kind.offset]
  | .cjne, kind => [0xB0 + kind.offset]
  | .xch, kind => [0xC0 + kind.offset]
  | .xchd, .pointer => [0xD6]
  | .djnz, .register => [0xD8]
  | .movx, .pointer => [0xE2, 0xF2]
  | _, _ => []

section Blocks

variable {known : Mnemonic} {kind : RegisterKind} {first n : Nat}

/-- Two blocks of one operation are further apart than a digit reaches. -/
theorem blocks_apart (known : Mnemonic) (kind : RegisterKind) :
    ∀ first ∈ known.blocks kind, ∀ block ∈ known.blocks kind,
      block = first ∨ first + 16 ≤ block ∨ block + 16 ≤ first := by
  cases known <;> cases kind <;> decide

/-- A digit leads into a block of the operation exactly if there is such a register. -/
theorem exists_inBlock_iff (member : first ∈ known.blocks kind) (digit : n < 10) :
    (∃ block ∈ known.blocks kind, kind.InBlock block (first + n)) ↔ n < kind.count := by
  constructor
  · rintro ⟨block, among, lower, upper⟩
    -- another block is too far away, so it is the one that the code was selected from
    have apart := blocks_apart known kind first member block among
    have := kind.count_le
    omega
  · intro below
    exact ⟨first, member, by omega, by omega⟩

end Blocks

/-! ## §4. Registers among the operands. -/

namespace Operand

variable {text bit : String} {value : Nat}

/-- The operand does not begin like a register. -/
def Plain (text : String) : Prop :=
  ∀ (kind : RegisterKind) (digit : List Char), ofText text ≠ kind.operand digit

theorem plain_of_ofText {operand : Operand} (read : ofText text = operand)
    (other : ∀ (kind : RegisterKind) (digit : List Char), operand ≠ kind.operand digit) :
    Plain text :=
  fun kind digit same => other kind digit (read.symm.trans same)

theorem plain_of_directAddress (h : directAddress text = .ok value) : Plain text := by
  rcases ofText_of_directAddress h with read | ⟨numeral, read, _⟩
  · exact plain_of_ofText read fun kind _ => by cases kind <;> exact nofun
  · exact plain_of_ofText read fun kind _ => by cases kind <;> exact nofun

theorem plain_of_immediateValue (h : immediateValue text = .ok value) : Plain text := by
  unfold immediateValue at h
  split at h
  next read => exact plain_of_ofText read fun kind _ => by cases kind <;> exact nofun
  · exact nomatch h

/-- A text that begins otherwise. -/
theorem plain_of_cons {c : Char} {rest : List Char} (spelled : text.toList = c :: rest)
    (other : c ≠ 'R' ∧ c ≠ '@') : Plain text := by
  intro kind digit read
  obtain ⟨tail, opened⟩ := RegisterKind.opening_of_ofText read
  rw [spelled] at opened
  cases kind with
  | register => exact other.1 (List.cons.inj opened).1
  | pointer => exact other.2 (List.cons.inj opened).1

theorem plain_of_invertedBit? (marked : invertedBit? text = some bit) : Plain text := by
  obtain ⟨run, captured, _⟩ := Option.map_eq_some_iff.1 marked
  obtain ⟨rest, spelled⟩ := Shape.capture?_eq_spell captured
  exact plain_of_cons spelled (by decide)

theorem plain_accumulator : Plain "A" := plain_of_cons (show _ = 'A' :: [] from rfl) (by decide)

theorem plain_carry : Plain "C" := plain_of_cons (show _ = 'C' :: [] from rfl) (by decide)

/-! The data pointer has three names: to be loaded, to be counted up, and for the cell that it
points to. -/

theorem plain_dataPointer : Plain "DPTR" := plain_of_cons (show _ = 'D' :: _ from rfl) (by decide)

theorem plain_counted : Plain "DLOCCTR" := plain_of_cons (show _ = 'D' :: _ from rfl) (by decide)

theorem plain_external : Plain "@DPTR" :=
  plain_of_ofText (show ofText "@DPTR" = .other from rfl)
    fun kind _ => by cases kind <;> exact nofun

/-- A bit that begins like a register is known by its name. -/
theorem named_of_bitAddress {kind : RegisterKind} {digit : List Char}
    (h : bitAddress text = .ok value)
    (read : ofText text = kind.operand digit) : SpecialRegister.bitAddress? text ≠ none := by
  obtain ⟨tail, opened⟩ := RegisterKind.opening_of_ofText read
  have noNumber : Numeral.ofText? text.toList = none := by
    rw [opened]
    cases kind <;> rfl
  intro unnamed
  simp [bitAddress, BitOperand.ofText, unnamed, noNumber] at h

end Operand

/-- The operand is the name of a bit, in an operation on the carry. -/
def Operand.AsBit (text : String) (operands : List String) : Prop :=
  SpecialRegister.bitAddress? text ≠ none ∧ "C" ∈ operands

namespace Encoding

/-- If the operand begins like a register and is not taken for a bit, its number selects a code. -/
def Selected (known : Mnemonic) (operands : List String) (text : String) (encoding : Encoding) :
    Prop :=
  ∀ (kind : RegisterKind) (digit : List Char), Operand.ofText text = kind.operand digit →
    Operand.AsBit text operands ∨
      ∃ n, registerOf digit = .ok n ∧
        ∃ first ∈ known.blocks kind, encoding.cells.head? = some (first + n)

/-- Every register among the operands selects a code of a block. -/
def Registers (known : Mnemonic) (operands : List String) (encoding : Encoding) : Prop :=
  ∀ text ∈ known.registerOperands operands, encoding.Selected known operands text

variable {known : Mnemonic} {operands : List String} {text target source : String}
  {encoding : Encoding}
  {first n : Nat}

theorem selected_of_plain (plain : Operand.Plain text) : encoding.Selected known operands text :=
  fun kind digit read => absurd read (plain kind digit)

theorem selected_of_names (kind : RegisterKind) (named : kind.Names text n)
    (member : first ∈ known.blocks kind) (head : encoding.cells.head? = some (first + n)) :
    encoding.Selected known operands text := by
  intro other digit' read'
  obtain ⟨digit, read, number⟩ := named
  obtain ⟨rfl, rfl⟩ := RegisterKind.operand_inj (read.symm.trans read')
  exact .inr ⟨n, number, first, member, head⟩

theorem selected_of_bit (h : bitAddress text = .ok n) (carry : "C" ∈ operands) :
    encoding.Selected known operands text :=
  fun _ _ read => .inl ⟨Operand.named_of_bitAddress h read, carry⟩

/-- Only one of the operands may be a register. -/
theorem registers_of_place {k : Nat} (only : known.registerOperands operands = operands[k]?.toList)
    (place : operands[k]? = some text) (selected : encoding.Selected known operands text) :
    encoding.Registers known operands := by
  intro text' member
  rw [only, place] at member
  obtain rfl : text' = text := by simpa using member
  exact selected

/-- Both operands may be. -/
theorem registers_of_pair (both : known.registerOperands [target, source] = [target, source])
    (left : encoding.Selected known [target, source] target)
    (right : encoding.Selected known [target, source] source) :
    encoding.Registers known [target, source] := by
  intro text member
  rw [both] at member
  rcases List.mem_pair.1 member with rfl | rfl
  · exact left
  · exact right

end Encoding

namespace Instruction

open Operand Encoding RegisterKind

variable {known : Mnemonic} {base opcode inverted n : Nat} {operands : List String}
  {target source text : String} {kind : RegisterKind}

/-! Operations whose first operand may be a register. -/

theorem countOperand_registers (only : known.registerOperands operands = operands[0]?.toList)
    (blocks : ∀ kind : RegisterKind, base + kind.offset ∈ known.blocks kind) :
    ∀ target ∈ operands[0]?, Yields (Registers known operands) (countOperand base target) := by
  intro target place
  refine countOperand_yields ?_ ?_ ?_ ?_
  · rintro rfl
    exact registers_of_place only place (selected_of_plain plain_accumulator)
  · intro address value
    exact registers_of_place only place (selected_of_plain (plain_of_directAddress value))
  · intro n named
    exact registers_of_place only place (selected_of_names .pointer named (blocks .pointer) rfl)
  · intro n named
    exact registers_of_place only place (selected_of_names .register named (blocks .register) rfl)

theorem increment_registers : Yields (Registers .inc operands) (increment operands) := by
  refine increment_yields ?_ (countOperand_registers rfl fun _ => List.mem_cons_self)
  rintro rfl
  exact registers_of_place (k := 0) rfl rfl (selected_of_plain plain_counted)

theorem compareBranch_registers : Yields (Registers .cjne operands) (compareBranch operands) := by
  refine compareBranch_yields fun left place right _ => compareCells_yields ?_ ?_ ?_ ?_
  · rintro rfl value _ label
    exact registers_of_place rfl place (selected_of_plain plain_accumulator)
  · rintro rfl address _ label
    exact registers_of_place rfl place (selected_of_plain plain_accumulator)
  · intro n value named _ label
    exact registers_of_place rfl place
      (selected_of_names .pointer named List.mem_cons_self rfl)
  · intro n value named _ label
    exact registers_of_place rfl place
      (selected_of_names .register named List.mem_cons_self rfl)

theorem countBranch_registers : Yields (Registers .djnz operands) (countBranch operands) := by
  refine countBranch_yields fun counter place => countCells_yields ?_ ?_
  · intro address value label
    exact registers_of_place rfl place (selected_of_plain (plain_of_directAddress value))
  · intro n named label
    exact registers_of_place rfl place
      (selected_of_names .register named List.mem_cons_self rfl)

/-! Operations whose second operand may be one. -/

section Second

variable (only : known.registerOperands operands = operands[1]?.toList)
include only

theorem accumulate_registers
    (blocks : ∀ kind : RegisterKind, base + kind.offset ∈ known.blocks kind) :
    ∀ source ∈ operands[1]?, Yields (Registers known operands) (accumulate base source) := by
  intro source place
  refine accumulate_yields ?_ ?_ ?_ ?_
  · intro value constant
    exact registers_of_place only place (selected_of_plain (plain_of_immediateValue constant))
  · intro address value
    exact registers_of_place only place (selected_of_plain (plain_of_directAddress value))
  · intro n named
    exact registers_of_place only place (selected_of_names .pointer named (blocks .pointer) rfl)
  · intro n named
    exact registers_of_place only place (selected_of_names .register named (blocks .register) rfl)

theorem combineCell_registers :
    ∀ target ∈ operands[0]?, ∀ source ∈ operands[1]?,
      Yields (Registers known operands) (combineCell base target source) := by
  intro target _ source place
  refine combineCell_yields ?_ ?_
  · rintro rfl address _
    exact registers_of_place only place (selected_of_plain plain_accumulator)
  · intro address value _ constant
    exact registers_of_place only place (selected_of_plain (plain_of_immediateValue constant))

theorem combineCarry_registers (carry : operands[0]? = some "C") :
    ∀ source ∈ operands[1]?,
      Yields (Registers known operands) (combineCarry opcode inverted source) := by
  intro source place
  refine combineCarry_yields ?_ ?_
  · intro address value
    exact registers_of_place only place (selected_of_bit value (List.mem_of_getElem? carry))
  · intro bit address marked _
    exact registers_of_place only place (selected_of_plain (plain_of_invertedBit? marked))

end Second

theorem exchange_registers : Yields (Registers .xch operands) (exchange operands) := by
  unfold exchange
  split
  next target source =>
    have place : [target, source][1]? = some source := rfl
    split
    · split
      next read =>
        refine yields_pointer read fun n named => registers_of_place rfl place ?_
        exact selected_of_names .pointer named List.mem_cons_self rfl
      next read =>
        refine yields_register read fun n named => registers_of_place rfl place ?_
        exact selected_of_names .register named List.mem_cons_self rfl
      next noPointer noRegister =>
        -- whatever is left stands for the accumulator
        refine yields_plain (registers_of_place rfl place (selected_of_plain ?_))
        intro kind digit
        cases kind with
        | register => exact noRegister digit
        | pointer => exact noPointer digit
    · exact yields_malformed
  · exact yields_malformed

theorem exchangeDigit_registers : Yields (Registers .xchd operands) (exchangeDigit operands) := by
  refine exchangeDigit_yields fun source place n named => registers_of_place rfl place ?_
  exact selected_of_names .pointer named List.mem_cons_self rfl

/-! Operations both of whose operands may be one. -/

theorem moveIntoRegister_registers (kind : RegisterKind) (named : kind.Names target n) :
    Yields (Registers .mov [target, source]) (moveIntoRegister (0xF0 + kind.offset + n)
      (0x70 + kind.offset + n) (0xA0 + kind.offset + n) source) := by
  refine moveIntoRegister_yields ?_ ?_ ?_
  · rintro rfl
    exact registers_of_pair rfl (selected_of_names kind named (by simp [Mnemonic.blocks]) rfl)
      (selected_of_plain plain_accumulator)
  · intro value constant
    exact registers_of_pair rfl (selected_of_names kind named (by simp [Mnemonic.blocks]) rfl)
      (selected_of_plain (plain_of_immediateValue constant))
  · intro _ address value
    exact registers_of_pair rfl (selected_of_names kind named (by simp [Mnemonic.blocks]) rfl)
      (selected_of_plain (plain_of_directAddress value))

theorem moveIntoA_registers : Yields (Registers .mov ["A", source]) (moveIntoA source) := by
  have left {encoding : Encoding} : encoding.Selected .mov ["A", source] "A" :=
    selected_of_plain plain_accumulator
  refine moveIntoA_yields ?_ ?_ ?_ ?_
  · intro n named
    exact registers_of_pair rfl left
      (selected_of_names .pointer named (show 0xE6 ∈ _ by decide) rfl)
  · intro n named
    exact registers_of_pair rfl left
      (selected_of_names .register named (show 0xE8 ∈ _ by decide) rfl)
  · intro value constant
    exact registers_of_pair rfl left (selected_of_plain (plain_of_immediateValue constant))
  · intro address value
    exact registers_of_pair rfl left (selected_of_plain (plain_of_directAddress value))

theorem moveIntoCell_registers {address : Nat} (h : directAddress target = .ok address) :
    Yields (Registers .mov [target, source]) (moveIntoCell address source) := by
  have left {encoding : Encoding} : encoding.Selected .mov [target, source] target :=
    selected_of_plain (plain_of_directAddress h)
  refine moveIntoCell_yields ?_ ?_ ?_ ?_ ?_
  · rintro rfl
    exact registers_of_pair rfl left (selected_of_plain plain_accumulator)
  · intro value constant
    exact registers_of_pair rfl left (selected_of_plain (plain_of_immediateValue constant))
  · intro n named
    exact registers_of_pair rfl left
      (selected_of_names .register named (show 0x88 ∈ _ by decide) rfl)
  · intro n named
    exact registers_of_pair rfl left
      (selected_of_names .pointer named (show 0x86 ∈ _ by decide) rfl)
  · intro other value
    exact registers_of_pair rfl left (selected_of_plain (plain_of_directAddress value))

theorem movePair_registers : Yields (Registers .mov [target, source]) (move [target, source]) := by
  refine movePair_yields ?_ ?_ ?_ ?_ ?_ ?_
  · intro n named
    exact moveIntoRegister_registers .pointer named
  · rintro rfl
    exact moveIntoA_registers
  · rintro rfl address value
    exact registers_of_pair rfl (selected_of_plain plain_carry) (selected_of_bit value (by simp))
  · rintro rfl address value
    exact registers_of_pair rfl (selected_of_bit value (by simp)) (selected_of_plain plain_carry)
  · rintro rfl value constant
    exact registers_of_pair rfl (selected_of_plain plain_dataPointer)
      (selected_of_plain (plain_of_immediateValue constant))
  · intro _
    refine moveElsewhere_yields ?_ fun address value => moveIntoCell_registers value
    intro n named
    exact moveIntoRegister_registers .register named

theorem moveExternal_registers : Yields (Registers .movx operands) (moveExternal operands) := by
  unfold moveExternal
  split
  next target source =>
    split
    next named =>
      -- into the accumulator
      subst named
      have left {encoding : Encoding} : encoding.Selected .movx ["A", source] "A" :=
        selected_of_plain plain_accumulator
      split
      next named =>
        subst named
        exact yields_plain (registers_of_pair rfl left (selected_of_plain plain_external))
      · split
        next read =>
          refine yields_pointer read fun n named => registers_of_pair rfl left ?_
          exact selected_of_names .pointer named (show 0xE2 ∈ _ by decide) rfl
        · exact yields_malformed
    · -- or out of it
      split
      next read =>
        split
        next named =>
          subst named
          refine yields_pointer read fun n named => registers_of_pair rfl ?_
            (selected_of_plain plain_accumulator)
          exact selected_of_names .pointer named (show 0xF2 ∈ _ by decide) rfl
        · exact yields_malformed
      · exact yields_malformed
  · exact yields_malformed

theorem move_registers : Yields (Registers .mov operands) (move operands) := by
  match operands with
  | [target, source] => exact movePair_registers
  | [] | [_] | _ :: _ :: _ :: _ => exact yields_malformed

end Instruction

open Instruction

/-- **Every register among the operands of an accepted instruction selects a code of a block.** -/
theorem registers_of_encode {known : Mnemonic} {operands : List String} {encoding : Encoding}
    (accepted : known.encode operands = .ok encoding) : encoding.Registers known operands := by
  revert accepted
  cases known with
  | inc => exact increment_registers encoding
  | dec => exact decrement_yields (countOperand_registers rfl fun _ => List.mem_cons_self) encoding
  | add =>
    exact addInto_yields (fun _ => accumulate_registers rfl fun _ => List.mem_cons_self) encoding
  | subb =>
    exact addInto_yields (fun _ => accumulate_registers rfl fun _ => List.mem_cons_self) encoding
  | addc =>
    exact addIntoLoosely_yields (fun _ => accumulate_registers rfl fun _ => List.mem_cons_self)
      encoding
  | orl =>
    exact combineOrCarry_yields (fun _ => accumulate_registers rfl fun _ => List.mem_cons_self)
      (combineCell_registers rfl) (combineCarry_registers rfl) encoding
  | anl =>
    exact combineOrCarry_yields (fun _ => accumulate_registers rfl fun _ => List.mem_cons_self)
      (combineCell_registers rfl) (combineCarry_registers rfl) encoding
  | xrl =>
    exact combine_yields (fun _ => accumulate_registers rfl fun _ => List.mem_cons_self)
      (combineCell_registers rfl) encoding
  | mov => exact move_registers encoding
  | movx => exact moveExternal_registers encoding
  | xch => exact exchange_registers encoding
  | xchd => exact exchangeDigit_registers encoding
  | cjne => exact compareBranch_registers encoding
  | djnz => exact countBranch_registers encoding
  | _ => exact fun _ _ member => nomatch member

/-! ## §5. Every block is reached. -/

namespace RegisterKind

variable {kind : RegisterKind} {text name : String} {n : Nat}

theorem Names.ne (named : kind.Names text n) (plain : Operand.Plain name) : text ≠ name := by
  rintro rfl
  obtain ⟨digit, read, _⟩ := named
  exact plain kind digit read

end RegisterKind

namespace Instruction

open RegisterKind

section Named

variable {kind : RegisterKind} {text : String} {n : Nat} (named : kind.Names text n)
include named

theorem countOperand_of_names (base : Nat) :
    countOperand base text = .ok (.ofCells [base + kind.offset + n]) := by
  unfold countOperand
  rw [if_neg (named.ne Operand.plain_accumulator)]
  obtain ⟨digit, read, number⟩ := named
  rw [read]
  cases kind <;> simp only [operand, number] <;> rfl

theorem accumulate_of_names (base : Nat) :
    accumulate base text = .ok (.ofCells [base + kind.offset + n]) := by
  rw [Nat.add_assoc]
  cases kind with
  | register => exact accumulate_of_selects (.register named) base
  | pointer => exact accumulate_of_selects (.pointer named) base

theorem moveIntoA_of_names : moveIntoA text = .ok (.ofCells [0xE0 + kind.offset + n]) := by
  unfold moveIntoA
  obtain ⟨digit, read, number⟩ := named
  rw [read]
  cases kind <;> simp only [operand, number] <;> rfl

theorem moveIntoCell_of_names (address : Nat) :
    moveIntoCell address text = .ok (.ofCells [0x80 + kind.offset + n, address]) := by
  unfold moveIntoCell
  rw [if_neg (named.ne Operand.plain_accumulator)]
  obtain ⟨digit, read, number⟩ := named
  rw [read]
  cases kind <;> simp only [operand, number] <;> rfl

theorem move_of_names {source : String} (other : source ≠ "C") :
    move [text, source] = moveIntoRegister (0xF0 + kind.offset + n) (0x70 + kind.offset + n)
      (0xA0 + kind.offset + n) source := by
  have noA := named.ne Operand.plain_accumulator
  have noC := named.ne Operand.plain_carry
  have noPointer := named.ne Operand.plain_dataPointer
  obtain ⟨digit, read, number⟩ := named
  cases kind with
  | register =>
    have read : Operand.ofText text = .register digit := read
    -- the accumulator, the carry and the data pointer are seen first
    simp only [move, moveElsewhere, read, number, if_neg noA, if_neg noC, if_neg noPointer,
      if_neg other]
    rfl
  | pointer =>
    have read : Operand.ofText text = .indirect digit := read
    simp only [move, read, number]
    rfl

theorem exchange_of_names : exchange ["A", text] = .ok (.ofCells [0xC0 + kind.offset + n]) := by
  obtain ⟨digit, read, number⟩ := named
  simp only [exchange, read, if_true]
  cases kind <;> simp only [operand, number] <;> rfl

theorem compareCells_of_names :
    compareCells text "#0" = .ok [0xB0 + kind.offset + n, 0, placeholder] := by
  have constant : immediateValue "#0" = .ok 0 := rfl
  unfold compareCells
  rw [if_neg (named.ne Operand.plain_accumulator)]
  obtain ⟨digit, read, number⟩ := named
  rw [read, constant]
  cases kind <;> simp only [operand, number] <;> rfl

theorem compareBranch_of_names : compareBranch [text, "#0", "L"] =
    .ok ⟨[0xB0 + kind.offset + n, 0, placeholder], some ⟨"CJNE", "L"⟩, false⟩ := by
  show (compareCells text "#0" >>= fun cells => storeThenAwait "CJNE" cells "L") = _
  rw [compareCells_of_names named]
  rfl

end Named

/-! Three operations take one kind only. -/

section OneKind

variable {text : String} {n : Nat}

theorem countBranch_of_register (named : register.Names text n) :
    countBranch [text, "L"] = .ok ⟨[0xD8 + n, placeholder], some ⟨"DJNZ", "L"⟩, false⟩ := by
  obtain ⟨digit, read, number⟩ := named
  have read : Operand.ofText text = .register digit := read
  simp only [countBranch, countCells, read, number]
  rfl

theorem exchangeDigit_of_pointer (named : pointer.Names text n) :
    exchangeDigit ["A", text] = .ok (.ofCells [0xD6 + n]) := by
  obtain ⟨digit, read, number⟩ := named
  have read : Operand.ofText text = .indirect digit := read
  simp only [exchangeDigit, read, number]
  rfl

theorem moveExternal_of_pointer (named : pointer.Names text n) :
    moveExternal ["A", text] = .ok (.ofCells [0xE2 + n]) ∧
      moveExternal [text, "A"] = .ok (.ofCells [0xF2 + n]) := by
  have noA := named.ne Operand.plain_accumulator
  have noPointer := named.ne Operand.plain_external
  obtain ⟨digit, read, number⟩ := named
  have read : Operand.ofText text = .indirect digit := read
  constructor
  · simp only [moveExternal, read, number, noPointer, if_true, if_false]
    rfl
  · simp only [moveExternal, read, number, noA, if_true, if_false]
    rfl

end OneKind

end Instruction

/-- An instruction of the operation takes the operand where a register may stand, and has the given
code. -/
def Mnemonic.Takes (known : Mnemonic) (text : String) (code : Nat) : Prop :=
  ∃ operands rest label, text ∈ known.registerOperands operands ∧
    known.Emits operands (code :: rest) label

section Takes

variable {known : Mnemonic} {kind : RegisterKind} {text : String} {first n : Nat}

theorem takes_of_encode (operands : List String) {encoding : Encoding} {code : Nat}
    (encoded : known.encode operands = .ok encoding)
    (place : text ∈ known.registerOperands operands)
    (head : encoding.cells.head? = some code) : known.Takes text code := by
  obtain ⟨rest, cells_eq⟩ := List.head?_eq_some_iff.1 head
  refine ⟨operands, rest, encoding.label, place, ?_⟩
  rw [← cells_eq]
  exact Mnemonic.emits_encoding encoded

section Named

variable (named : kind.Names text n)
include named

theorem takes_of_accumulate {base : Nat}
    (encoded : known.encode ["A", text] = accumulate base text)
    (only : known.registerOperands ["A", text] = [text]) :
    known.Takes text (base + kind.offset + n) :=
  takes_of_encode ["A", text] (encoded.trans (accumulate_of_names named base)) (by simp [only]) rfl

theorem mov_takes (member : first ∈ Mnemonic.mov.blocks kind) :
    Mnemonic.mov.Takes text (first + n) := by
  have target (source : String) : text ∈ Mnemonic.mov.registerOperands [text, source] := .head _
  have source (target : String) : text ∈ Mnemonic.mov.registerOperands [target, text] :=
    .tail _ (.head _)
  have intoCell : move ["0", text] = moveIntoCell 0 text := if_neg (named.ne Operand.plain_carry)
  simp only [Mnemonic.blocks, List.mem_cons, List.not_mem_nil, or_false] at member
  -- from a constant, into a cell, from a cell, into the accumulator, from the accumulator
  rcases member with rfl | rfl | rfl | rfl | rfl
  · exact takes_of_encode [text, "#0"] (move_of_names named (by decide)) (target _) rfl
  · exact takes_of_encode ["0", text] (intoCell.trans (moveIntoCell_of_names named 0))
      (source _) rfl
  · exact takes_of_encode [text, "0"] (move_of_names named (by decide)) (target _) rfl
  · exact takes_of_encode ["A", text] (moveIntoA_of_names named) (source _) rfl
  · exact takes_of_encode [text, "A"] (move_of_names named (by decide)) (target _) rfl

/-- **Every block is reached**, by every operand that is read as a register. -/
theorem takes_of_names (member : first ∈ known.blocks kind) : known.Takes text (first + n) := by
  cases known with
  | mov => exact mov_takes named member
  | inc =>
    obtain rfl := List.mem_singleton.1 member
    have other : text ≠ "DLOCCTR" := named.ne Operand.plain_counted
    exact takes_of_encode [text] ((if_neg other).trans (countOperand_of_names named 0x00))
      (.head _) rfl
  | dec =>
    obtain rfl := List.mem_singleton.1 member
    exact takes_of_encode [text] (countOperand_of_names named 0x10) (.head _) rfl
  | add => exact List.mem_singleton.1 member ▸ takes_of_accumulate named rfl rfl
  | addc => exact List.mem_singleton.1 member ▸ takes_of_accumulate named rfl rfl
  | orl => exact List.mem_singleton.1 member ▸ takes_of_accumulate named rfl rfl
  | anl => exact List.mem_singleton.1 member ▸ takes_of_accumulate named rfl rfl
  | xrl => exact List.mem_singleton.1 member ▸ takes_of_accumulate named rfl rfl
  | subb => exact List.mem_singleton.1 member ▸ takes_of_accumulate named rfl rfl
  | xch =>
    obtain rfl := List.mem_singleton.1 member
    exact takes_of_encode ["A", text] (exchange_of_names named) (.head _) rfl
  | cjne =>
    obtain rfl := List.mem_singleton.1 member
    exact takes_of_encode [text, "#0", "L"] (compareBranch_of_names named) (.head _) rfl
  | djnz =>
    cases kind with
    | pointer => exact nomatch member
    | register =>
      obtain rfl := List.mem_singleton.1 member
      exact takes_of_encode [text, "L"] (countBranch_of_register named) (.head _) rfl
  | xchd =>
    cases kind with
    | register => exact nomatch member
    | pointer =>
      obtain rfl := List.mem_singleton.1 member
      exact takes_of_encode ["A", text] (exchangeDigit_of_pointer named) (.head _) rfl
  | movx =>
    cases kind with
    | register => exact nomatch member
    | pointer =>
      obtain ⟨reads, writes⟩ := moveExternal_of_pointer named
      rcases List.mem_pair.1 member with rfl | rfl
      · exact takes_of_encode ["A", text] reads (.tail _ (.head _)) rfl
      · exact takes_of_encode [text, "A"] writes (.head _) rfl
  | _ => exact nomatch member

end Named

end Takes

/-! ## §6. The grammar of registers. -/

/-- **Operands that begin like a register.**  An instruction that is carried out takes such an
operand for a bit, beside the carry, or reads one digit `n` of it, of any script, and has the code
`n` above the first of a block.  Every operand with such a digit is taken, in every block.  It is
the name of a register exactly if the digit is plain, not too large and the last character, and the
code is in a block of the operation exactly if the digit is not too large. -/
theorem register_operand_iff (known : Mnemonic) (kind : RegisterKind) (text : String) :
    (∀ operands line s t, Assembler.operate line known.name operands s = .ok () t →
      text ∈ known.registerOperands operands → kind.opening <+: text.toList →
      Operand.AsBit text operands ∨
        ∃ c rest n, kind.Spelled text c rest n ∧ ∃ first ∈ known.blocks kind, ∃ others label,
          known.Places operands line s ((first + n) :: others) label) ∧
    ∀ c rest n, kind.Spelled text c rest n →
      (text ∈ kind.names ↔ n < kind.count ∧ c = n.digitChar ∧ rest = []) ∧
      ∀ first ∈ known.blocks kind, known.Takes text (first + n) ∧
        ((∃ block ∈ known.blocks kind, kind.InBlock block (first + n)) ↔ n < kind.count) := by
  constructor
  · rintro operands line s t accepted place ⟨tail, opened⟩
    obtain ⟨encoding, encoded, placed⟩ := Mnemonic.places_of_operate accepted
    have read := RegisterKind.ofText_of_opening opened.symm
    rcases registers_of_encode encoded text place kind _ read with bit |
      ⟨n, number, first, member, head⟩
    · exact .inl bit
    · obtain ⟨c, rest, spelled⟩ := RegisterKind.names_iff_spelled.1 ⟨_, read, number⟩
      obtain ⟨others, cells_eq⟩ := List.head?_eq_some_iff.1 head
      rw [cells_eq] at placed
      exact .inr ⟨c, rest, n, spelled, first, member, others, _, placed⟩
  · intro c rest n spelled
    refine ⟨spelled.mem_names_iff, fun first member => ⟨?_, ?_⟩⟩
    · exact takes_of_names (RegisterKind.names_iff_spelled.2 ⟨c, rest, spelled⟩) member
    · exact exists_inBlock_iff member (Text.decimalValue?_lt spelled.2)

/-- The last register with a letter behind it is taken for the register, without being its name. -/
theorem register_operand_iff_lettered :
    (∃ t, Assembler.operate 1 "SUBB" ["A", "R7X"] (Assembler.ofSize 1) = .ok () t) ∧
      (∃ c rest n, RegisterKind.register.Spelled "R7X" c rest n ∧
        ∃ first ∈ Mnemonic.subb.blocks .register, ∃ others label,
          Mnemonic.subb.Places ["A", "R7X"] 1 (Assembler.ofSize 1) ((first + n) :: others) label) ∧
      RegisterKind.register.Spelled "R7X" '7' ['X'] 7 ∧ Mnemonic.subb.Takes "R7X" 0x9F ∧
      "R7X" ∉ RegisterKind.register.names ∧
      ∃ block ∈ Mnemonic.subb.blocks .register, RegisterKind.register.InBlock block 0x9F := by
  have spelled : RegisterKind.register.Spelled "R7X" '7' ['X'] 7 := by decide
  obtain ⟨t, accepted⟩ : ∃ t, Assembler.operate 1 "SUBB" ["A", "R7X"] (Assembler.ofSize 1) =
      .ok () t := by
    have encoded : Mnemonic.subb.encode ["A", "R7X"] = .ok ⟨[0x9F], none, false⟩ := by rfl
    obtain ⟨t, _, ran⟩ := Mnemonic.emits_encoding encoded 1 (Assembler.ofSize 1) (by decide)
    exact ⟨_, ran⟩
  obtain ⟨carried, taken⟩ := register_operand_iff .subb .register "R7X"
  obtain ⟨named, blocks⟩ := taken _ _ _ spelled
  obtain ⟨takes, inside⟩ := blocks 0x98 (by decide)
  refine ⟨⟨t, accepted⟩, ?_, spelled, takes, ?_, inside.2 (by decide)⟩
  · refine (carried _ _ _ t accepted (by decide) (by decide)).resolve_left ?_
    exact fun bit => bit.1 (by decide)
  · exact fun member => absurd (named.1 member).2.2 (by decide)

/-- **The increment takes a register that does not exist.**  There is no register 8, and the code of
the instruction is that of a branch of three cells. -/
theorem increment_takes_register_eight :
    Statement.parse (Source.lines "INC R8") = .ok [⟨1, .operation "INC" ["R8"]⟩] ∧
      "R8" ∈ Mnemonic.inc.registerOperands ["R8"] ∧ "R8" ∉ RegisterKind.register.names ∧
      Mnemonic.inc.Emits ["R8"] [0x10] none ∧
      (∀ block ∈ Mnemonic.inc.blocks .register, ¬RegisterKind.register.InBlock block 0x10) ∧
      OpcodeMap.entry? 0x10 = some (.jbc, 3) := by
  have encoded : Mnemonic.inc.encode ["R8"] = .ok ⟨[0x10], none, false⟩ := by rfl
  refine ⟨by decide +kernel, by decide, by decide, Mnemonic.emits_of_encode encoded, by decide, ?_⟩
  decide

end Mcs51
