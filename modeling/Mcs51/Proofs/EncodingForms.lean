/-
  Mcs51.Proofs.EncodingForms — the forms in which operations are encoded.

  An encoder refuses its operands or yields one of a few forms.  Here every encoder is gone through
  once: whatever each of its forms has, comes out.  Where a form holds a number, it is known from
  which operand.  What holds of all encodings is proved from these lemmas, by looking at the forms
  and no longer at the encoders.

  Main definitions:
    * `Yields` : whatever comes out has a property;
    * `Encoding.ofCells` : cells that wait for no label;
    * `Operand.IsRegister`, `Operand.IsPointer` : operands that select a code above a base;
    * `Encoding.Above` : encodings whose code lies above a base.

  Main statements:
    * `Instruction.accumulate_yields`, `Instruction.movePair_yields`, … : the forms of each encoder.
-/
import Mcs51.Instruction.Encode

namespace Mcs51

/-! ## §1. Results that may be refused. -/

/-- Whatever comes out, if it is not refused, has the property. -/
def Yields {α : Type} (P : α → Prop) (result : Except Refusal α) : Prop :=
  ∀ a, result = .ok a → P a

section Yields

variable {α β : Type} {P : α → Prop}

theorem yields_ok {a : α} (h : P a) : Yields P (.ok a) := by
  intro other same
  obtain rfl := Except.ok.inj same
  exact h

theorem yields_error (refusal : Refusal) : Yields P (.error refusal) := by
  intro a same
  exact absurd same (by simp)

/-- A value that is computed first only decides what comes out. -/
theorem yields_bind {value : Except Refusal β} {next : β → Except Refusal α}
    (h : ∀ b, value = .ok b → Yields P (next b)) : Yields P (value >>= next) := by
  cases value with
  | error refusal => exact yields_error refusal
  | ok b => exact h b rfl

end Yields

theorem yields_malformed {P : Encoding → Prop} : Yields P Encoded.malformed := yields_error _

theorem yields_missing {P : Encoding → Prop} : Yields P Encoded.missing := yields_error _

/-! ## §2. Forms. -/

/-- Cells that wait for no label. -/
def Encoding.ofCells (cells : List Nat) : Encoding :=
  ⟨cells, none, false⟩

theorem yields_plain {P : Encoding → Prop} {cells : List Nat} (h : P (.ofCells cells)) :
    Yields P (Encoded.plain cells) :=
  yields_ok h

/-- **The cells have a form above a base**, if they begin above it: the form is told how far above
the base the code lies, the cells behind it and the label. -/
def Encoding.Above (base : Nat) (form : Nat → List Nat → Option String → Prop)
    (encoding : Encoding) : Prop :=
  ∀ offset rest, encoding.cells = (base + offset) :: rest → form offset rest encoding.label

/-- A code lies above its base in one way only. -/
theorem Encoding.above_of_form {base code offset : Nat} {rest : List Nat}
    {form : Nat → List Nat → Option String → Prop} {reference : Option Reference} {noteFirst : Bool}
    (h : form offset rest (reference.map Reference.label)) (lies : code = base + offset) :
    Above base form ⟨code :: rest, reference, noteFirst⟩ := by
  intro other behind cells
  obtain ⟨same, rfl⟩ := List.cons.inj cells
  obtain rfl : offset = other := by omega
  exact h

/-- The operand is the register of the given number. -/
def Operand.IsRegister (text : String) (n : Nat) : Prop :=
  ∃ digit, ofText text = .register digit ∧ registerOf digit = .ok n

/-- The operand is the cell that the register of the given number points to. -/
def Operand.IsPointer (text : String) (n : Nat) : Prop :=
  ∃ digit, ofText text = .indirect digit ∧ registerOf digit = .ok n

theorem directAddress_of_special {text : String} {address : Nat}
    (kind : Operand.ofText text = .special address) : directAddress text = .ok address := by
  simp [directAddress, kind]

theorem directAddress_of_direct {text : String} {address : Numeral}
    (kind : Operand.ofText text = .direct address) : directAddress text = numberOf address := by
  simp [directAddress, kind]

theorem immediateValue_of_immediate {text : String} {constant : Numeral}
    (kind : Operand.ofText text = .immediate constant) :
    immediateValue text = numberOf constant := by
  simp [immediateValue, kind]

namespace Instruction

variable {P : Encoding → Prop} {base opcode : Nat} {operands : List String}
  {name target source : String}

/-- A form that is selected by the number of a register. -/
theorem yields_register {digit : List Char} {form : Nat → List Nat}
    (kind : Operand.ofText target = .register digit)
    (h : ∀ n, Operand.IsRegister target n → P (.ofCells (form n))) :
    Yields P (registerOf digit >>= fun n => Encoded.plain (form n)) :=
  yields_bind fun n number => yields_plain (h n ⟨digit, kind, number⟩)

/-- A form that is selected by the number of a register that points to a cell. -/
theorem yields_pointer {digit : List Char} {form : Nat → List Nat}
    (kind : Operand.ofText target = .indirect digit)
    (h : ∀ n, Operand.IsPointer target n → P (.ofCells (form n))) :
    Yields P (registerOf digit >>= fun n => Encoded.plain (form n)) :=
  yields_bind fun n number => yields_plain (h n ⟨digit, kind, number⟩)

/-! ## §3. Arithmetic and logic. -/

theorem rotate_yields (h : P (.ofCells [opcode])) (operands : List String) :
    Yields P (rotate opcode operands) := by
  unfold rotate
  split
  · exact yields_missing
  · split
    · exact yields_plain h
    · exact yields_malformed

theorem rotateThroughCarry_yields (h : P (.ofCells [0x33])) (operands : List String) :
    Yields P (rotateThroughCarry operands) := by
  unfold rotateThroughCarry
  split
  · exact yields_missing
  · split
    · exact yields_plain h
    · exact yields_malformed
  · -- with another number of operands the cell is stored, but nothing comes out
    split
    · exact yields_error _
    · exact yields_malformed

theorem onAccumulator_yields (h : P (.ofCells [opcode])) (operands : List String) :
    Yields P (onAccumulator opcode operands) := by
  unfold onAccumulator
  split
  · split
    · exact yields_plain h
    · exact yields_malformed
  · exact yields_malformed

theorem onPair_yields (h : P (.ofCells [opcode])) (operands : List String) :
    Yields P (onPair opcode operands) := by
  unfold onPair
  split
  · exact yields_missing
  · split
    · exact yields_plain h
    · exact yields_malformed

theorem countOperand_yields (accumulator : target = "A" → P (.ofCells [base + 4]))
    (cell : ∀ address, directAddress target = .ok address → P (.ofCells [base + 5, address]))
    (pointer : ∀ n, Operand.IsPointer target n → P (.ofCells [base + 6 + n]))
    (register : ∀ n, Operand.IsRegister target n → P (.ofCells [base + 8 + n])) :
    Yields P (countOperand base target) := by
  unfold countOperand
  split
  next named => exact yields_plain (accumulator named)
  · split
    next kind => exact yields_pointer kind pointer
    next kind => exact yields_register kind register
    · exact yields_bind fun address value => yields_plain (cell address value)

theorem increment_yields (dataPointer : operands = ["DLOCCTR"] → P (.ofCells [0xA3]))
    (count : ∀ target ∈ operands[0]?, Yields P (countOperand 0x00 target)) :
    Yields P (increment operands) := by
  unfold increment
  split
  next target =>
    split
    next named => exact yields_plain (dataPointer (congrArg (fun text => [text]) named))
    · exact count target rfl
  · exact yields_malformed

theorem decrement_yields (count : ∀ target ∈ operands[0]?, Yields P (countOperand 0x10 target)) :
    Yields P (decrement operands) := by
  unfold decrement
  split
  next target => exact count target rfl
  · exact yields_malformed

theorem accumulate_yields
    (constant : ∀ value, immediateValue source = .ok value → P (.ofCells [base + 4, value]))
    (cell : ∀ address, directAddress source = .ok address → P (.ofCells [base + 5, address]))
    (pointer : ∀ n, Operand.IsPointer source n → P (.ofCells [base + 6 + n]))
    (register : ∀ n, Operand.IsRegister source n → P (.ofCells [base + 8 + n])) :
    Yields P (accumulate base source) := by
  unfold accumulate
  split
  next kind => exact yields_pointer kind pointer
  next kind => exact yields_register kind register
  next kind => exact yields_plain (cell _ (directAddress_of_special kind))
  next kind =>
    exact yields_bind fun address value =>
      yields_plain (cell address ((directAddress_of_direct kind).trans value))
  next kind =>
    exact yields_bind fun value number =>
      yields_plain (constant value ((immediateValue_of_immediate kind).trans number))
  · exact yields_malformed

section Second

variable (combined : operands[0]? = some "A" →
  ∀ source ∈ operands[1]?, Yields P (accumulate base source))
include combined

theorem addInto_yields : Yields P (addInto base operands) := by
  unfold addInto
  split
  next target source =>
    split
    next named => exact combined (congrArg some named) source rfl
    · exact yields_malformed
  · exact yields_malformed

theorem addIntoLoosely_yields : Yields P (addIntoLoosely base operands) := by
  unfold addIntoLoosely
  split
  · exact yields_missing
  · split
    next named =>
      split
      · exact yields_missing
      next source _ => exact combined (congrArg some named) source rfl
    · exact yields_malformed

section Cell

variable (cell : ∀ target ∈ operands[0]?, ∀ source ∈ operands[1]?,
  Yields P (combineCell base target source))
include cell

theorem combine_yields : Yields P (combine base operands) := by
  unfold combine
  split
  next target source _ =>
    split
    next named => exact combined (congrArg some named) source rfl
    · exact cell target rfl source rfl
  · exact yields_missing

theorem combineOrCarry_yields {inverted : Nat}
    (carry : operands[0]? = some "C" →
      ∀ source ∈ operands[1]?, Yields P (combineCarry opcode inverted source)) :
    Yields P (combineOrCarry base opcode inverted operands) := by
  unfold combineOrCarry
  split
  next target source _ =>
    split
    next named => exact combined (congrArg some named) source rfl
    · split
      next named => exact carry (congrArg some named) source rfl
      · exact cell target rfl source rfl
  · exact yields_missing

end Cell

end Second

theorem combineCell_yields
    (intoCell : source = "A" →
      ∀ address, directAddress target = .ok address → P (.ofCells [base + 2, address]))
    (constant : ∀ address value, directAddress target = .ok address →
      immediateValue source = .ok value → P (.ofCells [base + 3, address, value])) :
    Yields P (combineCell base target source) := by
  unfold combineCell
  split
  next named => exact yields_bind fun address value => yields_plain (intoCell named address value)
  · -- two numbers, of which the constant comes first
    exact yields_bind fun value number => yields_bind fun address place =>
      yields_plain (constant address value place number)

theorem combineCarry_yields {invertedOpcode : Nat}
    (bit : ∀ address, bitAddress source = .ok address → P (.ofCells [opcode, address]))
    (inverted : ∀ text address, invertedBit? source = some text → bitAddress text = .ok address →
      P (.ofCells [invertedOpcode, address])) :
    Yields P (combineCarry opcode invertedOpcode source) := by
  unfold combineCarry
  split
  next text marked =>
    exact yields_bind fun address value => yields_plain (inverted text address marked value)
  · exact yields_bind fun address value => yields_plain (bit address value)

theorem complement_yields (accumulator : operands = ["A"] → P (.ofCells [0xF4]))
    (carry : operands = ["C"] → P (.ofCells [0xB3]))
    (bit : ∀ target address, operands = [target] → decimalBitAddress target = .ok address →
      P (.ofCells [0xB2, address])) :
    Yields P (complement operands) := by
  unfold complement
  split
  next target =>
    split
    next named => exact yields_plain (accumulator (congrArg (fun text => [text]) named))
    · split
      next named => exact yields_plain (carry (congrArg (fun text => [text]) named))
      · exact yields_bind fun address value => yields_plain (bit target address rfl value)
  · exact yields_malformed

theorem clear_yields (accumulator : operands = ["A"] → P (.ofCells [0xE4]))
    (carry : operands = ["C"] → P (.ofCells [0xC3]))
    (bit : ∀ target address, operands = [target] → bitAddress target = .ok address →
      P (.ofCells [0xC2, address])) :
    Yields P (clear operands) := by
  unfold clear
  split
  next target =>
    split
    next named => exact yields_plain (accumulator (congrArg (fun text => [text]) named))
    · split
      next named => exact yields_plain (carry (congrArg (fun text => [text]) named))
      · exact yields_bind fun address value => yields_plain (bit target address rfl value)
  · exact yields_malformed

theorem setBit_yields (carry : operands = ["C"] → P (.ofCells [0xD3]))
    (bit : ∀ target address, operands = [target] → bitAddress target = .ok address →
      P (.ofCells [0xD2, address])) :
    Yields P (setBit operands) := by
  unfold setBit
  split
  next target =>
    split
    next named => exact yields_plain (carry (congrArg (fun text => [text]) named))
    · exact yields_bind fun address value => yields_plain (bit target address rfl value)
  · exact yields_malformed

/-! ## §4. Moves. -/

theorem moveIntoRegister_yields {fromA fromConstant fromCell : Nat}
    (accumulator : source = "A" → P (.ofCells [fromA]))
    (constant : ∀ value, immediateValue source = .ok value → P (.ofCells [fromConstant, value]))
    (cell : source ≠ "A" →
      ∀ address, directAddress source = .ok address → P (.ofCells [fromCell, address])) :
    Yields P (moveIntoRegister fromA fromConstant fromCell source) := by
  unfold moveIntoRegister
  split
  next named => exact yields_plain (accumulator named)
  next other =>
    split
    next kind =>
      exact yields_bind fun value number =>
        yields_plain (constant value ((immediateValue_of_immediate kind).trans number))
    · exact yields_bind fun address value => yields_plain (cell other address value)

theorem moveIntoA_yields (pointer : ∀ n, Operand.IsPointer source n → P (.ofCells [0xE6 + n]))
    (register : ∀ n, Operand.IsRegister source n → P (.ofCells [0xE8 + n]))
    (constant : ∀ value, immediateValue source = .ok value → P (.ofCells [0x74, value]))
    (cell : ∀ address, directAddress source = .ok address → P (.ofCells [0xE5, address])) :
    Yields P (moveIntoA source) := by
  unfold moveIntoA
  split
  next kind => exact yields_pointer kind pointer
  next kind => exact yields_register kind register
  next kind =>
    exact yields_bind fun value number =>
      yields_plain (constant value ((immediateValue_of_immediate kind).trans number))
  · exact yields_bind fun address value => yields_plain (cell address value)

theorem moveIntoCell_yields {address : Nat}
    (accumulator : source = "A" → P (.ofCells [0xF5, address]))
    (constant : ∀ value, immediateValue source = .ok value → P (.ofCells [0x75, address, value]))
    (register : ∀ n, Operand.IsRegister source n → P (.ofCells [0x88 + n, address]))
    (pointer : ∀ n, Operand.IsPointer source n → P (.ofCells [0x86 + n, address]))
    (cell : ∀ other, directAddress source = .ok other → P (.ofCells [0x85, other, address])) :
    Yields P (moveIntoCell address source) := by
  unfold moveIntoCell
  split
  next named => exact yields_plain (accumulator named)
  · split
    next kind =>
      exact yields_bind fun value number =>
        yields_plain (constant value ((immediateValue_of_immediate kind).trans number))
    next kind => exact yields_register kind register
    next kind => exact yields_pointer kind pointer
    · exact yields_bind fun other value => yields_plain (cell other value)

theorem moveElsewhere_yields
    (register : ∀ n, Operand.IsRegister target n →
      Yields P (moveIntoRegister (0xF8 + n) (0x78 + n) (0xA8 + n) source))
    (cell : ∀ address, directAddress target = .ok address →
      Yields P (moveIntoCell address source)) :
    Yields P (moveElsewhere target source) := by
  unfold moveElsewhere
  split
  next digit kind => exact yields_bind fun n number => register n ⟨digit, kind, number⟩
  · exact yields_bind fun address value => cell address value

/-- The accumulator, the carry on either side and the data pointer come before the other cells. -/
theorem movePair_yields
    (pointer : ∀ n, Operand.IsPointer target n →
      Yields P (moveIntoRegister (0xF6 + n) (0x76 + n) (0xA6 + n) source))
    (intoA : target = "A" → Yields P (moveIntoA source))
    (fromBit : target = "C" →
      ∀ address, bitAddress source = .ok address → P (.ofCells [0xA2, address]))
    (intoBit : source = "C" →
      ∀ address, bitAddress target = .ok address → P (.ofCells [0x92, address]))
    (dataPointer : target = "DPTR" → ∀ value, immediateValue source = .ok value →
      P (.ofCells [0x90, value / 256, value % 256]))
    (elsewhere : target ≠ "DPTR" → Yields P (moveElsewhere target source)) :
    Yields P (move [target, source]) := by
  unfold move
  dsimp only
  split
  next digit kind => exact yields_bind fun n number => pointer n ⟨digit, kind, number⟩
  · split
    next named => exact intoA named
    · split
      next named =>
        exact yields_bind fun address value => yields_plain (fromBit named address value)
      · split
        next named =>
          exact yields_bind fun address value => yields_plain (intoBit named address value)
        · split
          next named =>
            exact yields_bind fun value number => yields_plain (dataPointer named value number)
          next other => exact elsewhere other

theorem move_yields
    (pair : ∀ target ∈ operands[0]?, ∀ source ∈ operands[1]?, Yields P (move [target, source])) :
    Yields P (move operands) := by
  match operands with
  | [target, source] => exact pair target rfl source rfl
  | [] | [_] | _ :: _ :: _ :: _ => exact yields_malformed

theorem moveCode_yields (h : P (.ofCells [0x93])) (operands : List String) :
    Yields P (moveCode operands) := by
  unfold moveCode
  split
  · exact yields_missing
  · split
    · split
      · exact yields_missing
      · split
        · exact yields_plain h
        · -- the table behind the program counter is never read
          split
          · exact yields_error _
          · exact yields_malformed
    · exact yields_malformed

theorem moveExternal_yields (dataPointer : P (.ofCells [0xE0]))
    (reads : ∀ source ∈ operands[1]?, ∀ n, Operand.IsPointer source n → P (.ofCells [0xE2 + n]))
    (writes : ∀ target ∈ operands[0]?, ∀ n, Operand.IsPointer target n → P (.ofCells [0xF2 + n])) :
    Yields P (moveExternal operands) := by
  unfold moveExternal
  split
  next target source =>
    -- first into the accumulator, then out of it
    split
    · split
      · exact yields_plain dataPointer
      · split
        next kind => exact yields_pointer kind (reads source rfl)
        · exact yields_malformed
    · split
      next kind =>
        split
        · exact yields_pointer kind (writes target rfl)
        · exact yields_malformed
      · exact yields_malformed
  · exact yields_malformed

theorem stack_yields
    (h : ∀ cell address, operands = [cell] → directAddress cell = .ok address →
      P (.ofCells [opcode, address])) :
    Yields P (stack opcode operands) := by
  unfold stack
  split
  next cell => exact yields_bind fun address value => yields_plain (h cell address rfl value)
  · exact yields_malformed

theorem exchange_yields
    (pointer : ∀ source ∈ operands[1]?, ∀ n, Operand.IsPointer source n → P (.ofCells [0xC6 + n]))
    (register : ∀ source ∈ operands[1]?, ∀ n, Operand.IsRegister source n → P (.ofCells [0xC8 + n]))
    (accumulator : P (.ofCells [0xC5, 0xE0])) : Yields P (exchange operands) := by
  unfold exchange
  split
  next target source =>
    split
    · split
      next kind => exact yields_pointer kind (pointer source rfl)
      next kind => exact yields_register kind (register source rfl)
      · exact yields_plain accumulator
    · exact yields_malformed
  · exact yields_malformed

theorem exchangeDigit_yields
    (pointer : ∀ source ∈ operands[1]?, ∀ n, Operand.IsPointer source n → P (.ofCells [0xD6 + n])) :
    Yields P (exchangeDigit operands) := by
  unfold exchangeDigit
  split
  next target source =>
    split
    · split
      next kind => exact yields_pointer kind (pointer source rfl)
      · exact yields_malformed
    · exact yields_malformed
  · exact yields_malformed

/-! ## §5. Jumps and branches. -/

theorem jumpTo_yields {size : Nat}
    (h : ∀ label, P ⟨List.replicate size placeholder, some ⟨name, label⟩, false⟩)
    (operands : List String) : Yields P (jumpTo name size operands) := by
  unfold jumpTo
  split
  · split
    next label _ => exact yields_ok (h label)
    · exact yields_malformed
  · exact yields_malformed

theorem jump_yields (dataPointer : P (.ofCells [0x73]))
    (h : ∀ label, P ⟨List.replicate 2 placeholder, some ⟨"JMP", label⟩, false⟩)
    (operands : List String) : Yields P (jump operands) := by
  unfold jump
  split
  · split
    · exact yields_plain dataPointer
    · exact jumpTo_yields h _
  · exact yields_malformed

theorem branch_yields
    (h : ∀ target label, operands = [target] → labelName? target = some label →
      P ⟨[opcode, placeholder], some ⟨name, label⟩, true⟩) :
    Yields P (branch name opcode operands) := by
  unfold branch
  split
  next target =>
    split
    next label word => exact yields_ok (h target label rfl word)
    · exact yields_malformed
  · exact yields_malformed

theorem branchOnBit_yields
    (h : ∀ bit target address label, operands = [bit, target] →
      decimalBitAddress bit = .ok address → labelName? target = some label →
      P ⟨[opcode, address, placeholder], some ⟨name, label⟩, true⟩) :
    Yields P (branchOnBit name opcode operands) := by
  unfold branchOnBit
  split
  next bit target =>
    refine yields_bind fun address value => ?_
    split
    next label word => exact yields_ok (h bit target address label rfl value word)
    · exact yields_malformed
  · exact yields_malformed

theorem storeThenAwait_yields {cells : List Nat} (h : ∀ label, P ⟨cells, some ⟨name, label⟩, false⟩)
    (target : String) : Yields P (storeThenAwait name cells target) := by
  unfold storeThenAwait
  split
  next label _ => exact yields_ok (h label)
  · exact yields_error _

section Cells

variable {Q : List Nat → Prop}

/-- The accumulator is compared with a special function register under the code for constants. -/
theorem compareCells_yields {left right : String}
    (constant : left = "A" → ∀ value, immediateValue right = .ok value ∨
      directAddress right = .ok value →
      Q [0xB4, value, placeholder])
    (cell : left = "A" → ∀ address, directAddress right = .ok address →
      Q [0xB5, address, placeholder])
    (pointer : ∀ n value, Operand.IsPointer left n → immediateValue right = .ok value →
      Q [0xB6 + n, value, placeholder])
    (register : ∀ n value, Operand.IsRegister left n → immediateValue right = .ok value →
      Q [0xB8 + n, value, placeholder]) :
    Yields Q (compareCells left right) := by
  unfold compareCells
  split
  next named =>
    split
    next kind =>
      exact yields_bind fun value number =>
        yields_ok (constant named value (.inl ((immediateValue_of_immediate kind).trans number)))
    next kind => exact yields_ok (constant named _ (.inr (directAddress_of_special kind)))
    next kind =>
      exact yields_bind fun address value =>
        yields_ok (cell named address ((directAddress_of_direct kind).trans value))
    · exact yields_error _
  · split
    next digit kind =>
      exact yields_bind fun n number => yields_bind fun value constant =>
        yields_ok (pointer n value ⟨digit, kind, number⟩ constant)
    next digit kind =>
      exact yields_bind fun n number => yields_bind fun value constant =>
        yields_ok (register n value ⟨digit, kind, number⟩ constant)
    · exact yields_error _

theorem countCells_yields {counter : String}
    (cell : ∀ address, directAddress counter = .ok address → Q [0xD5, address, placeholder])
    (register : ∀ n, Operand.IsRegister counter n → Q [0xD8 + n, placeholder]) :
    Yields Q (countCells counter) := by
  unfold countCells
  split
  next digit kind => exact yields_bind fun n number => yields_ok (register n ⟨digit, kind, number⟩)
  · exact yields_bind fun address value => yields_ok (cell address value)

end Cells

theorem compareBranch_yields
    (compared : ∀ left ∈ operands[0]?, ∀ right ∈ operands[1]?,
      Yields (fun cells => ∀ label, P ⟨cells, some ⟨"CJNE", label⟩, false⟩)
        (compareCells left right)) :
    Yields P (compareBranch operands) := by
  unfold compareBranch
  split
  next left right target =>
    exact yields_bind fun cells come =>
      storeThenAwait_yields (compared left rfl right rfl cells come) target
  · exact yields_malformed

theorem countBranch_yields
    (counted : ∀ counter ∈ operands[0]?,
      Yields (fun cells => ∀ label, P ⟨cells, some ⟨"DJNZ", label⟩, false⟩) (countCells counter)) :
    Yields P (countBranch operands) := by
  unfold countBranch
  split
  next counter target =>
    exact yields_bind fun cells come =>
      storeThenAwait_yields (counted counter rfl cells come) target
  · exact yields_malformed

end Instruction

end Mcs51
