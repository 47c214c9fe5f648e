/-
  Mcs51.Proofs.EncodingShape — what the code of every instruction looks like.

  Linking finds the open places of an instruction again by the content of the cells alone.  That
  works only because all encodings are of one form: one to three cells, where an instruction that
  refers to a label ends in exactly as many placeholders as the patch of its operation replaces, and
  notes the label under the name of that operation.

  Main definitions:
    * `LinkKind.width` : the number of placeholders of an operation;
    * `Encoding.waiting`, `Encoding.fixed` : the placeholders of an encoding and the cells before
      them;
    * `Encoding.Shaped` : the form of all encodings.

  Main statement:
    * `Mnemonic.shaped_of_encode` : every operation is encoded in that form.
-/
import Mcs51.Link
import Mcs51.Proofs.EncodingForms

namespace Mcs51

/-! ## §1. Placeholders. -/

/-- The number of placeholder cells that an operation leaves for its label. -/
def LinkKind.width : LinkKind → Nat
  | .relative => 1
  | .absolute _ => 2
  | .long _ => 3
  | .flexible => 2

theorem LinkKind.width_pos (kind : LinkKind) : 0 < kind.width := by
  cases kind <;> simp [width]

theorem LinkKind.width_le (kind : LinkKind) : kind.width ≤ 3 := by
  cases kind <;> simp [width]

namespace Encoding

@[simp] theorem label_mk (cells : List Nat) (reference : Option Reference) (noteFirst : Bool) :
    label ⟨cells, reference, noteFirst⟩ = reference.map Reference.label := rfl

/-- Whatever name a label is noted under, it is the label. -/
theorem label_named (cells : List Nat) (label : Option String) (name : String) (noteFirst : Bool) :
    Encoding.label ⟨cells, label.map (⟨name, ·⟩), noteFirst⟩ = label := by
  cases label <;> rfl

theorem reference_eq_none_iff {encoding : Encoding} :
    encoding.reference = none ↔ encoding.label = none :=
  Option.map_eq_none_iff.symm

/-- How many of the last cells of an encoding wait for the address of its label. -/
def waiting (mnemonic : String) (encoding : Encoding) : Nat :=
  match encoding.label, LinkKind.ofMnemonic? mnemonic with
  | some _, some kind => kind.width
  | _, _ => 0

/-- The cells of an encoding that do not depend on a label. -/
def fixed (mnemonic : String) (encoding : Encoding) : List Nat :=
  encoding.cells.take (encoding.cells.length - encoding.waiting mnemonic)

/-- **The form of all encodings.** -/
structure Shaped (mnemonic : String) (encoding : Encoding) : Prop where
  /-- No instruction is empty. -/
  nonempty : encoding.cells ≠ []
  /-- No instruction has more than three cells. -/
  length_le : encoding.cells.length ≤ 3
  /-- A label is noted under the name of the operation. -/
  named : ∀ reference, encoding.reference = some reference → reference.mnemonic = mnemonic
  /-- Only operations that linking knows refer to labels. -/
  linked : ∀ label, encoding.label = some label → (LinkKind.ofMnemonic? mnemonic).isSome = true
  /-- The waiting cells stand at the end and hold placeholders. -/
  cells_eq : encoding.cells
    = encoding.fixed mnemonic ++ List.replicate (encoding.waiting mnemonic) placeholder
  /-- Only a branch by distance has other cells before them. -/
  open_of_absolute : ∀ label kind, encoding.label = some label →
    LinkKind.ofMnemonic? mnemonic = some kind → kind ≠ .relative → encoding.fixed mnemonic = []

/-- Cells without a label are of the form, whatever the operation. -/
theorem shaped_of_label_none {mnemonic : String} {encoding : Encoding}
    (nonempty : encoding.cells ≠ []) (length_le : encoding.cells.length ≤ 3)
    (plain : encoding.label = none) : encoding.Shaped mnemonic where
  nonempty := nonempty
  length_le := length_le
  named := by simp [reference_eq_none_iff.2 plain]
  linked := by simp [plain]
  cells_eq := by simp [fixed, waiting, plain]
  open_of_absolute := by simp [plain]

/-- Cells with a label are of the form if they end in the placeholders of their operation. -/
theorem shaped_of_label_some {mnemonic : String} {kind : LinkKind}
    (known : LinkKind.ofMnemonic? mnemonic = some kind) (front : List Nat) (label : String)
    (noteFirst : Bool) (fits : front.length + kind.width ≤ 3)
    (whole : kind ≠ .relative → front = []) :
    Shaped mnemonic
      ⟨front ++ List.replicate kind.width placeholder, some ⟨mnemonic, label⟩, noteFirst⟩ := by
  have pos := kind.width_pos
  refine ⟨?_, ?_, ?_, ?_, ?_, ?_⟩
  · -- there is at least one placeholder
    intro empty
    have := congrArg List.length empty
    simp at this
    omega
  · simpa using fits
  · intro reference same
    rw [← Option.some.inj same]
  · simp [known]
  · simp [fixed, waiting, known]
  · intro _ other _ known_other absolute
    obtain rfl : kind = other := Option.some.inj (known.symm.trans known_other)
    simp [fixed, waiting, known, whole absolute]

end Encoding

/-! ## §2. Instructions without a label. -/

/-- Plain cells, one to three of them. -/
def Encoding.Plain (encoding : Encoding) : Prop :=
  encoding.cells ≠ [] ∧ encoding.cells.length ≤ 3 ∧ encoding.label = none

/-- Plain cells are of the form of all encodings. -/
theorem shaped_of_plain {encoded : Encoded} (h : Yields Encoding.Plain encoded)
    (mnemonic : String) : Yields (Encoding.Shaped mnemonic) encoded := by
  intro encoding same
  obtain ⟨nonempty, length_le, plain⟩ := h encoding same
  exact Encoding.shaped_of_label_none nonempty length_le plain

namespace Instruction

theorem plain_one (a : Nat) : Encoding.Plain (.ofCells [a]) := by
  simp [Encoding.Plain, Encoding.ofCells]

theorem plain_two (a b : Nat) : Encoding.Plain (.ofCells [a, b]) := by
  simp [Encoding.Plain, Encoding.ofCells]

theorem plain_three (a b c : Nat) : Encoding.Plain (.ofCells [a, b, c]) := by
  simp [Encoding.Plain, Encoding.ofCells]

theorem countOperand_plain (base : Nat) (target : String) :
    Yields Encoding.Plain (countOperand base target) :=
  countOperand_yields (fun _ => plain_one _) (fun _ _ => plain_two _ _) (fun _ _ => plain_one _)
    (fun _ _ => plain_one _)

theorem accumulate_plain (base : Nat) (source : String) :
    Yields Encoding.Plain (accumulate base source) :=
  accumulate_yields (fun _ _ => plain_two _ _) (fun _ _ => plain_two _ _) (fun _ _ => plain_one _)
    (fun _ _ => plain_one _)

theorem combineCell_plain (base : Nat) (target source : String) :
    Yields Encoding.Plain (combineCell base target source) :=
  combineCell_yields (fun _ _ _ => plain_two _ _) (fun _ _ _ _ => plain_three _ _ _)

theorem moveIntoRegister_plain (fromA fromConstant fromCell : Nat) (source : String) :
    Yields Encoding.Plain (moveIntoRegister fromA fromConstant fromCell source) :=
  moveIntoRegister_yields (fun _ => plain_one _) (fun _ _ => plain_two _ _)
    (fun _ _ _ => plain_two _ _)

theorem move_plain (operands : List String) : Yields Encoding.Plain (move operands) := by
  refine move_yields fun target _ source _ => ?_
  refine movePair_yields ?_ (fun _ => ?_) (fun _ _ _ => plain_two _ _) (fun _ _ _ => plain_two _ _)
    (fun _ _ _ => plain_three _ _ _) (fun _ => ?_)
  · exact fun _ _ => moveIntoRegister_plain _ _ _ source
  · exact moveIntoA_yields (fun _ _ => plain_one _) (fun _ _ => plain_one _)
      (fun _ _ => plain_two _ _)
      (fun _ _ => plain_two _ _)
  · refine moveElsewhere_yields (fun _ _ => moveIntoRegister_plain _ _ _ source) fun address _ => ?_
    exact moveIntoCell_yields (fun _ => plain_two _ _) (fun _ _ => plain_three _ _ _)
      (fun _ _ => plain_two _ _) (fun _ _ => plain_two _ _) (fun _ _ => plain_three _ _ _)

/-! ## §3. Instructions with a label. -/

variable {mnemonic : String}

/-- A jump or call is nothing but placeholders. -/
theorem jumpTo_shaped (kind : LinkKind) (known : LinkKind.ofMnemonic? mnemonic = some kind)
    (operands : List String) :
    Yields (Encoding.Shaped mnemonic) (jumpTo mnemonic kind.width operands) := by
  refine jumpTo_yields (fun label => ?_) operands
  exact Encoding.shaped_of_label_some known [] label false (by simpa using kind.width_le)
    (fun _ => rfl)

/-- The jump of flexible size has two placeholders, the jump through the data pointer has none. -/
theorem jump_shaped (operands : List String) :
    Yields (Encoding.Shaped "JMP") (jump operands) := by
  refine jump_yields ?_ (fun label => ?_) operands
  · exact shaped_of_plain (yields_plain (plain_one _)) "JMP" _ rfl
  · have known : LinkKind.ofMnemonic? "JMP" = some .flexible := rfl
    exact Encoding.shaped_of_label_some known [] label false (by simp [LinkKind.width])
      (fun _ => rfl)

section Relative

variable (known : LinkKind.ofMnemonic? mnemonic = some .relative)
include known

/-- Cells with one placeholder at the end. -/
theorem shaped_of_front (front : List Nat) (fits : front.length ≤ 2) (label : String)
    (noteFirst : Bool) :
    Encoding.Shaped mnemonic ⟨front ++ [placeholder], some ⟨mnemonic, label⟩, noteFirst⟩ := by
  refine Encoding.shaped_of_label_some known front label noteFirst ?_ (by simp)
  show front.length + 1 ≤ 3
  omega

theorem branch_shaped (opcode : Nat) (operands : List String) :
    Yields (Encoding.Shaped mnemonic) (branch mnemonic opcode operands) :=
  branch_yields fun _ label _ _ => shaped_of_front known [opcode] (by simp) label true

theorem branchOnBit_shaped (opcode : Nat) (operands : List String) :
    Yields (Encoding.Shaped mnemonic) (branchOnBit mnemonic opcode operands) :=
  branchOnBit_yields fun _ _ address label _ _ _ =>
    shaped_of_front known [opcode, address] (by simp) label true

end Relative

theorem compareBranch_shaped (operands : List String) :
    Yields (Encoding.Shaped "CJNE") (compareBranch operands) := by
  have two : ∀ a b label,
      Encoding.Shaped "CJNE" ⟨[a, b, placeholder], some ⟨"CJNE", label⟩, false⟩ :=
    fun a b label => shaped_of_front rfl [a, b] (by simp) label false
  refine compareBranch_yields fun left _ right _ => ?_
  exact compareCells_yields (fun _ _ _ => two _ _) (fun _ _ _ => two _ _) (fun _ _ _ _ => two _ _)
    (fun _ _ _ _ => two _ _)

theorem countBranch_shaped (operands : List String) :
    Yields (Encoding.Shaped "DJNZ") (countBranch operands) := by
  refine countBranch_yields fun counter _ => countCells_yields (fun address _ label => ?_) ?_
  · exact shaped_of_front rfl [0xD5, address] (by simp) label false
  · exact fun n _ label => shaped_of_front rfl [0xD8 + n] (by simp) label false

end Instruction

/-! ## §4. All instructions. -/

open Instruction

/-- **Every operation is encoded in the form that linking relies on.** -/
theorem Mnemonic.shaped_of_encode {known : Mnemonic} {operands : List String} {encoding : Encoding}
    (h : known.encode operands = .ok encoding) : encoding.Shaped known.name := by
  revert encoding
  show Yields (Encoding.Shaped known.name) (known.encode operands)
  cases known with
  -- operations that refer to no label
  | nop | ret | reti => exact shaped_of_plain (yields_plain (plain_one _)) _
  | rr | rrc | rl => exact shaped_of_plain (rotate_yields (plain_one _) _) _
  | rlc => exact shaped_of_plain (rotateThroughCarry_yields (plain_one _) _) _
  | inc =>
    exact shaped_of_plain
      (increment_yields (fun _ => plain_one _) (fun target _ => countOperand_plain _ target)) _
  | dec => exact shaped_of_plain (decrement_yields fun target _ => countOperand_plain _ target) _
  | add | subb =>
    exact shaped_of_plain (addInto_yields fun _ source _ => accumulate_plain _ source) _
  | addc =>
    exact shaped_of_plain (addIntoLoosely_yields fun _ source _ => accumulate_plain _ source) _
  | orl | anl =>
    exact shaped_of_plain (combineOrCarry_yields (fun _ source _ => accumulate_plain _ source)
      (fun target _ source _ => combineCell_plain _ target source)
      (fun _ _ _ =>
        combineCarry_yields (fun _ _ => plain_two _ _) (fun _ _ _ _ => plain_two _ _))) _
  | xrl =>
    exact shaped_of_plain (combine_yields (fun _ source _ => accumulate_plain _ source)
      (fun target _ source _ => combineCell_plain _ target source)) _
  | mul | div => exact shaped_of_plain (onPair_yields (plain_one _) _) _
  | swap | da => exact shaped_of_plain (onAccumulator_yields (plain_one _) _) _
  | mov => exact shaped_of_plain (move_plain _) _
  | movc => exact shaped_of_plain (moveCode_yields (plain_one _) _) _
  | movx =>
    exact shaped_of_plain (moveExternal_yields (plain_one _) (fun _ _ _ _ => plain_one _)
      (fun _ _ _ _ => plain_one _)) _
  | push | pop => exact shaped_of_plain (stack_yields fun _ _ _ _ => plain_two _ _) _
  | xch =>
    exact shaped_of_plain (exchange_yields (fun _ _ _ _ => plain_one _) (fun _ _ _ _ => plain_one _)
      (plain_two _ _)) _
  | xchd => exact shaped_of_plain (exchangeDigit_yields fun _ _ _ _ => plain_one _) _
  | clr =>
    exact shaped_of_plain (clear_yields (fun _ => plain_one _) (fun _ => plain_one _)
      (fun _ _ _ _ => plain_two _ _)) _
  | setb =>
    exact shaped_of_plain (setBit_yields (fun _ => plain_one _) (fun _ _ _ _ => plain_two _ _)) _
  | cpl =>
    exact shaped_of_plain (complement_yields (fun _ => plain_one _) (fun _ => plain_one _)
      (fun _ _ _ _ => plain_two _ _)) _
  -- operations that may refer to one, each with the placeholders of its kind
  | ajmp => exact jumpTo_shaped (.absolute jumpSelector) rfl _
  | acall => exact jumpTo_shaped (.absolute callSelector) rfl _
  | ljmp => exact jumpTo_shaped (.long 0x02) rfl _
  | lcall => exact jumpTo_shaped (.long 0x12) rfl _
  | jmp => exact jump_shaped _
  | jc | jnc | jz | jnz | sjmp => exact branch_shaped rfl _ _
  | jbc | jb | jnb => exact branchOnBit_shaped rfl _ _
  | cjne => exact compareBranch_shaped _
  | djnz => exact countBranch_shaped _

/-- An operation has only one name. -/
theorem Mnemonic.name_of_ofName? {text : String} {known : Mnemonic}
    (h : ofName? text = some known) : known.name = text := by
  have found := List.find?_some h
  simpa using found

end Mcs51
