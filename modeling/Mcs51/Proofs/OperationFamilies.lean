/-
  Mcs51.Proofs.OperationFamilies — operations that differ in their code only.

  Many operations come in families, whose members read their operands in the same way.  In the
  encoder of such a family the base of the codes moves the first cell of what comes out, the name is
  what a label is noted under, and they decide nothing else.  So the members of a family end alike
  in every state: they all place the same cells, up to the first one, and note the same label, or
  they all stop the run in the same way.  What they place is said for each family by the forms that
  its operands have.

  Main definitions:
    * `Schematic` : an encoder in which the base moves the first cell and nothing else;
    * `Agree` : operations that end alike in a state;
    * `accumulatorFamily`, `branchFamily`, … : the families, as operations with their bases;
    * `Operand.SelectsInto`, `BranchForm`, `CountForm`, … : the operands of a family and what they
      select.

  Main statements:
    * `agree_of_schematic` : operations with such an encoder end alike;
    * `emitAlike_iff`, `reads_of_encode` : what the operands select is what all operations emit;
    * `Assembler.references_of_operate` : an operation notes labels under its own name only;
    * `accumulator_operations_agree` : the families of arithmetic and logic;
    * `branch_and_unary_operations_agree` : the families of branches and of operations with one
      operand.
-/
import Mcs51.Proofs.DirectOperands
import Mcs51.Proofs.Moves

namespace Mcs51

open Encoded

/-! ## §1. Encoders with a base. -/

/-- **The base moves the first cell, a label is noted under the name, and nothing else depends on
them**: neither whether the operands are encoded nor the other cells nor the label. -/
def Schematic (offset : Nat) (encoder : String → Nat → Encoded) : Prop :=
  (∃ rest, ∃ label : Option String, ∃ noteFirst, ∀ name base,
    encoder name base = .ok ⟨(base + offset) :: rest, label.map (⟨name, ·⟩), noteFirst⟩) ∨
  ∃ refusal, ∀ name base, encoder name base = .error refusal

section Schematic

variable {offset : Nat}

theorem schematic_error (refusal : Refusal) : Schematic offset fun _ _ => .error refusal :=
  .inr ⟨refusal, fun _ _ => rfl⟩

theorem schematic_plain (rest : List Nat) :
    Schematic offset fun _ base => plain ((base + offset) :: rest) :=
  .inl ⟨rest, none, false, fun _ _ => rfl⟩

/-- A value that is computed without the base may be computed first. -/
theorem schematic_bind {α : Type} (value : Except Refusal α) {next : String → Nat → α → Encoded}
    (h : ∀ a, Schematic offset (next · · a)) :
    Schematic offset fun name base => value >>= next name base := by
  cases value with
  | error refusal => exact schematic_error refusal
  | ok a => exact h a

end Schematic

/-- A register moves the code further. -/
theorem schematic_register (offset : Nat) (digit : List Char) :
    ∃ k, Schematic k fun _ base => registerOf digit >>= fun n => plain [base + offset + n] := by
  cases registerOf digit with
  | error refusal => exact ⟨0, schematic_error refusal⟩
  | ok n =>
    refine ⟨offset + n, ?_⟩
    show Schematic (offset + n) fun _ base => plain [base + offset + n]
    simp only [Nat.add_assoc]
    exact schematic_plain []

/-- One number stands behind the code. -/
theorem schematic_value (offset : Nat) (value : Except Refusal Nat) :
    Schematic offset fun _ base => value >>= fun v => plain [base + offset, v] :=
  schematic_bind value fun v => schematic_plain [v]

namespace Instruction

/-! ## §2. The encoders of the families. -/

theorem accumulate_schematic (source : String) :
    ∃ k, Schematic k fun _ base => accumulate base source := by
  cases kind : Operand.ofText source with
  | indirect digit =>
    simp only [accumulate, kind]
    exact schematic_register 6 digit
  | register digit =>
    simp only [accumulate, kind]
    exact schematic_register 8 digit
  | special address =>
    simp only [accumulate, kind]
    exact ⟨5, schematic_plain [address]⟩
  | direct address =>
    simp only [accumulate, kind]
    exact ⟨5, schematic_value 5 (numberOf address)⟩
  | immediate constant =>
    simp only [accumulate, kind]
    exact ⟨4, schematic_value 4 (numberOf constant)⟩
  | other =>
    simp only [accumulate, kind]
    exact ⟨0, schematic_error _⟩

theorem combineCell_schematic (target source : String) :
    ∃ k, Schematic k fun _ base => combineCell base target source := by
  by_cases named : source = "A"
  · simp only [combineCell, if_pos named]
    exact ⟨2, schematic_value 2 (directAddress target)⟩
  · simp only [combineCell, if_neg named]
    refine ⟨3, schematic_bind (immediateValue source) ?_⟩
    intro constant
    exact schematic_bind (directAddress target) fun address => schematic_plain [address, constant]

theorem combine_schematic (target source : String) :
    ∃ k, Schematic k fun _ base => combine base [target, source] := by
  by_cases named : target = "A"
  · simp only [combine, if_pos named]
    exact accumulate_schematic source
  · simp only [combine, if_neg named]
    exact combineCell_schematic target source

theorem countOperand_schematic (target : String) :
    ∃ k, Schematic k fun _ base => countOperand base target := by
  by_cases named : target = "A"
  · simp only [countOperand, if_pos named]
    exact ⟨4, schematic_plain []⟩
  · simp only [countOperand, if_neg named]
    cases Operand.ofText target with
    | indirect digit => exact schematic_register 6 digit
    | register digit => exact schematic_register 8 digit
    | special _ | direct _ | immediate _ | other =>
      exact ⟨5, schematic_value 5 (directAddress target)⟩

/-- Counting in general, where the data pointer is an operand like any other. -/
def count (base : Nat) : List String → Encoded
  | [target] => countOperand base target
  | _ => malformed

theorem increment_eq_count {operands : List String} (other : operands ≠ ["DLOCCTR"]) :
    increment operands = count 0x00 operands := by
  match operands with
  | [target] =>
    have differs : target ≠ "DLOCCTR" := fun same => other (congrArg (fun text => [text]) same)
    exact if_neg differs
  | [] | _ :: _ :: _ => rfl

theorem decrement_eq_count (operands : List String) : decrement operands = count 0x10 operands := by
  match operands with
  | [target] => rfl
  | [] | _ :: _ :: _ => rfl

theorem count_schematic (operands : List String) :
    ∃ k, Schematic k fun _ base => count base operands := by
  match operands with
  | [target] => exact countOperand_schematic target
  | [] | _ :: _ :: _ => exact ⟨0, schematic_error _⟩

/-- Changing the carry or another bit, where the accumulator is an operand like any other. -/
def changeBit (base : Nat) : List String → Encoded
  | [target] => if target = "C" then plain [base + 3] else do plain [base + 2, ← bitAddress target]
  | _ => malformed

theorem clear_eq_changeBit {operands : List String} (other : operands ≠ ["A"]) :
    clear operands = changeBit 0xC0 operands := by
  match operands with
  | [target] =>
    have differs : target ≠ "A" := fun same => other (congrArg (fun text => [text]) same)
    exact if_neg differs
  | [] | _ :: _ :: _ => rfl

theorem setBit_eq_changeBit (operands : List String) :
    setBit operands = changeBit 0xD0 operands := by
  match operands with
  | [target] => rfl
  | [] | _ :: _ :: _ => rfl

theorem changeBit_schematic (operands : List String) :
    ∃ k, Schematic k fun _ base => changeBit base operands := by
  match operands with
  | [target] =>
    by_cases named : target = "C"
    · simp only [changeBit, if_pos named]
      exact ⟨3, schematic_plain []⟩
    · simp only [changeBit, if_neg named]
      exact ⟨2, schematic_value 2 (bitAddress target)⟩
  | [] | _ :: _ :: _ => exact ⟨0, schematic_error _⟩

theorem stack_schematic (operands : List String) :
    Schematic 0 fun _ opcode => stack opcode operands := by
  match operands with
  | [cell] => exact schematic_value 0 (directAddress cell)
  | [] | _ :: _ :: _ => exact schematic_error _

theorem branch_schematic (operands : List String) : Schematic 0 (branch · · operands) := by
  match operands with
  | [target] =>
    show Schematic 0 fun name opcode => branch name opcode [target]
    simp only [branch]
    cases labelName? target with
    | none => exact schematic_error _
    | some label => exact .inl ⟨[placeholder], some label, true, fun _ _ => rfl⟩
  | [] | _ :: _ :: _ => exact schematic_error _

theorem branchOnBit_schematic (operands : List String) :
    Schematic 0 (branchOnBit · · operands) := by
  match operands with
  | [bit, target] =>
    show Schematic 0 fun name opcode => branchOnBit name opcode [bit, target]
    simp only [branchOnBit]
    -- the bit comes first, also if the label is no word
    refine schematic_bind (decimalBitAddress bit) ?_
    intro address
    cases labelName? target with
    | none => exact schematic_error _
    | some label => exact .inl ⟨[address, placeholder], some label, true, fun _ _ => rfl⟩
  | [] | [_] | _ :: _ :: _ :: _ => exact schematic_error _

end Instruction

/-! ## §3. Families in a state. -/

/-- **The operations of a family end alike.**  Each of them is given with its base.  They all place
cells that differ in the first one only, which lies equally far above the base, and note the same
label; or they all halt with the same ending. -/
def Agree (family : List (Mnemonic × Nat)) (offset : Nat) (operands : List String) (line : Int)
    (s : Assembler) : Prop :=
  (∃ rest label, ∀ entry ∈ family,
    entry.1.Places operands line s ((entry.2 + offset) :: rest) label) ∨
  ∃ ending, ∀ entry ∈ family, entry.1.Halts operands line s ending

/-- **Operations that share an encoder up to name and base end alike**, in every state. -/
theorem agree_of_schematic {family : List (Mnemonic × Nat)} {offset : Nat} {operands : List String}
    {encoder : String → Nat → Encoded} (schematic : Schematic offset encoder)
    (encodes : ∀ entry ∈ family, entry.1.encode operands = encoder entry.1.name entry.2)
    (line : Int)
    (s : Assembler) : Agree family offset operands line s := by
  rcases schematic with ⟨rest, label, noteFirst, encoded⟩ | ⟨refusal, refused⟩
  · -- the memory has room for the cells of all members, or of none
    cases fault : s.memory.fault? s.counter (rest.length + 1) with
    | none =>
      refine .inl ⟨rest, label, ?_⟩
      intro entry member
      have placed : entry.1.Places operands line s _ _ := Mnemonic.places_of_encode
        ((encodes entry member).trans (encoded entry.1.name entry.2)) fault
      rwa [Encoding.label_named] at placed
    | some crash =>
      refine .inr ⟨.crashed crash, ?_⟩
      intro entry member
      exact Mnemonic.halts_of_fault
        ((encodes entry member).trans (encoded entry.1.name entry.2)) fault
  · refine .inr ⟨refusal.ending s, ?_⟩
    intro entry member
    exact Mnemonic.halts_of_refusal
      ((encodes entry member).trans (refused entry.1.name entry.2))

/-- **The operations of a family emit alike**: the first cell lies equally far above the base of
each. -/
def EmitAlike (family : List (Mnemonic × Nat)) (operands : List String) (offset : Nat)
    (rest : List Nat) (label : Option String) : Prop :=
  ∀ entry ∈ family, entry.1.Emits operands ((entry.2 + offset) :: rest) label

/-- What the operands select is what all operations of a family emit, if they all encode it and one
of them encodes nothing else. -/
theorem emitAlike_iff {family : List (Mnemonic × Nat)} {operands : List String} {offset : Nat}
    {rest : List Nat} {label : Option String} {selected : Prop} (short : rest.length ≤ 2)
    (encodes : selected → ∃ noteFirst, ∀ entry ∈ family, entry.1.encode operands =
      .ok ⟨(entry.2 + offset) :: rest, label.map (⟨entry.1.name, ·⟩), noteFirst⟩)
    {entry : Mnemonic × Nat} (member : entry ∈ family)
    (decodes : Yields (fun encoding => encoding.cells = (entry.2 + offset) :: rest →
      encoding.label = label → selected) (entry.1.encode operands)) :
    selected ↔ EmitAlike family operands offset rest label := by
  constructor
  · intro h other among
    obtain ⟨noteFirst, encoded⟩ := encodes h
    exact Mnemonic.emits_of_encode (encoded other among)
  · intro emits
    have fits : ((entry.2 + offset) :: rest).length ≤ 3 := by
      simp only [List.length_cons]
      omega
    obtain ⟨noteFirst, encoded⟩ := (Mnemonic.emits_iff fits).1 (emits entry member)
    exact decodes _ encoded rfl (Encoding.label_named _ _ _ _)

/-- **The operations of a family read a form**: operands have it, with the code above the base, the
cells behind the code and the label that it gives, exactly if all operations emit this for them. -/
def Reads (family : List (Mnemonic × Nat))
    (form : List String → Nat → List Nat → Option String → Prop) (operands : List String) : Prop :=
  ∀ offset rest label, rest.length ≤ 2 →
    (form operands offset rest label ↔ EmitAlike family operands offset rest label)

/-- All operations of the family encode the form, and one of them encodes nothing else. -/
theorem reads_of_encode {family : List (Mnemonic × Nat)} {operands : List String}
    {form : List String → Nat → List Nat → Option String → Prop}
    (encodes : ∀ {offset rest label}, form operands offset rest label →
      ∃ noteFirst, ∀ entry ∈ family, entry.1.encode operands =
        .ok ⟨(entry.2 + offset) :: rest, label.map (⟨entry.1.name, ·⟩), noteFirst⟩)
    {entry : Mnemonic × Nat} (member : entry ∈ family)
    (decodes : Yields (Encoding.Above entry.2 (form operands)) (entry.1.encode operands)) :
    Reads family form operands := by
  intro offset rest label short
  refine emitAlike_iff short encodes member ?_
  intro encoding encoded cells waits
  exact waits ▸ decodes encoding encoded offset rest cells

/-! ## §4. Who notes a label. -/

/-- An instruction notes no other reference than the one it waits for. -/
theorem Encoding.reference_of_mem_moves {noted label : String} (encoding : Encoding)
    (member : Move.note noted label ∈ encoding.moves) :
    encoding.reference = some ⟨noted, label⟩ := by
  have stored : Move.note noted label ∉ encoding.cells.map Move.store := by simp
  unfold Encoding.moves at member
  cases waits : encoding.reference with
  | none =>
    rw [waits] at member
    exact absurd member stored
  | some reference =>
    rw [waits] at member
    have note : Move.note noted label = .note reference.mnemonic reference.label := by
      dsimp only at member
      split at member
      · exact (List.mem_cons.1 member).resolve_right stored
      · exact List.mem_singleton.1 ((List.mem_append.1 member).resolve_left stored)
    obtain ⟨rfl, rfl⟩ := Move.note.inj note
    rfl

theorem Refusal.note_notMem_moves {mnemonic noted label : String} {line : Int} (refusal : Refusal) :
    Move.note noted label ∉ refusal.moves mnemonic line := by
  cases refusal with
  | malformed stored => simp [Refusal.moves]
  | crash fault => simp [Refusal.moves]

/-- Whatever an operation is, it notes labels under its own name. -/
theorem Body.mnemonic_of_mem_movesOf {mnemonic noted label : String} {operands : List String}
    {line : Int} (member : Move.note noted label ∈ Body.movesOf line mnemonic operands) :
    noted = mnemonic := by
  unfold Body.movesOf at member
  by_cases isOrigin : mnemonic = "ORG"
  · rw [if_pos isOrigin] at member
    cases reached : origin operands with
    | ok address =>
      rw [reached] at member
      exact absurd member (by simp)
    | error refusal =>
      rw [reached] at member
      exact absurd member refusal.note_notMem_moves
  · rw [if_neg isOrigin] at member
    cases found : Mnemonic.ofName? mnemonic with
    | none =>
      rw [found] at member
      exact absurd member (by simp)
    | some known =>
      rw [found] at member
      dsimp only at member
      cases encoded : known.encode operands with
      | ok encoding =>
        rw [encoded] at member
        -- each encoder passes on the name of its own operation
        have waits := encoding.reference_of_mem_moves member
        exact ((Mnemonic.shaped_of_encode encoded).named _ waits).trans
          (Mnemonic.name_of_ofName? found)
      | error refusal =>
        rw [encoded] at member
        exact absurd member refusal.note_notMem_moves

/-- **An operation notes labels under its own name only**, however it ends. -/
theorem Assembler.references_of_operate {mnemonic : String} {operands : List String} {line : Int}
    {s t : Assembler}
    (h : operate line mnemonic operands s = .ok () t ∨
      ∃ stop, operate line mnemonic operands s = .error stop t) :
    ∃ labels : List String, t.references = s.references ++ labels.map (⟨mnemonic, ·⟩) := by
  rw [operate_eq_performAll] at h
  obtain ⟨done, rest, u, split, performed, ends⟩ :=
    Move.exists_performed (Body.movesOf line mnemonic operands) s
  have same : t = u := by
    rcases h with ok | ⟨stop, stops⟩ <;> rcases ends with ⟨_, ok'⟩ | ⟨stop', stops'⟩ <;> simp_all
  subst same
  -- step: a move adds nothing, or one label under the name of the operation
  refine Move.performAll_keeps
    (P := fun u => ∃ labels : List String, u.references =
      s.references ++ labels.map (⟨mnemonic, ·⟩))
    ?_ performed ⟨[], by simp⟩
  intro move member u v moved kept
  obtain ⟨labels, kept⟩ := kept
  have left := Move.perform_eq_ok moved
  cases move with
  | goTo address => exact ⟨labels, by rw [left]; exact kept⟩
  | store cell =>
    obtain ⟨slot, _, rfl⟩ := left
    exact ⟨labels, kept⟩
  | define label => exact ⟨labels, by rw [left.2]; exact kept⟩
  | halt stop => exact absurd left id
  | note noted label =>
    have named : noted = mnemonic :=
      Body.mnemonic_of_mem_movesOf (split ▸ List.mem_append_left rest member)
    refine ⟨labels ++ [label], ?_⟩
    rw [left, named]
    simp [kept]

/-! ## §5. Arithmetic and logic. -/

/-- The operations that combine the accumulator with an operand, and their bases. -/
def accumulatorFamily : List (Mnemonic × Nat) :=
  [(.add, 0x20), (.addc, 0x30), (.orl, 0x40), (.anl, 0x50), (.xrl, 0x60), (.subb, 0x90)]

/-- The operations of logic, and their bases. -/
def logicFamily : List (Mnemonic × Nat) :=
  [(.orl, 0x40), (.anl, 0x50), (.xrl, 0x60)]

/-- The operations of logic on the carry, and their codes for a bit and for an inverted bit. -/
def carryFamily (inverted : Bool) : List (Mnemonic × Nat) :=
  if inverted then [(.orl, 0xA0), (.anl, 0xB0)] else [(.orl, 0x72), (.anl, 0x82)]

/-- **The code that a cell and a second operand select above the base, and the cells behind it.** -/
inductive Operand.SelectsInto (target source : String) : Nat → List Nat → Prop where
  | accumulator {address : Nat} (named : source = "A") (cell : directAddress target = .ok address) :
      SelectsInto target source 2 [address]
  | constant {address value : Nat} (cell : directAddress target = .ok address)
      (constant : immediateValue source = .ok value) : SelectsInto target source 3 [address, value]

namespace Instruction

theorem encode_accumulatorFamily (source : String) :
    ∀ entry ∈ accumulatorFamily, entry.1.encode ["A", source] = accumulate entry.2 source := by
  simp [accumulatorFamily, Mnemonic.encode, addInto, addIntoLoosely, combineOrCarry, combine]

theorem encode_logicFamily {target source : String} (other : target ≠ "C") :
    ∀ entry ∈ logicFamily, entry.1.encode [target, source] = combine entry.2 [target, source] := by
  simp [logicFamily, Mnemonic.encode, combineOrCarry, combine, other]

/-- On a cell the operations of logic need neither of the tests for the accumulator and the
carry. -/
theorem encode_logicFamily_cell {target source : String} (cell : target ≠ "A")
    (other : target ≠ "C") :
    ∀ entry ∈ logicFamily, entry.1.encode [target, source] = combineCell entry.2 target source := by
  intro entry member
  exact (encode_logicFamily other entry member).trans (if_neg cell)

theorem encode_carryFamily (source : String) :
    ∀ entry ∈ carryFamily (invertedBit? source).isSome, entry.1.encode ["C", source] =
      bitAddress ((invertedBit? source).getD source) >>=
        fun address => plain [entry.2, address] := by
  cases marked : invertedBit? source <;>
    simp [carryFamily, Mnemonic.encode, combineOrCarry, combineCarry, marked]

theorem exists_mem_carryFamily (inverted : Bool) : ∃ entry, entry ∈ carryFamily inverted := by
  cases inverted with
  | false => exact ⟨(.orl, 0x72), by decide⟩
  | true => exact ⟨(.orl, 0xA0), by decide⟩

/-- **One decoder**: what an operand selects is what every operation of the family emits. -/
theorem selects_iff {source : String} {k : Nat} {rest : List Nat} (short : rest.length ≤ 2) :
    Operand.Selects source k rest ↔ EmitAlike accumulatorFamily ["A", source] k rest none := by
  have encodes := encode_accumulatorFamily source
  have added : (Mnemonic.add, 0x20) ∈ accumulatorFamily := by decide
  refine emitAlike_iff short ?_ added ?_
  · intro selects
    refine ⟨false, ?_⟩
    intro entry member
    exact (encodes entry member).trans (accumulate_of_selects selects entry.2)
  · intro encoding encoded cells _
    exact selects_of_accumulate 0x20 ((encodes _ added).symm.trans encoded) cells

/-- What is selected for a cell is encoded, above every base. -/
theorem combineCell_of_selectsInto {target source : String} {k : Nat} {rest : List Nat}
    (selects : Operand.SelectsInto target source k rest) (base : Nat) :
    combineCell base target source = .ok ⟨(base + k) :: rest, none, false⟩ := by
  cases selects with
  | accumulator named cell =>
    simp only [combineCell, if_pos named, cell]
    rfl
  | constant cell constant =>
    -- the accumulator is no constant
    have other : source ≠ "A" := by
      intro named
      have none : immediateValue "A" = .error (.malformed []) := rfl
      rw [named, none] at constant
      exact absurd constant (by simp)
    simp only [combineCell, if_neg other, constant, cell]
    rfl

/-- **Logic on a cell**: what the two operands select is what all three operations emit. -/
theorem selectsInto_iff {target source : String} {k : Nat} {rest : List Nat} (cell : target ≠ "A")
    (other : target ≠ "C") (short : rest.length ≤ 2) :
    Operand.SelectsInto target source k rest ↔
      EmitAlike logicFamily [target, source] k rest none := by
  have encodes := @encode_logicFamily_cell target source cell other
  have logic : (Mnemonic.orl, 0x40) ∈ logicFamily := by decide
  refine emitAlike_iff short ?_ logic ?_
  · intro selects
    refine ⟨false, ?_⟩
    intro entry member
    exact (encodes entry member).trans (combineCell_of_selectsInto selects entry.2)
  · intro encoding encoded cells _
    rw [encodes _ logic] at encoded
    refine combineCell_yields
      (P := Encoding.Above 0x40 fun k rest _ => Operand.SelectsInto target source k rest)
      ?_ ?_ encoding encoded k rest cells
    · intro named address addressed
      exact Encoding.above_of_form (.accumulator named addressed) rfl
    · intro address value addressed constant
      exact Encoding.above_of_form (.constant addressed constant) rfl

/-- **Logic on the carry**: the bit behind the mark, if there is one, is what both operations
emit. -/
theorem bitAddress_iff {source : String} {address : Nat} :
    bitAddress ((invertedBit? source).getD source) = .ok address ↔
      EmitAlike (carryFamily (invertedBit? source).isSome) ["C", source] 0 [address] none := by
  have encodes := encode_carryFamily source
  obtain ⟨entry, member⟩ := exists_mem_carryFamily (invertedBit? source).isSome
  refine emitAlike_iff (by simp) ?_ member ?_
  · intro addressed
    refine ⟨false, ?_⟩
    intro other among
    rw [encodes other among, addressed]
    rfl
  · rw [encodes entry member]
    refine yields_bind ?_
    intro bit addressed
    refine yields_plain ?_
    intro cells _
    obtain ⟨_, behind⟩ := List.cons.inj cells
    exact addressed.trans (congrArg _ (List.singleton_inj.1 behind))

end Instruction

open Instruction

/-- **Arithmetic and logic read their operands with one decoder.**  In every state the six
operations on the accumulator and an operand end alike.  If they succeed, they emit the code that
the operand selects above their bases and the same cells behind it; and what the operand selects,
all six emit wherever there is room.  The operations of logic end alike also on a cell, where what
they emit is selected by the cell and the second operand, and on the carry, where a bit and an
inverted bit have codes of their own and what they emit is the address of the bit. -/
theorem accumulator_operations_agree (line : Int) (s : Assembler) :
    (∀ source, ∃ k, Agree accumulatorFamily k ["A", source] line s) ∧
    (∀ source k rest, rest.length ≤ 2 →
      (Operand.Selects source k rest ↔ EmitAlike accumulatorFamily ["A", source] k rest none)) ∧
    (∀ target source, target ≠ "C" → ∃ k, Agree logicFamily k [target, source] line s) ∧
    (∀ target source k rest, target ≠ "A" → target ≠ "C" → rest.length ≤ 2 →
      (Operand.SelectsInto target source k rest ↔
        EmitAlike logicFamily [target, source] k rest none)) ∧
    (∀ source, Agree (carryFamily (invertedBit? source).isSome) 0 ["C", source] line s) ∧
    ∀ source address, bitAddress ((invertedBit? source).getD source) = .ok address ↔
      EmitAlike (carryFamily (invertedBit? source).isSome) ["C", source] 0 [address] none := by
  refine ⟨?_, ?_, ?_, ?_, ?_, ?_⟩
  · intro source
    obtain ⟨k, schematic⟩ := accumulate_schematic source
    exact ⟨k, agree_of_schematic schematic (encode_accumulatorFamily source) line s⟩
  · intro source k rest short
    exact selects_iff short
  · intro target source other
    obtain ⟨k, schematic⟩ := combine_schematic target source
    exact ⟨k, agree_of_schematic schematic (encode_logicFamily other) line s⟩
  · intro target source k rest cell other short
    exact selectsInto_iff cell other short
  · intro source
    exact agree_of_schematic (schematic_value 0 _) (encode_carryFamily source) line s
  · intro source address
    exact bitAddress_iff

/-- The last register selects the last code of each block, logic on a port and a constant takes
three cells, and an inverted bit has a code of its own. -/
theorem accumulator_operations_agree_last :
    Operand.Selects "R7" 15 [] ∧ Mnemonic.subb.Emits ["A", "R7"] [0x9F] none ∧
      (∃ k, Agree logicFamily k ["P1", "#0FH"] 1 (Assembler.ofSize 3)) ∧
      Mnemonic.orl.Emits ["P1", "#0FH"] [0x43, 0x90, 0x0F] none ∧
      Mnemonic.anl.Emits ["C", "/P1.0"] [0xB0, 0x90] none := by
  have last : Operand.Selects "R7" (8 + 7) [] := .register ⟨['7'], by rfl, by rfl⟩
  have port : Operand.SelectsInto "P1" "#0FH" 3 [0x90, 0x0F] := .constant (by rfl) (by rfl)
  have marked : bitAddress ((invertedBit? "/P1.0").getD "/P1.0") = .ok 0x90 := by rfl
  obtain ⟨_, decodes, logic, cells, _, bits⟩ :=
    accumulator_operations_agree 1 (Assembler.ofSize 3)
  refine ⟨last, ?_, logic "P1" "#0FH" (by decide), ?_, ?_⟩
  · exact (decodes "R7" 15 [] (by decide)).1 last (.subb, 0x90) (by decide)
  · exact (cells "P1" "#0FH" 3 [0x90, 0x0F] (by decide) (by decide) (by decide)).1 port
      (.orl, 0x40) (by decide)
  · exact (bits "/P1.0" 0x90).1 marked (.anl, 0xB0) (by decide +kernel)

/-! ## §6. Branches and operations with one operand. -/

/-- The branches on a bit, and their codes. -/
def bitBranchFamily : List (Mnemonic × Nat) :=
  [(.jbc, 0x10), (.jb, 0x20), (.jnb, 0x30)]

/-- The branches on the carry and the accumulator with the short jump, and their codes. -/
def branchFamily : List (Mnemonic × Nat) :=
  [(.jc, 0x40), (.jnc, 0x50), (.jz, 0x60), (.jnz, 0x70), (.sjmp, 0x80)]

/-- The operations on the stack, and their codes. -/
def stackFamily : List (Mnemonic × Nat) :=
  [(.push, 0xC0), (.pop, 0xD0)]

/-- Clearing and setting, and their bases. -/
def bitFamily : List (Mnemonic × Nat) :=
  [(.clr, 0xC0), (.setb, 0xD0)]

/-- Counting up and down, and their bases. -/
def countFamily : List (Mnemonic × Nat) :=
  [(.inc, 0x00), (.dec, 0x10)]

/-- A bit and a word: the branch holds the address of the bit and waits for the label. -/
inductive BitBranchForm : List String → Nat → List Nat → Option String → Prop where
  | mk {bit target label : String} {address : Nat} (addressed : decimalBitAddress bit = .ok address)
      (word : labelName? target = some label) :
      BitBranchForm [bit, target] 0 [address, placeholder] (some label)

/-- A word: the branch waits for the label. -/
inductive BranchForm : List String → Nat → List Nat → Option String → Prop where
  | mk {target label : String} (word : labelName? target = some label) :
      BranchForm [target] 0 [placeholder] (some label)

/-- A cell, by its address. -/
inductive StackForm : List String → Nat → List Nat → Option String → Prop where
  | mk {cell : String} {address : Nat} (addressed : directAddress cell = .ok address) :
      StackForm [cell] 0 [address] none

/-- The carry, which has a code of its own, or another bit. -/
inductive BitForm : List String → Nat → List Nat → Option String → Prop where
  | carry : BitForm ["C"] 3 [] none
  | bit {target : String} {address : Nat} (other : target ≠ "C")
      (addressed : bitAddress target = .ok address) : BitForm [target] 2 [address] none

/-- The accumulator, which has a code of its own, or what arithmetic reads, other than a
constant. -/
inductive CountForm : List String → Nat → List Nat → Option String → Prop where
  | accumulator : CountForm ["A"] 4 [] none
  | operand {target : String} {k : Nat} {rest : List Nat} (other : target ≠ "A")
      (selects : Operand.Selects target k rest) (noConstant : k ≠ 4) :
      CountForm [target] k rest none

namespace Instruction

variable (operands : List String)

theorem encode_bitBranchFamily : ∀ entry ∈ bitBranchFamily,
    entry.1.encode operands = branchOnBit entry.1.name entry.2 operands := by
  simp [bitBranchFamily, Mnemonic.encode, Mnemonic.name]

theorem encode_branchFamily : ∀ entry ∈ branchFamily,
    entry.1.encode operands = branch entry.1.name entry.2 operands := by
  simp [branchFamily, Mnemonic.encode, Mnemonic.name]

theorem encode_stackFamily :
    ∀ entry ∈ stackFamily, entry.1.encode operands = stack entry.2 operands := by
  simp [stackFamily, Mnemonic.encode]

theorem encode_bitFamily (other : operands ≠ ["A"]) :
    ∀ entry ∈ bitFamily, entry.1.encode operands = changeBit entry.2 operands := by
  simp [bitFamily, Mnemonic.encode, clear_eq_changeBit other, setBit_eq_changeBit]

theorem encode_countFamily (other : operands ≠ ["DLOCCTR"]) :
    ∀ entry ∈ countFamily, entry.1.encode operands = count entry.2 operands := by
  simp [countFamily, Mnemonic.encode, increment_eq_count other, decrement_eq_count]

theorem bitBranch_reads : Reads bitBranchFamily BitBranchForm operands := by
  have encodes := encode_bitBranchFamily operands
  have onSet : (Mnemonic.jb, 0x20) ∈ bitBranchFamily := by decide
  refine reads_of_encode ?_ onSet ?_
  · rintro offset rest label ⟨addressed, word⟩
    refine ⟨true, ?_⟩
    intro entry member
    rw [encodes entry member]
    simp only [branchOnBit, addressed, word]
    rfl
  · rw [encodes _ onSet]
    refine branchOnBit_yields ?_
    rintro bit target address label rfl addressed word
    exact Encoding.above_of_form (.mk addressed word) rfl

theorem branch_reads : Reads branchFamily BranchForm operands := by
  have encodes := encode_branchFamily operands
  have short : (Mnemonic.sjmp, 0x80) ∈ branchFamily := by decide
  refine reads_of_encode ?_ short ?_
  · rintro offset rest label ⟨word⟩
    refine ⟨true, ?_⟩
    intro entry member
    rw [encodes entry member]
    simp only [branch, word]
    rfl
  · rw [encodes _ short]
    refine branch_yields ?_
    rintro target label rfl word
    exact Encoding.above_of_form (.mk word) rfl

theorem stack_reads : Reads stackFamily StackForm operands := by
  have encodes := encode_stackFamily operands
  have pushed : (Mnemonic.push, 0xC0) ∈ stackFamily := by decide
  refine reads_of_encode ?_ pushed ?_
  · rintro offset rest label ⟨addressed⟩
    refine ⟨false, ?_⟩
    intro entry member
    exact (encodes entry member).trans (stack_of_directAddress addressed entry.2)
  · rw [encodes _ pushed]
    refine stack_yields ?_
    rintro cell address rfl addressed
    exact Encoding.above_of_form (.mk addressed) rfl

theorem changeBit_of_bitForm {offset : Nat} {rest : List Nat} {label : Option String}
    (form : BitForm operands offset rest label) (name : String) (base : Nat) :
    changeBit base operands = .ok ⟨(base + offset) :: rest, label.map (⟨name, ·⟩), false⟩ := by
  cases form with
  | carry => rfl
  | bit other addressed =>
    simp only [changeBit, if_neg other, addressed]
    rfl

theorem bit_reads : Reads bitFamily BitForm operands := by
  have set : (Mnemonic.setb, 0xD0) ∈ bitFamily := by decide
  refine reads_of_encode ?_ set ?_
  · intro offset rest label form
    -- the accumulator has none of the forms, as it is no bit
    have other : operands ≠ ["A"] := by
      rintro rfl
      have none : changeBit 0 ["A"] = .error (.malformed []) := rfl
      exact absurd (none.symm.trans (changeBit_of_bitForm _ form "SETB" 0)) (by simp)
    refine ⟨false, ?_⟩
    intro entry member
    exact (encode_bitFamily operands other entry member).trans
      (changeBit_of_bitForm operands form entry.1.name entry.2)
  · show Yields _ (setBit operands)
    by_cases carry : operands = ["C"]
    · subst carry
      exact yields_plain (Encoding.above_of_form .carry rfl)
    · refine setBit_yields (fun named => absurd named carry) ?_
      rintro target address rfl addressed
      have other : target ≠ "C" := fun named => carry (congrArg (fun text => [text]) named)
      exact Encoding.above_of_form (.bit other addressed) rfl

/-- What is selected, other than a constant, is counted. -/
theorem countOperand_of_selects {target : String} {k : Nat} {rest : List Nat}
    (selects : Operand.Selects target k rest) (other : target ≠ "A") (noConstant : k ≠ 4)
    (base : Nat) :
    countOperand base target = .ok ⟨(base + k) :: rest, none, false⟩ := by
  cases selects with
  | constant _ => exact absurd rfl noConstant
  | cell addressed => exact countOperand_of_directAddress addressed other base
  | pointer named =>
    obtain ⟨digit, kind, number⟩ := named
    simp only [countOperand, if_neg other, kind, number, ← Nat.add_assoc]
    rfl
  | register named =>
    obtain ⟨digit, kind, number⟩ := named
    simp only [countOperand, if_neg other, kind, number, ← Nat.add_assoc]
    rfl

theorem count_of_countForm {offset : Nat} {rest : List Nat} {label : Option String}
    (form : CountForm operands offset rest label) (name : String) (base : Nat) :
    count base operands = .ok ⟨(base + offset) :: rest, label.map (⟨name, ·⟩), false⟩ := by
  cases form with
  | accumulator => rfl
  | operand other selects noConstant =>
    exact countOperand_of_selects selects other noConstant base

/-- What is counted down is the accumulator or selected, and no constant. -/
theorem countForm_of_countOperand (base : Nat) (target : String) :
    Yields (Encoding.Above base (CountForm [target])) (countOperand base target) := by
  by_cases accumulator : target = "A"
  · subst accumulator
    exact yields_plain (Encoding.above_of_form .accumulator rfl)
  · refine countOperand_yields (fun named => absurd named accumulator) ?_ ?_ ?_
    · intro address addressed
      exact Encoding.above_of_form (.operand accumulator (.cell addressed) (by decide)) rfl
    · intro n named
      exact Encoding.above_of_form (.operand accumulator (.pointer named) (by omega))
        (Nat.add_assoc base 6 n)
    · intro n named
      exact Encoding.above_of_form (.operand accumulator (.register named) (by omega))
        (Nat.add_assoc base 8 n)

theorem count_reads : Reads countFamily CountForm operands := by
  have down : (Mnemonic.dec, 0x10) ∈ countFamily := by decide
  refine reads_of_encode ?_ down ?_
  · intro offset rest label form
    -- the data pointer has none of the forms, as it is no operand of arithmetic
    have other : operands ≠ ["DLOCCTR"] := by
      rintro rfl
      have none : count 0 ["DLOCCTR"] = .error (.malformed []) := rfl
      exact absurd (none.symm.trans (count_of_countForm _ form "DEC" 0)) (by simp)
    refine ⟨false, ?_⟩
    intro entry member
    exact (encode_countFamily operands other entry member).trans
      (count_of_countForm operands form entry.1.name entry.2)
  · show Yields _ (decrement operands)
    match operands with
    | [target] => exact countForm_of_countOperand 0x10 target
    | [] | _ :: _ :: _ => exact yields_malformed

end Instruction

/-- **Branches and operations with one operand agree in families.**  In every state and for every
list of operands the branches on a bit end alike, and so do the other branches, the operations on
the stack, clearing and setting, and counting up and down; and what the operations of a family emit
wherever there is room is said by the form that the operands have.  Only clearing takes the
accumulator, and only counting up takes the data pointer.  However an operation ends, the labels
that it notes are noted under its own name. -/
theorem branch_and_unary_operations_agree (line : Int) (s : Assembler) (operands : List String) :
    (Agree bitBranchFamily 0 operands line s ∧ Reads bitBranchFamily BitBranchForm operands) ∧
    (Agree branchFamily 0 operands line s ∧ Reads branchFamily BranchForm operands) ∧
    (Agree stackFamily 0 operands line s ∧ Reads stackFamily StackForm operands) ∧
    ((operands ≠ ["A"] → ∃ k, Agree bitFamily k operands line s) ∧
      Reads bitFamily BitForm operands) ∧
    (Mnemonic.clr.Emits ["A"] [0xE4] none ∧ Mnemonic.setb.Halts ["A"] line s (.exited 1)) ∧
    ((operands ≠ ["DLOCCTR"] → ∃ k, Agree countFamily k operands line s) ∧
      Reads countFamily CountForm operands) ∧
    (Mnemonic.inc.Emits ["DLOCCTR"] [0xA3] none ∧
      Mnemonic.dec.Halts ["DLOCCTR"] line s (.exited 1)) ∧
    ∀ mnemonic t, (Assembler.operate line mnemonic operands s = .ok () t ∨
        ∃ stop, Assembler.operate line mnemonic operands s = .error stop t) →
      ∃ labels : List String, t.references = s.references ++ labels.map (⟨mnemonic, ·⟩) := by
  refine ⟨⟨?_, bitBranch_reads operands⟩, ⟨?_, branch_reads operands⟩, ⟨?_, stack_reads operands⟩,
    ⟨?_, bit_reads operands⟩, ⟨?_, ?_⟩, ⟨?_, count_reads operands⟩, ⟨?_, ?_⟩, ?_⟩
  · exact agree_of_schematic (branchOnBit_schematic operands)
      (encode_bitBranchFamily operands) line s
  · exact agree_of_schematic (branch_schematic operands) (encode_branchFamily operands) line s
  · exact agree_of_schematic (stack_schematic operands) (encode_stackFamily operands) line s
  · intro other
    obtain ⟨k, schematic⟩ := changeBit_schematic operands
    exact ⟨k, agree_of_schematic schematic (encode_bitFamily operands other) line s⟩
  · exact Mnemonic.emits_of_encode
      (show Mnemonic.clr.encode ["A"] = .ok ⟨[0xE4], none, false⟩ from rfl)
  · exact Mnemonic.halts_of_refusal
      (show Mnemonic.setb.encode ["A"] = .error (.malformed []) from rfl)
  · intro other
    obtain ⟨k, schematic⟩ := count_schematic operands
    exact ⟨k, agree_of_schematic schematic (encode_countFamily operands other) line s⟩
  · exact Mnemonic.emits_of_encode
      (show Mnemonic.inc.encode ["DLOCCTR"] = .ok ⟨[0xA3], none, false⟩ from rfl)
  · exact Mnemonic.halts_of_refusal
      (show Mnemonic.dec.encode ["DLOCCTR"] = .error (.malformed []) from rfl)
  · intro mnemonic t ended
    exact Assembler.references_of_operate ended

/-- The state that a branch of three cells leaves in a memory of two. -/
def crowdedState : Assembler :=
  ⟨⟨#[0x30, 0x90]⟩, 2, LabelTable.empty, [⟨"JNB", "LOOP"⟩]⟩

/-- Each family at an operand of its own: what is emitted lies equally far above the bases.  The
name of the data pointer is refused alike as a bit, and a branch that finds no room has noted its
label all the same. -/
theorem branch_and_unary_operations_agree_crowded :
    EmitAlike bitBranchFamily ["P1.0", "LOOP"] 0 [0x90, placeholder] (some "LOOP") ∧
      EmitAlike branchFamily ["LOOP"] 0 [placeholder] (some "LOOP") ∧
      EmitAlike stackFamily ["P1"] 0 [0x90] none ∧ EmitAlike bitFamily ["P1.0"] 2 [0x90] none ∧
      EmitAlike countFamily ["A"] 4 [] none ∧ EmitAlike countFamily ["P1"] 5 [0x90] none ∧
      (∃ k, Agree countFamily k ["A"] 1 (Assembler.ofSize 1)) ∧
      (∃ k, Agree bitFamily k ["DLOCCTR"] 1 (Assembler.ofSize 1)) ∧
      Assembler.operate 1 "JNB" ["P1.0", "LOOP"] (Assembler.ofSize 2)
        = .error (.crashed .outsideMemory) crowdedState ∧
      ∃ labels : List String, crowdedState.references = labels.map (⟨"JNB", ·⟩) := by
  have word : labelName? "LOOP" = some "LOOP" := by decide +kernel
  have stopped : Assembler.operate 1 "JNB" ["P1.0", "LOOP"] (Assembler.ofSize 2)
      = .error (.crashed .outsideMemory) crowdedState := by rfl
  have families := branch_and_unary_operations_agree 1 (Assembler.ofSize 1)
  obtain ⟨⟨_, bitBranches⟩, _⟩ := families ["P1.0", "LOOP"]
  obtain ⟨_, ⟨_, branches⟩, _⟩ := families ["LOOP"]
  obtain ⟨_, _, ⟨_, pushes⟩, _, _, ⟨_, counts⟩, _⟩ := families ["P1"]
  obtain ⟨_, _, _, ⟨_, bits⟩, _⟩ := families ["P1.0"]
  obtain ⟨_, _, _, _, _, ⟨alike, counted⟩, _⟩ := families ["A"]
  obtain ⟨_, _, _, ⟨refused, _⟩, _⟩ := families ["DLOCCTR"]
  obtain ⟨_, _, _, _, _, _, _, noted⟩ :=
    branch_and_unary_operations_agree 1 (Assembler.ofSize 2) ["P1.0", "LOOP"]
  refine ⟨?_, ?_, ?_, ?_, ?_, ?_, alike (by decide), refused (by decide), stopped,
    noted "JNB" _ (.inr ⟨_, stopped⟩)⟩
  · exact (bitBranches _ _ _ (by decide)).1 (.mk (by rfl) word)
  · exact (branches _ _ _ (by decide)).1 (.mk word)
  · exact (pushes _ _ _ (by decide)).1 (.mk (by rfl))
  · exact (bits _ _ _ (by decide)).1 (.bit (by decide) (by rfl))
  · exact (counted _ _ _ (by decide)).1 .accumulator
  · exact (counts _ _ _ (by decide)).1 (.operand (by decide) (.cell (by rfl)) (by decide))

end Mcs51
