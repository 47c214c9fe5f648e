/-
  Mcs51.Proofs.DirectOperands — which operations read the address of a cell alike.

  A directly addressed cell is written as the name of a special function register or as a number.
  The addition reads both, and so do most operations that take such a cell: what they store behind
  their own code is the address.  Two do not.  The exchange stores the address of the accumulator,
  whatever the operand is, and the comparison takes a name for a constant.

  Main definition:
    * `Operand.Selects` : the code and the cells that an operand selects in arithmetic and logic.

  Main statements:
    * `accumulate_of_selects`, `selects_of_accumulate` : what is selected is what is encoded;
    * `directAddress_of_accumulate` : what is added as a cell has an address;
    * `moveIntoA_of_directAddress`, `stack_of_directAddress`, … : what each operation makes of it;
    * `direct_operand_read_alike_iff` : when the other two do.
-/
import Mcs51.Proofs.Emission
import Mcs51.Proofs.OperandRange

namespace Mcs51

open Instruction

variable {text : String} {v : Nat}

/-! ## §1. What the addition reads. -/

/-- **The code that an operand selects above the base, and the cells behind it.** -/
inductive Operand.Selects (text : String) : Nat → List Nat → Prop where
  | constant {value : Nat} (h : immediateValue text = .ok value) : Selects text 4 [value]
  | cell {address : Nat} (h : directAddress text = .ok address) : Selects text 5 [address]
  | pointer {n : Nat} (h : IsPointer text n) : Selects text (6 + n) []
  | register {n : Nat} (h : IsRegister text n) : Selects text (8 + n) []

/-- An operand that has an address is a name or a number. -/
theorem ofText_of_directAddress (address : directAddress text = .ok v) :
    Operand.ofText text = .special v ∨
      ∃ numeral, Operand.ofText text = .direct numeral ∧ numberOf numeral = .ok v := by
  unfold directAddress at address
  split at address
  next named kind => exact .inl (kind.trans (congrArg _ (Except.ok.inj address)))
  next numeral kind => exact .inr ⟨numeral, kind, address⟩
  · exact absurd address (by simp)

/-- What is selected is encoded, above every base. -/
theorem accumulate_of_selects {source : String} {k : Nat} {rest : List Nat}
    (selects : Operand.Selects source k rest) (base : Nat) :
    accumulate base source = .ok ⟨(base + k) :: rest, none, false⟩ := by
  cases selects with
  | constant value =>
    unfold immediateValue at value
    split at value
    next kind =>
      simp only [accumulate, kind, value]
      rfl
    · exact absurd value (by simp)
  | cell address =>
    rcases ofText_of_directAddress address with kind | ⟨numeral, kind, value⟩
    · simp only [accumulate, kind]
      rfl
    · simp only [accumulate, kind, value]
      rfl
  | pointer named =>
    obtain ⟨digit, kind, number⟩ := named
    simp only [accumulate, kind, number, ← Nat.add_assoc]
    rfl
  | register named =>
    obtain ⟨digit, kind, number⟩ := named
    simp only [accumulate, kind, number, ← Nat.add_assoc]
    rfl

/-- What is encoded was selected. -/
theorem selects_of_accumulate (base : Nat) {source : String} {k : Nat} {rest : List Nat}
    {encoding : Encoding} (accumulated : accumulate base source = .ok encoding)
    (cells_eq : encoding.cells = (base + k) :: rest) : Operand.Selects source k rest := by
  refine accumulate_yields (P := Encoding.Above base fun k rest _ => Operand.Selects source k rest)
    ?_ ?_ ?_ ?_ encoding accumulated k rest cells_eq
  · intro value number
    exact Encoding.above_of_form (.constant number) rfl
  · intro address value
    exact Encoding.above_of_form (.cell value) rfl
  · intro n named
    exact Encoding.above_of_form (.pointer named) (Nat.add_assoc base 6 n)
  · intro n named
    exact Encoding.above_of_form (.register named) (Nat.add_assoc base 8 n)

/-- An operand that is added as a cell has an address. -/
theorem directAddress_of_accumulate {base : Nat} {encoding : Encoding}
    (accumulated : accumulate base text = .ok encoding)
    (cells_eq : encoding.cells = [base + 5, v]) :
    directAddress text = .ok v := by
  have selects := selects_of_accumulate base accumulated cells_eq
  -- constants have another code, and behind registers there is no cell
  generalize code : 5 = k, behind : [v] = rest at selects
  cases selects with
  | constant _ => exact absurd code (by decide)
  | cell address => exact address.trans (congrArg _ (List.singleton_inj.1 behind).symm)
  | pointer _ => exact absurd behind (by simp)
  | register _ => exact absurd behind (by simp)

/-- A number is no name: names are looked up first. -/
theorem address?_of_direct {numeral : Numeral} (kind : Operand.ofText text = .direct numeral) :
    SpecialRegister.address? text = none := by
  unfold Operand.ofText at kind
  split at kind
  · exact absurd kind (by simp)
  · split at kind
    · exact absurd kind (by simp)
    · split at kind
      · exact absurd kind (by simp)
      next absent => exact absent

/-! ## §2. Operations that read the address. -/

/-- Cells that are stored before the label is looked at wait for it. -/
theorem storeThenAwait_of_labelName? {name target label : String}
    (word : labelName? target = some label) (cells : List Nat) :
    storeThenAwait name cells target = .ok ⟨cells, some ⟨name, label⟩, false⟩ := by
  unfold storeThenAwait
  rw [word]
  rfl

section Reading

variable (address : directAddress text = .ok v)
include address

theorem moveIntoA_of_directAddress : moveIntoA text = .ok (.ofCells [0xE5, v]) := by
  have read : moveIntoA text = directAddress text >>= fun cell => Encoded.plain [0xE5, cell] := by
    rcases ofText_of_directAddress address with kind | ⟨numeral, kind, _⟩ <;> simp [moveIntoA, kind]
  rw [read, address]
  rfl

theorem countOperand_of_directAddress (other : text ≠ "A") (base : Nat) :
    countOperand base text = .ok (.ofCells [base + 5, v]) := by
  have read : countOperand base text =
      directAddress text >>= fun cell => Encoded.plain [base + 5, cell] := by
    rcases ofText_of_directAddress address with kind | ⟨numeral, kind, _⟩ <;>
      simp [countOperand, other, kind]
  rw [read, address]
  rfl

theorem countCells_of_directAddress : countCells text = .ok [0xD5, v, placeholder] := by
  have read : countCells text =
      directAddress text >>= fun cell => .ok [0xD5, cell, placeholder] := by
    rcases ofText_of_directAddress address with kind | ⟨numeral, kind, _⟩ <;>
      simp [countCells, kind, pure, Except.pure]
  rw [read, address]
  rfl

theorem stack_of_directAddress (opcode : Nat) :
    stack opcode [text] = .ok (.ofCells [opcode, v]) := by
  show (directAddress text >>= fun cell => Encoded.plain [opcode, cell]) = _
  rw [address]
  rfl

theorem increment_of_directAddress (other : text ≠ "A") :
    increment [text] = .ok (.ofCells [0x05, v]) := by
  -- the data pointer, which has no address, would be seen first
  have pointer : text ≠ "DLOCCTR" := by
    intro named
    have none : directAddress "DLOCCTR" = .error (.malformed []) := rfl
    rw [named, none] at address
    exact absurd address (by simp)
  show (if text = "DLOCCTR" then Encoded.plain [0xA3] else countOperand 0x00 text) = _
  rw [if_neg pointer]
  exact countOperand_of_directAddress address other 0x00

theorem countBranch_of_directAddress {target label : String}
    (word : labelName? target = some label) :
    countBranch [text, target] = .ok ⟨[0xD5, v, placeholder], some ⟨"DJNZ", label⟩, false⟩ := by
  show (countCells text >>= (storeThenAwait "DJNZ" · target)) = _
  rw [countCells_of_directAddress address]
  exact storeThenAwait_of_labelName? word _

/-! ## §3. Operations that do not. -/

/-- The exchange does not look at the address. -/
theorem exchange_of_directAddress : exchange ["A", text] = .ok (.ofCells [0xC5, 0xE0]) := by
  rcases ofText_of_directAddress address with kind | ⟨numeral, kind, _⟩ <;>
    simp [exchange, kind, Encoded.plain, Encoding.ofCells]

/-- The comparison has a code of its own for a cell, but a name gets the code of a constant. -/
theorem compareCells_of_directAddress : compareCells "A" text = .ok
    [if SpecialRegister.address? text = none then 0xB5 else 0xB4, v, placeholder] := by
  rcases ofText_of_directAddress address with kind | ⟨numeral, kind, value⟩
  · have named : SpecialRegister.address? text = some v := Operand.spells_of_ofText kind
    simp [compareCells, kind, named, pure, Except.pure]
  · simp [compareCells, kind, value, address?_of_direct kind, pure, Except.pure, bind, Except.bind]

theorem compareBranch_of_directAddress {target label : String}
    (word : labelName? target = some label) :
    compareBranch ["A", text, target] = .ok
      ⟨[if SpecialRegister.address? text = none then 0xB5 else 0xB4, v, placeholder],
        some ⟨"CJNE", label⟩, false⟩ := by
  show (compareCells "A" text >>= (storeThenAwait "CJNE" · target)) = _
  rw [compareCells_of_directAddress address]
  exact storeThenAwait_of_labelName? word _

end Reading

/-! ## §4. All operations that take a cell. -/

/-- **Which operations read a cell as the addition does.**  If an operand, other than the
accumulator, is added as the cell of address `v`, then moving it into the accumulator, counting it
up or down, bringing it to the stack or from it and counting it down in a branch all store `v`.  The
exchange always stores the address of the accumulator, so it stores `v` exactly if that is the
address.  The comparison uses the code for cells exactly if the operand is a number; a name is
compared under the code for constants. -/
theorem direct_operand_read_alike_iff (direct : Mnemonic.add.Emits ["A", text] [0x25, v] none)
    (other : text ≠ "A") :
    (Mnemonic.mov.Emits ["A", text] [0xE5, v] none ∧ Mnemonic.inc.Emits [text] [0x05, v] none ∧
      Mnemonic.dec.Emits [text] [0x15, v] none ∧ Mnemonic.push.Emits [text] [0xC0, v] none ∧
      Mnemonic.pop.Emits [text] [0xD0, v] none ∧
      ∀ target label, labelName? target = some label →
        Mnemonic.djnz.Emits [text, target] [0xD5, v, placeholder] (some label)) ∧
    (Mnemonic.xch.Emits ["A", text] [0xC5, v] none ↔ v = 0xE0) ∧
    Mnemonic.xch.Emits ["A", text] [0xC5, 0xE0] none ∧
    ∀ target label, labelName? target = some label →
      (Mnemonic.cjne.Emits ["A", text, target] [0xB5, v, placeholder] (some label) ↔
        SpecialRegister.address? text = none) ∧
      (Mnemonic.cjne.Emits ["A", text, target] [0xB4, v, placeholder] (some label) ↔
        SpecialRegister.address? text ≠ none) := by
  have address : directAddress text = .ok v := by
    obtain ⟨noteFirst, added⟩ := (Mnemonic.emits_iff (by simp)).1 direct
    exact directAddress_of_accumulate added rfl
  have exchanged := exchange_of_directAddress address
  refine ⟨⟨?_, ?_, ?_, ?_, ?_, ?_⟩, ?_, ?_, ?_⟩
  · exact Mnemonic.emits_of_encode (moveIntoA_of_directAddress address)
  · exact Mnemonic.emits_of_encode (increment_of_directAddress address other)
  · exact Mnemonic.emits_of_encode (countOperand_of_directAddress address other 0x10)
  · exact Mnemonic.emits_of_encode (stack_of_directAddress address 0xC0)
  · exact Mnemonic.emits_of_encode (stack_of_directAddress address 0xD0)
  · intro target label word
    exact Mnemonic.emits_of_encode (countBranch_of_directAddress address word)
  · have encoded : Mnemonic.xch.encode ["A", text] = _ := exchanged
    rw [Mnemonic.emits_iff (by simp), encoded]
    simp [Encoding.ofCells, eq_comm]
  · exact Mnemonic.emits_of_encode exchanged
  · intro target label word
    have encoded : Mnemonic.cjne.encode ["A", text, target] = _ :=
      compareBranch_of_directAddress address word
    rw [Mnemonic.emits_iff (by simp), Mnemonic.emits_iff (by simp), encoded]
    by_cases named : SpecialRegister.address? text = none
    · simp [named, Mnemonic.name]
    · simp [named, Mnemonic.name]

/-- The accumulator, written as a number, is read alike by all of them. -/
theorem direct_operand_read_alike_iff_number :
    Mnemonic.add.Emits ["A", "0E0H"] [0x25, 0xE0] none ∧ "0E0H" ≠ "A" ∧
      Mnemonic.inc.Emits ["0E0H"] [0x05, 0xE0] none ∧
      Mnemonic.djnz.Emits ["0E0H", "LOOP"] [0xD5, 0xE0, placeholder] (some "LOOP") ∧
      Mnemonic.xch.Emits ["A", "0E0H"] [0xC5, 0xE0] none ∧
      Mnemonic.cjne.Emits ["A", "0E0H", "LOOP"] [0xB5, 0xE0, placeholder] (some "LOOP") := by
  have encoded : Mnemonic.add.encode ["A", "0E0H"] = .ok ⟨[0x25, 0xE0], none, false⟩ := by rfl
  have added : Mnemonic.add.Emits ["A", "0E0H"] [0x25, 0xE0] none :=
    Mnemonic.emits_of_encode encoded
  have word : labelName? "LOOP" = some "LOOP" := by decide +kernel
  obtain ⟨⟨_, counted, _, _, _, branches⟩, exchanged, _, compared⟩ :=
    direct_operand_read_alike_iff added (by decide)
  refine ⟨added, by decide, counted, branches _ _ word, exchanged.2 rfl, ?_⟩
  exact (compared _ _ word).1.2 (by decide +kernel)

/-- **The exchange misses register B, and so does the comparison.**  The register is added as the
cell of address `0xF0`.  The exchange stores the address of the accumulator for it, and the
comparison has the code for a constant. -/
theorem exchange_misses_register_B :
    Statement.parse (Source.lines "XCH A,B") = .ok [⟨1, .operation "XCH" ["A", "B"]⟩] ∧
      Mnemonic.add.Emits ["A", "B"] [0x25, 0xF0] none ∧ "B" ≠ "A" ∧
      Mnemonic.xch.Emits ["A", "B"] [0xC5, 0xE0] none ∧
      ¬Mnemonic.xch.Emits ["A", "B"] [0xC5, 0xF0] none ∧
      Mnemonic.cjne.Emits ["A", "B", "L"] [0xB4, 0xF0, placeholder] (some "L") ∧
      ¬Mnemonic.cjne.Emits ["A", "B", "L"] [0xB5, 0xF0, placeholder] (some "L") := by
  have added : Mnemonic.add.encode ["A", "B"] = .ok ⟨[0x25, 0xF0], none, false⟩ := by rfl
  have exchanged : Mnemonic.xch.encode ["A", "B"] = .ok ⟨[0xC5, 0xE0], none, false⟩ := by rfl
  have compared : Mnemonic.cjne.encode ["A", "B", "L"] =
      .ok ⟨[0xB4, 0xF0, placeholder], some ⟨"CJNE", "L"⟩, false⟩ := by rfl
  refine ⟨by decide +kernel, Mnemonic.emits_of_encode added, by decide,
    Mnemonic.emits_of_encode exchanged, ?_, Mnemonic.emits_of_encode compared, ?_⟩
  · rw [Mnemonic.emits_iff (by simp), exchanged]
    simp
  · rw [Mnemonic.emits_iff (by simp), compared]
    simp

end Mcs51
