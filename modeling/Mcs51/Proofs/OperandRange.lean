/-
  Mcs51.Proofs.OperandRange — which operands make an instruction of bytes.

  A number is stored as it is written, however large it is, and the number of a register is added to
  a base.  Nothing is cut off and nothing is refused, so that a cell can hold more than a byte.
  Whether it does is seen from the operands alone: the numbers among them decide, and one pair of
  registers that do not exist.

  Main definitions:
    * `Operand.number?`, `Operand.Below` : the number in an operand, and a limit for it;
    * `Encoding.DecidedBy` : operands whose numbers decide whether an encoding consists of bytes;
    * `Mnemonic.FitsBytes` : operands whose instruction consists of bytes.

  Main statements:
    * `Operand.below_iff_of_directAddress`, `Operand.below_iff_of_bitAddress`, … : what is stored
      for a number is the number;
    * `Mnemonic.isBytes_iff` : the operands decide.
-/
import Mcs51.Proofs.OpcodeMap

namespace Mcs51

/-! ## §1. Numbers in operands. -/

namespace Operand

/-- The number in an operand, as written: a plain one, a constant, or the number of an inverted
bit. -/
def numeral? (text : String) : Option Numeral :=
  (Numeral.ofText? text.toList).or ((Numeral.ofImmediate? text.toList).or
    ((invertedBit? text).bind fun bit => Numeral.ofText? bit.toList))

/-- The value of the number in an operand. -/
def number? (text : String) : Option Nat :=
  (numeral? text).bind fun numeral => numeral.value.toOption

/-- If there is a number in the operand, it is below the limit. -/
def Below (limit : Nat) (text : String) : Prop :=
  ∀ n ∈ number? text, n < limit

/-- The number of the register that an operand names. -/
def register? (text : String) : Option Nat :=
  match ofText text with
  | .register digit => (registerNumber digit).toOption
  | _ => none

instance (limit : Nat) (text : String) : Decidable (Below limit text) :=
  inferInstanceAs (Decidable (∀ n ∈ number? text, _))

section Below

variable {text : String} {limit n : Nat}

theorem numberOf_eq_ok {numeral : Numeral} : numberOf numeral = .ok n ↔ numeral.value = .ok n := by
  unfold numberOf
  cases numeral.value with
  | error crash => exact iff_of_false (fun failed => nomatch failed) (fun failed => nomatch failed)
  | ok m =>
    constructor
    · intro same
      exact congrArg _ (Except.ok.inj same)
    · intro same
      exact congrArg _ (Except.ok.inj same)

theorem below_of_numeral?_none (h : numeral? text = none) : Below limit text := by
  intro n member
  simp [number?, h] at member

theorem below_iff_of_numeral? {numeral : Numeral} (h : numeral? text = some numeral)
    (value : numberOf numeral = .ok n) : Below limit text ↔ n < limit := by
  simp [Below, number?, h, numberOf_eq_ok.1 value, Except.toOption]

/-- A text that begins with another character than a number does holds no number. -/
theorem numeral?_of_cons {c : Char} {rest : List Char} (spelled : text.toList = c :: rest)
    (other : Digits.isHexCapital c = false) (constant : c ≠ '#') (inverted : c ≠ '/') :
    numeral? text = none := by
  have decimal : Digits.isDecimal c = false := by
    unfold Digits.isHexCapital at other
    exact (Bool.or_eq_false_iff.1 other).1
  simp [numeral?, Numeral.ofText?, Numeral.ofImmediate?, invertedBit?, spelled, Shape.capture?,
    Shape.hex,
    Shape.dec, Shape.immediateHex, Shape.immediateDec, Shape.inverted, Text.stripOpening?,
    Repetition.take?, other, decimal, Ne.symm constant, Ne.symm inverted]

/-- An inverted bit holds the number of the bit. -/
theorem numeral?_of_invertedBit? {bit : String} (marked : invertedBit? text = some bit) :
    numeral? text = Numeral.ofText? bit.toList := by
  obtain ⟨run, captured, rfl⟩ := Option.map_eq_some_iff.1 marked
  obtain ⟨rest, spelled⟩ := Shape.capture?_eq_spell captured
  have slash : text.toList = '/' :: (run ++ rest) := by
    simpa [Shape.spell, Shape.inverted] using spelled
  have plain : Numeral.ofText? text.toList = none ∧ Numeral.ofImmediate? text.toList = none := by
    rw [slash]
    exact ⟨rfl, rfl⟩
  simp [numeral?, plain, marked]

theorem mem_of_lookup {table : List (String × Nat)} (named : table.lookup text = some n) :
    (text, n) ∈ table := by
  obtain ⟨before, after, split, _⟩ := List.lookup_eq_some_iff.1 named
  simp [split]

/-- A name from a table is no number, and its address is a byte. -/
theorem byte_of_lookup {table : List (String × Nat)}
    (all : ∀ entry ∈ table, numeral? entry.1 = none ∧ entry.2 < 256)
    (named : table.lookup text = some n) : numeral? text = none ∧ n < 256 :=
  all (text, n) (mem_of_lookup named)

end Below

/-! ## §2. The values that are stored. -/

/-- How an operand that denotes a byte is spelled. -/
def Spells (text : String) : Operand → Prop
  | .indirect digit => Shape.indirect.capture? text.toList = some digit
  | .register digit => Shape.register.capture? text.toList = some digit
  | .special address => SpecialRegister.address? text = some address
  | .direct address => Numeral.ofText? text.toList = some address
  | .immediate constant =>
    Numeral.ofText? text.toList = none ∧ Numeral.ofImmediate? text.toList = some constant
  | .other => True

theorem spells_ofText (text : String) : Spells text (ofText text) := by
  unfold ofText
  split
  next found => exact found
  · split
    next found => exact found
    · split
      next found => exact found
      · split
        next found => exact found
        next absent =>
          split
          next found => exact ⟨absent, found⟩
          · trivial

theorem spells_of_ofText {text : String} {operand : Operand} (kind : ofText text = operand) :
    Spells text operand :=
  kind ▸ spells_ofText text

section Values

variable {text : String} {limit n : Nat}

theorem below_iff_of_directAddress (value : directAddress text = .ok n) :
    Below 256 text ↔ n < 256 := by
  unfold directAddress at value
  split at value
  next address kind =>
    obtain rfl := Except.ok.inj value
    have named : SpecialRegister.addresses.lookup text = some address := spells_of_ofText kind
    obtain ⟨none, small⟩ := byte_of_lookup (by decide +kernel) named
    exact iff_of_true (below_of_numeral?_none none) small
  next address kind =>
    have written : Numeral.ofText? text.toList = some address := spells_of_ofText kind
    exact below_iff_of_numeral? (by simp [numeral?, written]) value
  · exact absurd value (by simp)

theorem below_iff_of_immediateValue (value : immediateValue text = .ok n) :
    Below limit text ↔ n < limit := by
  unfold immediateValue at value
  split at value
  next constant kind =>
    obtain ⟨plain, written⟩ : Numeral.ofText? text.toList = none ∧ _ := spells_of_ofText kind
    exact below_iff_of_numeral? (by simp [numeral?, plain, written]) value
  · exact absurd value (by simp)

/-- A bit is known by a name, whose address is a byte, or by a number. -/
theorem named_or_literal_of_bitAddress (value : bitAddress text = .ok n) :
    numeral? text = none ∧ n < 256 ∨
      ∃ numeral, Numeral.ofText? text.toList = some numeral ∧ numberOf numeral = .ok n := by
  unfold bitAddress BitOperand.ofText at value
  cases found : SpecialRegister.bitAddress? text with
  | some bit =>
    obtain rfl : bit = n := by simpa [found] using value
    exact .inl (byte_of_lookup (by decide +kernel) found)
  | none =>
    cases written : Numeral.ofText? text.toList with
    | none => exact absurd value (by simp [found, written])
    | some numeral => exact .inr ⟨numeral, rfl, by simpa [found, written] using value⟩

theorem below_iff_of_bitAddress (value : bitAddress text = .ok n) : Below 256 text ↔ n < 256 := by
  rcases named_or_literal_of_bitAddress value with ⟨none, small⟩ | ⟨numeral, written, number⟩
  · exact iff_of_true (below_of_numeral?_none none) small
  · exact below_iff_of_numeral? (by simp [numeral?, written]) number

theorem below_iff_of_inverted {bit : String} (marked : invertedBit? text = some bit)
    (value : bitAddress bit = .ok n) : Below 256 text ↔ n < 256 := by
  have same := numeral?_of_invertedBit? marked
  rcases named_or_literal_of_bitAddress value with ⟨none, small⟩ | ⟨numeral, written, number⟩
  · -- what holds no number at all is no plain number either
    have plain : Numeral.ofText? bit.toList = Option.none := (Option.or_eq_none_iff.1 none).1
    exact iff_of_true (below_of_numeral?_none (same.trans plain)) small
  · exact below_iff_of_numeral? (same.trans written) number

/-- Where numbers of base 16 fail, the others are addresses as everywhere. -/
theorem bitAddress_of_decimalBitAddress (value : decimalBitAddress text = .ok n) :
    bitAddress text = .ok n := by
  unfold decimalBitAddress at value
  unfold bitAddress
  split at value
  next kind => simpa [kind] using value
  · exact absurd value (by simp)
  next kind => simpa [kind] using value
  · exact absurd value (by simp)

/-! Registers and named operands hold no number. -/

theorem IsRegister.below (named : IsRegister text n) : Below limit text := by
  obtain ⟨digit, kind, _⟩ := named
  obtain ⟨rest, spelled⟩ := Shape.capture?_eq_spell (spells_of_ofText kind)
  exact below_of_numeral?_none (numeral?_of_cons spelled (by decide) (by decide) (by decide))

theorem IsPointer.below (named : IsPointer text n) : Below limit text := by
  obtain ⟨digit, kind, _⟩ := named
  obtain ⟨rest, spelled⟩ := Shape.capture?_eq_spell (spells_of_ofText kind)
  exact below_of_numeral?_none (numeral?_of_cons spelled (by decide) (by decide) (by decide))

theorem below_accumulator : Below limit "A" := below_of_numeral?_none (by decide)

theorem below_carry : Below limit "C" := below_of_numeral?_none (by decide)

/-! A register has a decimal digit. -/

theorem lt_of_registerOf {digit : List Char} (number : registerOf digit = .ok n) : n < 10 := by
  unfold registerOf registerNumber at number
  split at number
  next found =>
    obtain rfl := Except.ok.inj number
    obtain ⟨c, _, value⟩ := Option.bind_eq_some_iff.1 found
    exact Text.decimalValue?_lt value
  · exact nomatch number

theorem IsRegister.lt (named : IsRegister text n) : n < 10 := by
  obtain ⟨digit, _, number⟩ := named
  exact lt_of_registerOf number

theorem IsPointer.lt (named : IsPointer text n) : n < 10 := by
  obtain ⟨digit, _, number⟩ := named
  exact lt_of_registerOf number

theorem IsRegister.register?_eq (named : IsRegister text n) : register? text = some n := by
  obtain ⟨digit, kind, number⟩ := named
  simp [register?, kind, toOption_of_registerOf number]

theorem register?_of_directAddress (value : directAddress text = .ok n) :
    register? text = none := by
  unfold directAddress at value
  split at value
  next kind => simp [register?, kind]
  next kind => simp [register?, kind]
  · exact absurd value (by simp)

theorem IsPointer.register?_eq (named : IsPointer text n) : register? text = none := by
  obtain ⟨digit, kind, _⟩ := named
  simp [register?, kind]

end Values

end Operand

/-! ## §3. Families of instructions. -/

/-- Every cell of the encoding is a byte. -/
def Encoding.IsBytes (encoding : Encoding) : Prop :=
  ∀ cell ∈ encoding.cells, cell < 256

/-- The numbers in these operands decide whether the encoding consists of bytes. -/
def Encoding.DecidedBy (texts : List String) (encoding : Encoding) : Prop :=
  encoding.IsBytes ↔ ∀ text ∈ texts, Operand.Below 256 text

namespace Instruction

open Operand Encoding

variable {texts operands : List String} {name target source label : String} {base opcode n : Nat}

/-- Cells that hold no number from an operand. -/
theorem decidedBy_fixed {encoding : Encoding} (bytes : encoding.IsBytes)
    (below : ∀ text ∈ texts, Below 256 text) : encoding.DecidedBy texts :=
  iff_of_true bytes below

/-- One cell, which is a code above a base. -/
theorem decidedBy_code (code : opcode < 256) (below : ∀ text ∈ texts, Below 256 text) :
    (ofCells [opcode]).DecidedBy texts :=
  decidedBy_fixed (by simpa [IsBytes, ofCells] using code) below

/-- An operation code and one number, and a placeholder behind them or not. -/
theorem decidedBy_value {tail : List Nat} {reference : Option Reference} {noteFirst : Bool}
    (value : (∀ text ∈ texts, Below 256 text) ↔ n < 256) (code : opcode < 256)
    (waiting : ∀ cell ∈ tail, cell = placeholder) :
    Encoding.DecidedBy texts ⟨opcode :: n :: tail, reference, noteFirst⟩ := by
  have bytes : ∀ cell ∈ tail, cell < 256 := by
    intro cell member
    rw [waiting cell member]
    decide
  unfold DecidedBy IsBytes
  rw [value]
  simp only [List.forall_mem_cons]
  exact ⟨fun cells => cells.2.1, fun small => ⟨code, small, bytes⟩⟩

theorem forall_one (first : operands[0]? = some target) :
    (∀ text ∈ operands.take 1, Below 256 text) ↔ Below 256 target := by
  match operands with
  | [] => exact absurd first (by simp)
  | text :: rest =>
    obtain rfl : text = target := Option.some.inj first
    simp

theorem forall_two (first : operands[0]? = some target) (second : operands[1]? = some source) :
    (∀ text ∈ operands.take 2, Below 256 text) ↔ Below 256 target ∧ Below 256 source := by
  match operands with
  | [] => exact absurd first (by simp)
  | [_] => exact absurd second (by simp)
  | text :: later :: rest =>
    obtain rfl : text = target := Option.some.inj first
    obtain rfl : later = source := Option.some.inj second
    simp

/-! Operations with one number at most. -/

theorem countOperand_decided (small : base ≤ 0x10) :
    ∀ target ∈ operands[0]?, Yields (DecidedBy (operands.take 1)) (countOperand base target) := by
  intro target first
  have below := forall_one first
  refine countOperand_yields ?_ ?_ ?_ ?_
  · rintro rfl
    exact decidedBy_code (by omega) (below.2 below_accumulator)
  · intro address value
    exact decidedBy_value (below.trans (below_iff_of_directAddress value)) (by omega) (by simp)
  · intro n named
    have := named.lt
    exact decidedBy_code (by omega) (below.2 named.below)
  · intro n named
    have := named.lt
    exact decidedBy_code (by omega) (below.2 named.below)

theorem complement_decided : Yields (DecidedBy (operands.take 1)) (complement operands) := by
  refine complement_yields ?_ ?_ ?_
  · rintro rfl
    exact decidedBy_code (by decide) ((forall_one rfl).2 below_accumulator)
  · rintro rfl
    exact decidedBy_code (by decide) ((forall_one rfl).2 below_carry)
  · rintro target address rfl value
    have number := below_iff_of_bitAddress (bitAddress_of_decimalBitAddress value)
    exact decidedBy_value ((forall_one rfl).trans number) (by decide) (by simp)

theorem clear_decided : Yields (DecidedBy (operands.take 1)) (clear operands) := by
  refine clear_yields ?_ ?_ ?_
  · rintro rfl
    exact decidedBy_code (by decide) ((forall_one rfl).2 below_accumulator)
  · rintro rfl
    exact decidedBy_code (by decide) ((forall_one rfl).2 below_carry)
  · rintro target address rfl value
    exact decidedBy_value ((forall_one rfl).trans (below_iff_of_bitAddress value))
      (by decide) (by simp)

theorem setBit_decided : Yields (DecidedBy (operands.take 1)) (setBit operands) := by
  refine setBit_yields ?_ ?_
  · rintro rfl
    exact decidedBy_code (by decide) ((forall_one rfl).2 below_carry)
  · rintro target address rfl value
    exact decidedBy_value ((forall_one rfl).trans (below_iff_of_bitAddress value))
      (by decide) (by simp)

theorem stack_decided (code : opcode < 256) :
    Yields (DecidedBy (operands.take 1)) (stack opcode operands) := by
  refine stack_yields ?_
  rintro cell address rfl value
  exact decidedBy_value ((forall_one rfl).trans (below_iff_of_directAddress value)) code (by simp)

theorem branchOnBit_decided (code : opcode < 256) :
    Yields (DecidedBy (operands.take 1)) (branchOnBit name opcode operands) := by
  refine branchOnBit_yields ?_
  rintro bit target address label rfl value _
  have number := below_iff_of_bitAddress (bitAddress_of_decimalBitAddress value)
  exact decidedBy_value ((forall_one rfl).trans number) code (by simp)

theorem countBranch_decided : Yields (DecidedBy (operands.take 1)) (countBranch operands) := by
  refine countBranch_yields fun counter first => countCells_yields ?_ ?_
  · intro address value label
    exact decidedBy_value ((forall_one first).trans (below_iff_of_directAddress value)) (by decide)
      (by simp)
  · intro n named label
    have := named.lt
    refine decidedBy_fixed ?_ ((forall_one first).2 named.below)
    simp [IsBytes, placeholder]
    omega

/-! Operations with a label and no number. -/

theorem jumpTo_decided (size : Nat) (operands : List String) :
    Yields (DecidedBy []) (jumpTo name size operands) := by
  refine jumpTo_yields (fun label => decidedBy_fixed ?_ (by simp)) operands
  intro cell member
  rw [List.eq_of_mem_replicate member]
  decide

theorem jump_decided (operands : List String) : Yields (DecidedBy []) (jump operands) := by
  refine jump_yields (decidedBy_code (by decide) (by simp)) (fun label => ?_) operands
  exact decidedBy_fixed (by simp [IsBytes, placeholder]) (by simp)

theorem branch_decided (code : opcode < 256) (operands : List String) :
    Yields (DecidedBy []) (branch name opcode operands) := by
  refine branch_yields fun _ label _ _ => decidedBy_fixed ?_ (by simp)
  simpa [IsBytes, placeholder] using code

/-! Operations with two operands. -/

theorem accumulate_decided (small : base ≤ 0x90) : operands[0]? = some "A" →
    ∀ source ∈ operands[1]?, Yields (DecidedBy (operands.take 2)) (accumulate base source) := by
  intro first source second
  have below : (∀ text ∈ operands.take 2, Below 256 text) ↔ Below 256 source := by
    rw [forall_two first second]
    exact and_iff_right below_accumulator
  refine accumulate_yields ?_ ?_ ?_ ?_
  · intro value number
    exact decidedBy_value (below.trans (below_iff_of_immediateValue number)) (by omega) (by simp)
  · intro address value
    exact decidedBy_value (below.trans (below_iff_of_directAddress value)) (by omega) (by simp)
  · intro n named
    have := named.lt
    exact decidedBy_code (by omega) (below.2 named.below)
  · intro n named
    have := named.lt
    exact decidedBy_code (by omega) (below.2 named.below)

theorem combineCarry_decided {invertedOpcode : Nat} (code : opcode < 256)
    (code' : invertedOpcode < 256) :
    operands[0]? = some "C" → ∀ source ∈ operands[1]?,
      Yields (DecidedBy (operands.take 2)) (combineCarry opcode invertedOpcode source) := by
  intro first source second
  have below : (∀ text ∈ operands.take 2, Below 256 text) ↔ Below 256 source := by
    rw [forall_two first second]
    exact and_iff_right below_carry
  refine combineCarry_yields ?_ ?_
  · intro address value
    exact decidedBy_value (below.trans (below_iff_of_bitAddress value)) code (by simp)
  · intro bit address marked value
    exact decidedBy_value (below.trans (below_iff_of_inverted marked value)) code' (by simp)

theorem combineCell_decided (small : base ≤ 0x60) :
    ∀ target ∈ operands[0]?, ∀ source ∈ operands[1]?,
      Yields (DecidedBy (operands.take 2)) (combineCell base target source) := by
  intro target first source second
  have below := forall_two first second
  refine combineCell_yields ?_ ?_
  · rintro rfl address value
    rw [and_iff_left below_accumulator] at below
    exact decidedBy_value (below.trans (below_iff_of_directAddress value)) (by omega) (by simp)
  · -- the only logical operation with two numbers
    intro address value place number
    rw [below_iff_of_directAddress place, below_iff_of_immediateValue number] at below
    unfold DecidedBy IsBytes
    rw [below]
    simp [ofCells]
    omega

theorem compareBranch_decided : Yields (DecidedBy (operands.take 2)) (compareBranch operands) := by
  refine compareBranch_yields fun left first right second => ?_
  have below := forall_two first second
  refine compareCells_yields ?_ ?_ ?_ ?_
  · rintro rfl value number label
    rw [and_iff_right below_accumulator] at below
    have bounded : Below 256 right ↔ value < 256 :=
      number.elim below_iff_of_immediateValue below_iff_of_directAddress
    exact decidedBy_value (below.trans bounded) (by decide) (by simp)
  · rintro rfl address value label
    rw [and_iff_right below_accumulator] at below
    exact decidedBy_value (below.trans (below_iff_of_directAddress value)) (by decide) (by simp)
  · intro n value named number label
    have := named.lt
    rw [and_iff_right named.below] at below
    exact decidedBy_value (below.trans (below_iff_of_immediateValue number)) (by omega) (by simp)
  · intro n value named number label
    have := named.lt
    rw [and_iff_right named.below] at below
    exact decidedBy_value (below.trans (below_iff_of_immediateValue number)) (by omega) (by simp)

end Instruction

/-! ## §4. All instructions. -/

namespace Mnemonic

/-- The operands whose numbers are stored.  The others are labels, or they are not looked at. -/
def storedOperands (operands : List String) : Mnemonic → List String
  | .inc | .dec | .push | .pop | .clr | .setb | .cpl | .jbc | .jb | .jnb | .djnz => operands.take 1
  | .add | .addc | .subb | .orl | .anl | .xrl | .mov | .cjne => operands.take 2
  | _ => []

/-- The limit for these numbers.  The data pointer takes two cells. -/
def limit (operands : List String) (mnemonic : Mnemonic) : Nat :=
  if mnemonic = .mov ∧ operands[0]? = some "DPTR" then 65536 else 256

/-- **Operands whose instruction consists of bytes**: all numbers that are stored are below their
limit, and the accumulator is not moved into a register above the seventh. -/
def FitsBytes (operands : List String) (mnemonic : Mnemonic) : Prop :=
  (∀ text ∈ mnemonic.storedOperands operands, Operand.Below (mnemonic.limit operands) text) ∧
    (mnemonic = .mov → operands[1]? = some "A" →
      ∀ target ∈ operands[0]?, ∀ n ∈ Operand.register? target, n < 8)

instance (operands : List String) (mnemonic : Mnemonic) : Decidable (mnemonic.FitsBytes operands) :=
  inferInstanceAs (Decidable ((∀ text ∈ mnemonic.storedOperands operands, _) ∧ _))

theorem fitsBytes_iff {mnemonic : Mnemonic} (other : mnemonic ≠ .mov) (operands : List String) :
    mnemonic.FitsBytes operands ↔
      ∀ text ∈ mnemonic.storedOperands operands, Operand.Below 256 text := by
  simp [FitsBytes, limit, other]

end Mnemonic

namespace Instruction

open Operand Encoding

variable {target source : String}

/-- An encoding of a move consists of bytes exactly if its operands say so. -/
def MovesBytes (target source : String) (encoding : Encoding) : Prop :=
  encoding.IsBytes ↔ Mnemonic.mov.FitsBytes [target, source]

/-- Of most moves the numbers alone decide. -/
theorem movesBytes_of_decidedBy (other : target ≠ "DPTR")
    (registers : source = "A" → ∀ n ∈ register? target, n < 8) {encoding : Encoding}
    (decided : encoding.DecidedBy [target, source]) : MovesBytes target source encoding := by
  refine decided.trans ?_
  simpa [Mnemonic.FitsBytes, Mnemonic.limit, Mnemonic.storedOperands, other]
    using fun _ _ => registers

theorem movesBytes_of_register?_none (other : target ≠ "DPTR") (none : register? target = none)
    {encoding : Encoding} (decided : encoding.DecidedBy [target, source]) :
    MovesBytes target source encoding :=
  movesBytes_of_decidedBy other (by simp [none]) decided

theorem moveIntoRegister_fits {fromA fromConstant fromCell : Nat} (other : target ≠ "DPTR")
    (below : Below 256 target) (codes : fromConstant < 256 ∧ fromCell < 256)
    (accumulator : fromA < 256 ↔ ∀ n ∈ register? target, n < 8) :
    Yields (MovesBytes target source) (moveIntoRegister fromA fromConstant fromCell source) := by
  have numbers : (∀ text ∈ [target, source], Below 256 text) ↔ Below 256 source := by
    simp [below]
  refine moveIntoRegister_yields ?_ ?_ ?_
  · rintro rfl
    unfold MovesBytes
    simpa [IsBytes, ofCells, Mnemonic.FitsBytes, Mnemonic.limit, Mnemonic.storedOperands,
      other, below,
      below_accumulator] using accumulator
  · intro value number
    have notA : source ≠ "A" := by
      rintro rfl
      exact absurd number (by simp [show immediateValue "A" = .error (.malformed []) from rfl])
    refine movesBytes_of_decidedBy other (fun named => absurd named notA) ?_
    exact decidedBy_value (numbers.trans (below_iff_of_immediateValue number)) codes.1 (by simp)
  · intro notA address value
    refine movesBytes_of_decidedBy other (fun named => absurd named notA) ?_
    exact decidedBy_value (numbers.trans (below_iff_of_directAddress value)) codes.2 (by simp)

theorem moveIntoA_fits : Yields (MovesBytes "A" source) (moveIntoA source) := by
  have numbers : (∀ text ∈ ["A", source], Below 256 text) ↔ Below 256 source := by
    simp [below_accumulator]
  have decides : ∀ {encoding : Encoding}, encoding.DecidedBy ["A", source] →
      MovesBytes "A" source encoding := movesBytes_of_register?_none (by decide) (by decide)
  refine moveIntoA_yields ?_ ?_ ?_ ?_
  · intro n named
    have := named.lt
    exact decides (decidedBy_code (by omega) (numbers.2 named.below))
  · intro n named
    have := named.lt
    exact decides (decidedBy_code (by omega) (numbers.2 named.below))
  · intro value number
    exact decides (decidedBy_value (numbers.trans (below_iff_of_immediateValue number)) (by decide)
      (by simp))
  · intro address value
    exact decides (decidedBy_value (numbers.trans (below_iff_of_directAddress value)) (by decide)
      (by simp))

theorem moveIntoCell_fits {address : Nat} (other : target ≠ "DPTR")
    (place : directAddress target = .ok address) :
    Yields (MovesBytes target source) (moveIntoCell address source) := by
  have decides : ∀ {encoding : Encoding}, encoding.DecidedBy [target, source] →
      MovesBytes target source encoding :=
    movesBytes_of_register?_none other (register?_of_directAddress place)
  -- the cell is stored last, so that the other number may stand before it
  have numbers : (∀ text ∈ [target, source], Below 256 text) ↔
      address < 256 ∧ Below 256 source := by
    simp [below_iff_of_directAddress place]
  have intoCell : ∀ {opcode : Nat}, opcode < 256 → Below 256 source →
      MovesBytes target source (.ofCells [opcode, address]) := by
    intro opcode code below
    refine decides (decidedBy_value ?_ code (by simp))
    rw [numbers, and_iff_left below]
  refine moveIntoCell_yields ?_ ?_ ?_ ?_ ?_
  · rintro rfl
    exact intoCell (by decide) below_accumulator
  · intro value number
    apply decides
    unfold DecidedBy
    rw [numbers, below_iff_of_immediateValue number]
    simp [IsBytes, ofCells]
  · intro n named
    have := named.lt
    exact intoCell (by omega) named.below
  · intro n named
    have := named.lt
    exact intoCell (by omega) named.below
  · intro cell value
    apply decides
    unfold DecidedBy
    rw [numbers, below_iff_of_directAddress value]
    simp [IsBytes, ofCells, and_comm]

theorem moveElsewhere_fits (other : target ≠ "DPTR") :
    Yields (MovesBytes target source) (moveElsewhere target source) := by
  refine moveElsewhere_yields ?_ ?_
  · intro n named
    have := named.lt
    refine moveIntoRegister_fits other named.below (by omega) ?_
    -- the only code above a base that can leave the byte
    simp [named.register?_eq]
    omega
  · intro address place
    exact moveIntoCell_fits other place

theorem movePointer_fits {value : Nat} (number : immediateValue source = .ok value) :
    MovesBytes "DPTR" source (.ofCells [0x90, value / 256, value % 256]) := by
  have pointer : Below 65536 "DPTR" := below_of_numeral?_none (by decide)
  have notA : source ≠ "A" := by
    rintro rfl
    exact absurd number (by simp [show immediateValue "A" = .error (.malformed []) from rfl])
  unfold MovesBytes
  simp [IsBytes, ofCells, Mnemonic.FitsBytes, Mnemonic.limit, Mnemonic.storedOperands,
    pointer, notA,
    below_iff_of_immediateValue number]
  omega

theorem movePair_fits : Yields (MovesBytes target source) (move [target, source]) := by
  refine movePair_yields ?_ ?_ ?_ ?_ ?_ moveElsewhere_fits
  · intro n named
    have := named.lt
    have other : target ≠ "DPTR" := by
      rintro rfl
      obtain ⟨digit, kind, _⟩ := named
      exact absurd kind (by simp [show ofText "DPTR" = .other from rfl])
    refine moveIntoRegister_fits other named.below (by omega) ?_
    simp [named.register?_eq]
    omega
  · rintro rfl
    exact moveIntoA_fits
  · rintro rfl address value
    refine movesBytes_of_register?_none (by decide) (by decide)
      (decidedBy_value ?_ (by decide) (by simp))
    simp [below_carry, below_iff_of_bitAddress value]
  · rintro rfl address value
    have other : target ≠ "DPTR" := by
      rintro rfl
      exact absurd value (by simp [show bitAddress "DPTR" = .error (.malformed []) from rfl])
    refine movesBytes_of_decidedBy other (by simp) (decidedBy_value ?_ (by decide) (by simp))
    simp [below_carry, below_iff_of_bitAddress value]
  · rintro rfl value number
    exact movePointer_fits number

end Instruction

open Instruction

/-- **The operands decide which instructions consist of bytes.** -/
theorem Mnemonic.isBytes_iff {known : Mnemonic} {operands : List String} {encoding : Encoding}
    (h : known.encode operands = .ok encoding) : encoding.IsBytes ↔ known.FitsBytes operands := by
  -- all operations but the move are decided by the numbers they store
  have numbers : known ≠ .mov →
      Yields (Encoding.DecidedBy (known.storedOperands operands)) (known.encode operands) →
      (encoding.IsBytes ↔ known.FitsBytes operands) :=
    fun other decided => (decided encoding h).trans (fitsBytes_iff other operands).symm
  have fixed : ∀ {opcode : Nat}, opcode < 256 → (Encoding.ofCells [opcode]).DecidedBy [] :=
    fun code => decidedBy_code code (by simp)
  cases known with
  | mov =>
    revert h
    match operands with
    | [target, source] => exact fun h => movePair_fits encoding h
    | [] | [_] | _ :: _ :: _ :: _ =>
      exact fun h => absurd h (by simp [encode, move, Encoded.malformed])
  | nop | ret | reti => exact numbers (by decide) (yields_plain (fixed (by decide)))
  | rr | rrc | rl => exact numbers (by decide) (rotate_yields (fixed (by decide)) operands)
  | rlc => exact numbers (by decide) (rotateThroughCarry_yields (fixed (by decide)) operands)
  | mul | div => exact numbers (by decide) (onPair_yields (fixed (by decide)) operands)
  | swap | da => exact numbers (by decide) (onAccumulator_yields (fixed (by decide)) operands)
  | movc => exact numbers (by decide) (moveCode_yields (fixed (by decide)) operands)
  | movx =>
    refine numbers (by decide) (moveExternal_yields (fixed (by decide)) ?_ ?_)
    · intro source _ n named
      have := named.lt
      exact fixed (by omega)
    · intro target _ n named
      have := named.lt
      exact fixed (by omega)
  | xch =>
    refine numbers (by decide) (exchange_yields ?_ ?_ ?_)
    · intro source _ n named
      have := named.lt
      exact fixed (by omega)
    · intro source _ n named
      have := named.lt
      exact fixed (by omega)
    · exact decidedBy_fixed (by simp [Encoding.IsBytes, Encoding.ofCells])
        (by simp [storedOperands])
  | xchd =>
    refine numbers (by decide) (exchangeDigit_yields fun source _ n named => ?_)
    have := named.lt
    exact fixed (by omega)
  | inc =>
    refine numbers (by decide) (increment_yields ?_ (countOperand_decided (by decide)))
    rintro rfl
    exact decidedBy_code (by decide)
      ((forall_one rfl).2 (Operand.below_of_numeral?_none (by decide)))
  | dec => exact numbers (by decide) (decrement_yields (countOperand_decided (by decide)))
  | add | subb => exact numbers (by decide) (addInto_yields (accumulate_decided (by decide)))
  | addc => exact numbers (by decide) (addIntoLoosely_yields (accumulate_decided (by decide)))
  | orl | anl =>
    exact numbers (by decide) (combineOrCarry_yields (accumulate_decided (by decide))
      (combineCell_decided (by decide)) (combineCarry_decided (by decide) (by decide)))
  | xrl =>
    exact numbers (by decide) (combine_yields (accumulate_decided (by decide))
      (combineCell_decided (by decide)))
  | push | pop => exact numbers (by decide) (stack_decided (by decide))
  | clr => exact numbers (by decide) clear_decided
  | setb => exact numbers (by decide) setBit_decided
  | cpl => exact numbers (by decide) complement_decided
  | ajmp | acall | ljmp | lcall =>
    exact numbers (by decide) (jumpTo_decided _ operands)
  | jmp => exact numbers (by decide) (jump_decided operands)
  | jc | jnc | jz | jnz | sjmp => exact numbers (by decide) (branch_decided (by decide) operands)
  | jbc | jb | jnb => exact numbers (by decide) (branchOnBit_decided (by decide))
  | cjne => exact numbers (by decide) compareBranch_decided
  | djnz => exact numbers (by decide) countBranch_decided

end Mcs51
