/-
  Mcs51.Proofs.Literals — the base in which a number is written does not matter.

  A number in an operand is written in base 10 or in base 16, and it may stand behind the mark of a
  constant or of an inverted bit.  An encoder sees the kind of the operand and the value of the
  number, so it cannot tell the two spellings apart.  Four operations look closer: where they take
  the address of a bit, they convert the digits together with the letter that marks base 16, and
  that always fails.

  Main definitions:
    * `Digits.Spells` : digits and the number that they spell in a base;
    * `Numeral.marked` : the operand that is a number behind a mark;
    * `Operand.Alike` : operands that are read alike;
    * `ConvertsMark` : the operations that convert the mark of base 16.

  Main statements:
    * `Operand.alike_marked` : numbers of one value behind the same mark are read alike;
    * `Mnemonic.encode_congr` : operands that are read alike are encoded alike;
    * `literals_interchange` : a number in the other base, in every operation and every state.
-/
import Mcs51.Proofs.Emission
import Mcs51.Proofs.OperandRange
import Mcs51.Proofs.Renaming

namespace Mcs51

/-! ## §1. Digits and their value. -/

namespace Digits

/-- **The digits spell the number**: there is at least one, all are digits of the base, in capitals,
and their places add up to the number. -/
structure Spells (base : Nat) (digits : List Char) (n : Nat) : Prop where
  nonempty : digits ≠ []
  digit : ∀ c ∈ digits, isHexCapital c = true ∧ digitValue c < base
  places : Nat.ofDigits base (digits.reverse.map digitValue) = n

instance (base : Nat) (digits : List Char) (n : Nat) : Decidable (Spells base digits n) :=
  have : Decidable (∀ c ∈ digits, isHexCapital c = true ∧ digitValue c < base) :=
    List.decidableBAll _ digits
  decidable_of_iff (digits ≠ [] ∧ (∀ c ∈ digits, isHexCapital c = true ∧ digitValue c < base) ∧
      Nat.ofDigits base (digits.reverse.map digitValue) = n)
    ⟨fun h => ⟨h.1, h.2.1, h.2.2⟩, fun h => ⟨h.nonempty, h.digit, h.places⟩⟩

/-- Reading digits one after the other adds up their places. -/
theorem value_eq_ofDigits (base : Nat) (digits : List Char) :
    value base digits = Nat.ofDigits base (digits.reverse.map digitValue) := by
  induction digits using List.reverseRecOn with
  | nil => rfl
  | append_singleton digits c ih =>
    rw [value_concat, ih, List.reverse_append, List.reverse_singleton, List.singleton_append,
      List.map_cons, Nat.ofDigits_cons, Nat.mul_comm, Nat.add_comm]

theorem isDecimal_of_digitValue_lt {c : Char} (capital : isHexCapital c = true)
    (small : digitValue c < 10) : isDecimal c = true := by
  by_contra other
  have letter : ('A' ≤ c && c ≤ 'F') = true := by simpa [isHexCapital, other] using capital
  unfold digitValue at small
  rw [if_neg other, if_pos letter] at small
  omega

end Digits

/-! ## §2. Numbers as operands. -/

/-- A run that is followed by the closing and nothing else is captured whole. -/
theorem Shape.capture?_spell {shape : Shape} {run : List Char}
    (positive : shape.repetition = .positive)
    (unopened : shape.opening = []) (nonempty : run ≠ []) (inside : ∀ c ∈ run, shape.inRun c = true)
    (closes : ∀ c ∈ shape.closing.head?, shape.inRun c = false) :
    shape.capture? (shape.spell run) = some run := by
  have taken : (run ++ shape.closing).takeWhile shape.inRun = run := by
    rw [List.takeWhile_append_of_pos inside]
    cases closing : shape.closing with
    | nil => simp
    | cons c rest =>
      have other : shape.inRun c = false := closes c (by simp [closing])
      simp [other]
  have closed : Text.stripOpening? shape.closing shape.closing = some [] := by
    rw [Text.stripOpening?_eq_some_iff, List.append_nil]
  simp [Shape.capture?, Shape.spell, unopened, Text.stripOpening?, positive,
    Repetition.take?, taken,
    nonempty, closed, Shape.atEnd]

namespace Numeral

/-- The number as it is written. -/
def spelling : Numeral → List Char
  | .hex digits => Shape.hex.spell digits
  | .dec digits => Shape.dec.spell digits

/-- There are digits, and they are digits of the base. -/
def Proper : Numeral → Prop
  | .hex digits => digits ≠ [] ∧ ∀ c ∈ digits, Digits.isHexCapital c = true
  | .dec digits => digits ≠ [] ∧ ∀ c ∈ digits, Digits.isDecimal c = true

/-- The operand that is the number behind the mark. -/
def marked (mark : List Char) (numeral : Numeral) : String :=
  String.ofList (mark ++ numeral.spelling)

variable {numeral : Numeral}

/-- A number is read as it was written. -/
theorem ofText?_spelling (proper : numeral.Proper) : ofText? numeral.spelling = some numeral := by
  cases numeral with
  | hex digits =>
    obtain ⟨nonempty, capital⟩ := proper
    have closes : ∀ c ∈ Shape.hex.closing.head?, Shape.hex.inRun c = false := by
      intro c closing
      obtain rfl : 'H' = c := Option.some.inj closing
      decide
    have captured : Shape.hex.capture? (Shape.hex.spell digits) = some digits :=
      Shape.capture?_spell rfl rfl nonempty capital closes
    show ofText? (Shape.hex.spell digits) = _
    unfold ofText?
    rw [captured]
  | dec digits =>
    obtain ⟨nonempty, decimal⟩ := proper
    have captured : Shape.dec.capture? (Shape.dec.spell digits) = some digits :=
      Shape.capture?_spell rfl rfl nonempty decimal (fun _ closing => nomatch closing)
    -- all digits would be taken for digits of base 16, but the letter is missing
    have capital : ∀ c ∈ digits, Digits.isHexCapital c = true := by
      intro c member
      simp [Digits.isHexCapital, decimal c member]
    have unmarked : Shape.hex.capture? (Shape.dec.spell digits) = none := by
      simp [Shape.capture?, Shape.hex, Shape.dec, Shape.spell, Text.stripOpening?, Repetition.take?,
        List.takeWhile_eq_self_iff.2 capital, nonempty]
    show ofText? (Shape.dec.spell digits) = _
    unfold ofText?
    rw [unmarked, captured]
    rfl

theorem newline_notMem_spelling (proper : numeral.Proper) : '\n' ∉ numeral.spelling := by
  have foreign : Digits.isHexCapital '\n' = false ∧ Digits.isDecimal '\n' = false := by decide
  cases numeral with
  | hex digits =>
    intro member
    have among : '\n' ∈ digits ∨ '\n' = 'H' := by
      simpa [spelling, Shape.spell, Shape.hex] using member
    rcases among with digit | letter
    · exact absurd (proper.2 '\n' digit) (by simp [foreign])
    · exact absurd letter (by decide)
  | dec digits =>
    intro member
    have among : '\n' ∈ digits := by simpa [spelling, Shape.spell, Shape.dec] using member
    exact absurd (proper.2 '\n' among) (by simp [foreign])

end Numeral

/-- What follows the mark of inversion, up to the end of the line. -/
theorem invertedBit?_slash {bit : List Char} (plain : '\n' ∉ bit) :
    invertedBit? (String.ofList ('/' :: bit)) = some (String.ofList bit) := by
  have whole : bit.takeWhile (· != '\n') = bit := by
    rw [List.takeWhile_eq_self_iff]
    intro c member
    have other : c ≠ '\n' := fun same => plain (same ▸ member)
    simpa using other
  simp [invertedBit?, Shape.capture?, Shape.inverted, Text.stripOpening?, Repetition.take?, whole,
    Shape.atEnd]

/-- The marks that may stand before a number: none, that of a constant, that of an inverted bit. -/
def numberMarks : List (List Char) :=
  [[], ['#'], ['/']]

namespace Operand

variable {text : String} {numeral : Numeral} {mark : List Char}

/-- **What a number behind a mark is read as.** -/
theorem numeral?_marked (among : mark ∈ numberMarks) (proper : numeral.Proper) :
    numeral? (numeral.marked mark) = some numeral := by
  have plain := Numeral.ofText?_spelling proper
  simp only [numberMarks, List.mem_cons, List.not_mem_nil, or_false] at among
  rcases among with rfl | rfl | rfl
  · simp [numeral?, Numeral.marked, plain]
  · have unmarked : Numeral.ofText? ('#' :: numeral.spelling) = none := rfl
    have constant : Numeral.ofImmediate? ('#' :: numeral.spelling) = some numeral := plain
    simp [numeral?, Numeral.marked, unmarked, constant]
  · have inverted := invertedBit?_slash (Numeral.newline_notMem_spelling proper)
    show numeral? (String.ofList ('/' :: numeral.spelling)) = _
    rw [numeral?_of_invertedBit? inverted, String.toList_ofList, plain]

/-- A text with a number in it is no name that has none. -/
theorem ne_of_numeral? (holds : numeral? text = some numeral) {name : String}
    (none : numeral? name = none) : text ≠ name := by
  rintro rfl
  rw [none] at holds
  exact nomatch holds

/-- A text with a number in it does not begin like a register, and it is in no table of names. -/
theorem unnamed_of_numeral? (holds : numeral? text = some numeral) :
    Shape.indirect.capture? text.toList = none ∧ Shape.register.capture? text.toList = none ∧
      SpecialRegister.address? text = none ∧ SpecialRegister.bitAddress? text = none := by
  have some_ne : numeral? text ≠ none := by simp [holds]
  refine ⟨?_, ?_, ?_, ?_⟩
  · by_contra found
    obtain ⟨digit, captured⟩ := Option.ne_none_iff_exists'.1 found
    obtain ⟨rest, spelled⟩ := Shape.capture?_eq_spell captured
    exact some_ne (numeral?_of_cons spelled (by decide) (by decide) (by decide))
  · by_contra found
    obtain ⟨digit, captured⟩ := Option.ne_none_iff_exists'.1 found
    obtain ⟨rest, spelled⟩ := Shape.capture?_eq_spell captured
    exact some_ne (numeral?_of_cons spelled (by decide) (by decide) (by decide))
  · by_contra found
    obtain ⟨address, named⟩ := Option.ne_none_iff_exists'.1 found
    exact some_ne (byte_of_lookup (by decide +kernel) named).1
  · by_contra found
    obtain ⟨address, named⟩ := Option.ne_none_iff_exists'.1 found
    exact some_ne (byte_of_lookup (by decide +kernel) named).1

/-- A plain number is a cell or a bit and nothing else. -/
theorem reads_of_ofText? (plain : Numeral.ofText? text.toList = some numeral) :
    ofText text = .direct numeral ∧ BitOperand.ofText text = .literal numeral ∧
      invertedBit? text = none := by
  obtain ⟨pointer, register, special, bit⟩ :=
    unnamed_of_numeral? (show numeral? text = some numeral by simp [numeral?, plain])
  refine ⟨?_, ?_, ?_⟩
  · simp only [ofText, pointer, register, special, plain]
  · simp only [BitOperand.ofText, bit, plain]
  · -- what begins with the mark of inversion is no plain number
    cases captured : Shape.inverted.capture? text.toList with
    | none => simp only [invertedBit?, captured, Option.map_none]
    | some run =>
      obtain ⟨rest, spelled⟩ := Shape.capture?_eq_spell captured
      have unread : Numeral.ofText? (Shape.inverted.spell run ++ rest) = none := rfl
      rw [spelled, unread] at plain
      exact absurd plain (by simp)

/-- A number behind the mark of a constant is a constant and nothing else. -/
theorem reads_of_ofImmediate? {rest : List Char} (marked : text.toList = '#' :: rest)
    (constant : Numeral.ofImmediate? text.toList = some numeral) :
    ofText text = .immediate numeral ∧ BitOperand.ofText text = .other ∧ invertedBit? text = none ∧
      Numeral.ofText? text.toList = none := by
  have read : Numeral.ofText? text.toList = none := by
    rw [marked]
    rfl
  obtain ⟨pointer, register, special, bit⟩ :=
    unnamed_of_numeral? (show numeral? text = some numeral by simp [numeral?, read, constant])
  refine ⟨?_, ?_, ?_, read⟩
  · simp only [ofText, pointer, register, special, read, constant]
  · simp only [BitOperand.ofText, bit, read]
  · simp only [invertedBit?, marked]
    rfl

/-- Without a mark the number is a cell, a bit or an address. -/
theorem reads_plain (proper : numeral.Proper) :
    ofText (numeral.marked []) = .direct numeral ∧
      BitOperand.ofText (numeral.marked []) = .literal numeral ∧
      invertedBit? (numeral.marked []) = none ∧
      Numeral.ofText? (numeral.marked []).toList = some numeral := by
  have read : Numeral.ofText? (numeral.marked []).toList = some numeral := by
    simpa [Numeral.marked] using Numeral.ofText?_spelling proper
  obtain ⟨byte, bit, unmarked⟩ := reads_of_ofText? read
  exact ⟨byte, bit, unmarked, read⟩

/-- Behind the mark of a constant the number is a constant and nothing else. -/
theorem reads_constant (proper : numeral.Proper) :
    ofText (numeral.marked ['#']) = .immediate numeral ∧
      BitOperand.ofText (numeral.marked ['#']) = .other ∧
      invertedBit? (numeral.marked ['#']) = none ∧
      Numeral.ofText? (numeral.marked ['#']).toList = none := by
  have spelled : (numeral.marked ['#']).toList = '#' :: numeral.spelling := String.toList_ofList
  refine reads_of_ofImmediate? spelled ?_
  rw [spelled]
  exact Numeral.ofText?_spelling proper

/-- Behind the mark of inversion there is a bit and nothing else. -/
theorem reads_inverted (proper : numeral.Proper) :
    ofText (numeral.marked ['/']) = .other ∧ BitOperand.ofText (numeral.marked ['/']) = .other ∧
      invertedBit? (numeral.marked ['/']) = some (numeral.marked []) ∧
      Numeral.ofText? (numeral.marked ['/']).toList = none := by
  have holds : numeral? (numeral.marked ['/']) = some numeral := numeral?_marked (by decide) proper
  obtain ⟨pointer, register, special, bit⟩ := unnamed_of_numeral? holds
  have spelled : (numeral.marked ['/']).toList = '/' :: numeral.spelling := String.toList_ofList
  have read : Numeral.ofText? (numeral.marked ['/']).toList = none := by
    rw [spelled]
    rfl
  have constant : Numeral.ofImmediate? (numeral.marked ['/']).toList = none := by
    rw [spelled]
    rfl
  refine ⟨?_, ?_, ?_, read⟩
  · simp only [ofText, pointer, register, special, read, constant]
  · simp only [BitOperand.ofText, bit, read]
  · exact invertedBit?_slash (Numeral.newline_notMem_spelling proper)

/-! ## §3. Operands that are read alike. -/

/-- Operands of one kind, where numbers may be written differently. -/
inductive SameByte : Operand → Operand → Prop where
  | refl (operand : Operand) : SameByte operand operand
  | direct {address address' : Numeral} (same : numberOf address = numberOf address') :
      SameByte (.direct address) (.direct address')
  | immediate {constant constant' : Numeral} (same : numberOf constant = numberOf constant') :
      SameByte (.immediate constant) (.immediate constant')

/-- The operands that operations know by their names. -/
def keywords : List String :=
  ["A", "C", "AB", "DPTR", "DLOCCTR", "@DPTR", "@A+DPTR", "@A+PC"]

/-- **Operands that are read alike**, as a byte, as a bit and as an address. -/
structure Alike (text text' : String) : Prop where
  /-- They are the same name, or no names. -/
  keyword : ∀ name ∈ keywords, text = name ↔ text' = name
  /-- They denote the same byte. -/
  byte : SameByte (ofText text) (ofText text')
  /-- They denote the same bit. -/
  bit : bitAddress text = bitAddress text'
  /-- They denote the same inverted bit, or none. -/
  inverted : (invertedBit? text).map bitAddress = (invertedBit? text').map bitAddress
  /-- They are the same number, or none. -/
  number : (Numeral.ofText? text.toList).map numberOf = (Numeral.ofText? text'.toList).map numberOf

theorem Alike.refl (text : String) : Alike text text :=
  ⟨fun _ _ => Iff.rfl, .refl _, rfl, rfl, rfl⟩

/-- **Numbers of one value behind the same mark are read alike.** -/
theorem alike_marked {numeral' : Numeral} (among : mark ∈ numberMarks) (proper : numeral.Proper)
    (proper' : numeral'.Proper) (same : numberOf numeral = numberOf numeral') :
    Alike (numeral.marked mark) (numeral'.marked mark) := by
  have keyword : ∀ name ∈ keywords, numeral.marked mark = name ↔ numeral'.marked mark = name := by
    have numberless : ∀ name ∈ keywords, numeral? name = none := by decide +kernel
    intro name member
    exact iff_of_false (ne_of_numeral? (numeral?_marked among proper) (numberless name member))
      (ne_of_numeral? (numeral?_marked among proper') (numberless name member))
  obtain ⟨byte, bit, inverted, number⟩ := reads_plain proper
  obtain ⟨byte', bit', inverted', number'⟩ := reads_plain proper'
  simp only [numberMarks, List.mem_cons, List.not_mem_nil, or_false] at among
  rcases among with rfl | rfl | rfl
  · refine ⟨keyword, ?_, ?_, ?_, ?_⟩
    · rw [byte, byte']
      exact .direct same
    · simp only [bitAddress, bit, bit', same]
    · rw [inverted, inverted']
    · simp only [number, number', Option.map_some, same]
  · obtain ⟨constant, noBit, uninverted, noNumber⟩ := reads_constant proper
    obtain ⟨constant', noBit', uninverted', noNumber'⟩ := reads_constant proper'
    refine ⟨keyword, ?_, ?_, ?_, ?_⟩
    · rw [constant, constant']
      exact .immediate same
    · simp only [bitAddress, noBit, noBit']
    · rw [uninverted, uninverted']
    · rw [noNumber, noNumber']
  · obtain ⟨other, noBit, slashed, noNumber⟩ := reads_inverted proper
    obtain ⟨other', noBit', slashed', noNumber'⟩ := reads_inverted proper'
    refine ⟨keyword, ?_, ?_, ?_, ?_⟩
    · rw [other, other']
      exact .refl _
    · simp only [bitAddress, noBit, noBit']
    · simp only [slashed, slashed', Option.map_some, bitAddress, bit, bit', same]
    · rw [noNumber, noNumber']

end Operand

/-! ## §4. Encoders do not tell them apart. -/

section Texts

variable {text text' : String} (alike : Operand.Alike text text')

include alike

theorem directAddress_congr : directAddress text = directAddress text' := by
  have byte := alike.byte
  unfold directAddress
  generalize Operand.ofText text = operand, Operand.ofText text' = operand' at byte ⊢
  cases byte with
  | refl => rfl
  | direct same => exact same
  | immediate _ => rfl

theorem immediateValue_congr : immediateValue text = immediateValue text' := by
  have byte := alike.byte
  unfold immediateValue
  generalize Operand.ofText text = operand, Operand.ofText text' = operand' at byte ⊢
  cases byte with
  | refl => rfl
  | direct _ => rfl
  | immediate same => exact same

theorem origin_singleton_congr : origin [text] = origin [text'] := by
  have number := alike.number
  unfold origin
  dsimp only
  cases read : Numeral.ofText? text.toList with
  | none =>
    cases read' : Numeral.ofText? text'.toList with
    | none => rfl
    | some address' => exact absurd number (by simp [read, read'])
  | some address =>
    cases read' : Numeral.ofText? text'.toList with
    | none => exact absurd number (by simp [read, read'])
    | some address' =>
      rw [read, read'] at number
      exact Option.some.inj number

end Texts

namespace Instruction

section Operands

variable {target target' source source' : String} (first : Operand.Alike target target')
  (second : Operand.Alike source source')

include first

theorem countOperand_congr (base : Nat) : countOperand base target = countOperand base target' := by
  have byte := first.byte
  unfold countOperand
  rw [directAddress_congr first]
  simp only [first.keyword "A" (by decide)]
  generalize Operand.ofText target = operand, Operand.ofText target' = operand' at byte ⊢
  cases byte with
  | refl | direct _ | immediate _ => rfl

theorem accumulate_congr (base : Nat) : accumulate base target = accumulate base target' := by
  have byte := first.byte
  unfold accumulate
  generalize Operand.ofText target = operand, Operand.ofText target' = operand' at byte ⊢
  cases byte with
  | refl => rfl
  | direct same | immediate same => simp only [same]

theorem combineCarry_congr (opcode inverted : Nat) :
    combineCarry opcode inverted target = combineCarry opcode inverted target' := by
  have slashed := first.inverted
  unfold combineCarry
  rw [first.bit]
  cases marked : invertedBit? target with
  | none =>
    cases marked' : invertedBit? target' with
    | none => rfl
    | some bit' => exact absurd slashed (by simp [marked, marked'])
  | some bit =>
    cases marked' : invertedBit? target' with
    | none => exact absurd slashed (by simp [marked, marked'])
    | some bit' =>
      rw [marked, marked'] at slashed
      have same : bitAddress bit = bitAddress bit' := Option.some.inj slashed
      simp only [same]

theorem moveIntoRegister_congr (fromA fromConstant fromCell : Nat) :
    moveIntoRegister fromA fromConstant fromCell target =
      moveIntoRegister fromA fromConstant fromCell target' := by
  have byte := first.byte
  unfold moveIntoRegister
  rw [directAddress_congr first]
  simp only [first.keyword "A" (by decide)]
  generalize Operand.ofText target = operand, Operand.ofText target' = operand' at byte ⊢
  cases byte with
  | refl | direct _ => rfl
  | immediate same => simp only [same]

theorem moveIntoA_congr : moveIntoA target = moveIntoA target' := by
  have byte := first.byte
  unfold moveIntoA
  rw [directAddress_congr first]
  generalize Operand.ofText target = operand, Operand.ofText target' = operand' at byte ⊢
  cases byte with
  | refl | direct _ => rfl
  | immediate same => simp only [same]

theorem moveIntoCell_congr (address : Nat) :
    moveIntoCell address target = moveIntoCell address target' := by
  have byte := first.byte
  unfold moveIntoCell
  rw [directAddress_congr first]
  simp only [first.keyword "A" (by decide)]
  generalize Operand.ofText target = operand, Operand.ofText target' = operand' at byte ⊢
  cases byte with
  | refl | direct _ => rfl
  | immediate same => simp only [same]

theorem countCells_congr : countCells target = countCells target' := by
  have byte := first.byte
  unfold countCells
  rw [directAddress_congr first]
  generalize Operand.ofText target = operand, Operand.ofText target' = operand' at byte ⊢
  cases byte with
  | refl | direct _ | immediate _ => rfl

include second

theorem combineCell_congr (base : Nat) :
    combineCell base target source = combineCell base target' source' := by
  unfold combineCell
  rw [directAddress_congr first, immediateValue_congr second]
  simp only [second.keyword "A" (by decide)]

theorem moveElsewhere_congr : moveElsewhere target source = moveElsewhere target' source' := by
  have byte := first.byte
  unfold moveElsewhere
  rw [directAddress_congr first]
  simp only [moveIntoRegister_congr second, moveIntoCell_congr second]
  generalize Operand.ofText target = operand, Operand.ofText target' = operand' at byte ⊢
  cases byte with
  | refl | direct _ | immediate _ => rfl

theorem movePair_congr : move [target, source] = move [target', source'] := by
  have byte := first.byte
  unfold move movePointer
  dsimp only
  rw [moveElsewhere_congr first second, moveIntoA_congr second, first.bit, second.bit,
    immediateValue_congr second]
  simp only [moveIntoRegister_congr second, first.keyword "A" (by decide),
    first.keyword "C" (by decide),
    first.keyword "DPTR" (by decide), second.keyword "C" (by decide)]
  generalize Operand.ofText target = operand, Operand.ofText target' = operand' at byte ⊢
  cases byte with
  | refl | direct _ | immediate _ => rfl

theorem compareCells_congr : compareCells target source = compareCells target' source' := by
  have byte := first.byte
  have byte' := second.byte
  unfold compareCells
  rw [immediateValue_congr second]
  simp only [first.keyword "A" (by decide)]
  generalize Operand.ofText target = operand, Operand.ofText target' = operand' at byte ⊢
  generalize Operand.ofText source = right, Operand.ofText source' = right' at byte' ⊢
  -- the left operand is a register or none; on the right there may be a number
  cases byte with
  | refl | direct _ | immediate _ =>
    cases byte' with
    | refl => rfl
    | direct same | immediate same => simp only [same]

theorem moveExternal_pair_congr :
    moveExternal [target, source] = moveExternal [target', source'] := by
  have byte := first.byte
  have byte' := second.byte
  simp only [moveExternal, first.keyword "A" (by decide), second.keyword "A" (by decide),
    second.keyword "@DPTR" (by decide)]
  generalize Operand.ofText target = operand, Operand.ofText target' = operand' at byte ⊢
  generalize Operand.ofText source = right, Operand.ofText source' = right' at byte' ⊢
  cases byte with
  | refl | direct _ | immediate _ =>
    cases byte' with
    | refl | direct _ | immediate _ => rfl

theorem exchange_pair_congr : exchange [target, source] = exchange [target', source'] := by
  have byte := second.byte
  simp only [exchange, first.keyword "A" (by decide)]
  generalize Operand.ofText source = operand, Operand.ofText source' = operand' at byte ⊢
  cases byte with
  | refl | direct _ | immediate _ => rfl

theorem exchangeDigit_pair_congr :
    exchangeDigit [target, source] = exchangeDigit [target', source'] := by
  have byte := second.byte
  simp only [exchangeDigit, first.keyword "A" (by decide)]
  generalize Operand.ofText source = operand, Operand.ofText source' = operand' at byte ⊢
  cases byte with
  | refl | direct _ | immediate _ => rfl

end Operands

section Lists

open Operand

variable {operands operands' : List String} (alike : List.Forall₂ Alike operands operands')

include alike

theorem rotate_congr (opcode : Nat) : rotate opcode operands = rotate opcode operands' := by
  rcases alike with _ | ⟨first, _⟩
  · rfl
  · simp only [rotate, first.keyword "A" (by decide)]

theorem rotateThroughCarry_congr : rotateThroughCarry operands = rotateThroughCarry operands' := by
  rcases alike with _ | ⟨first, _ | ⟨_, _ | _⟩⟩
  · rfl
  all_goals simp only [rotateThroughCarry, first.keyword "A" (by decide)]

theorem onAccumulator_congr (opcode : Nat) :
    onAccumulator opcode operands = onAccumulator opcode operands' := by
  rcases alike with _ | ⟨first, _ | _⟩
  · rfl
  · simp only [onAccumulator, first.keyword "A" (by decide)]
  · rfl

theorem onPair_congr (opcode : Nat) : onPair opcode operands = onPair opcode operands' := by
  rcases alike with _ | ⟨first, _⟩
  · rfl
  · simp only [onPair, first.keyword "AB" (by decide)]

theorem increment_congr : increment operands = increment operands' := by
  rcases alike with _ | ⟨first, _ | _⟩
  · rfl
  · simp only [increment, first.keyword "DLOCCTR" (by decide), countOperand_congr first]
  · rfl

theorem decrement_congr : decrement operands = decrement operands' := by
  rcases alike with _ | ⟨first, _ | _⟩
  · rfl
  · simp only [decrement, countOperand_congr first]
  · rfl

theorem addInto_congr (base : Nat) : addInto base operands = addInto base operands' := by
  rcases alike with _ | ⟨first, _ | ⟨second, _ | _⟩⟩
  · rfl
  · rfl
  · simp only [addInto, first.keyword "A" (by decide), accumulate_congr second]
  · rfl

theorem addIntoLoosely_congr (base : Nat) :
    addIntoLoosely base operands = addIntoLoosely base operands' := by
  rcases alike with _ | ⟨first, _ | ⟨second, _⟩⟩
  · rfl
  · simp only [addIntoLoosely, first.keyword "A" (by decide)]
  · simp only [addIntoLoosely, first.keyword "A" (by decide), accumulate_congr second]

theorem combine_congr (base : Nat) : combine base operands = combine base operands' := by
  rcases alike with _ | ⟨first, _ | ⟨second, _⟩⟩
  · rfl
  · rfl
  · simp only [combine, first.keyword "A" (by decide), accumulate_congr second,
      combineCell_congr first second]

theorem combineOrCarry_congr (base opcode inverted : Nat) :
    combineOrCarry base opcode inverted operands =
      combineOrCarry base opcode inverted operands' := by
  rcases alike with _ | ⟨first, _ | ⟨second, _⟩⟩
  · rfl
  · rfl
  · simp only [combineOrCarry, first.keyword "A" (by decide), first.keyword "C" (by decide),
      accumulate_congr second, combineCarry_congr second, combineCell_congr first second]

theorem clear_congr : clear operands = clear operands' := by
  rcases alike with _ | ⟨first, _ | _⟩
  · rfl
  · simp only [clear, first.keyword "A" (by decide), first.keyword "C" (by decide), first.bit]
  · rfl

theorem setBit_congr : setBit operands = setBit operands' := by
  rcases alike with _ | ⟨first, _ | _⟩
  · rfl
  · simp only [setBit, first.keyword "C" (by decide), first.bit]
  · rfl

theorem move_congr : move operands = move operands' := by
  rcases alike with _ | ⟨first, _ | ⟨second, _ | _⟩⟩
  · rfl
  · rfl
  · exact movePair_congr first second
  · rfl

theorem moveCode_congr : moveCode operands = moveCode operands' := by
  rcases alike with _ | ⟨first, _ | ⟨second, _⟩⟩
  · rfl
  · simp only [moveCode, first.keyword "A" (by decide)]
  · simp only [moveCode, first.keyword "A" (by decide), second.keyword "@A+DPTR" (by decide),
      second.keyword "@A+PC" (by decide)]

theorem moveExternal_congr : moveExternal operands = moveExternal operands' := by
  rcases alike with _ | ⟨first, _ | ⟨second, _ | _⟩⟩
  · rfl
  · rfl
  · exact moveExternal_pair_congr first second
  · rfl

theorem exchange_congr : exchange operands = exchange operands' := by
  rcases alike with _ | ⟨first, _ | ⟨second, _ | _⟩⟩
  · rfl
  · rfl
  · exact exchange_pair_congr first second
  · rfl

theorem exchangeDigit_congr : exchangeDigit operands = exchangeDigit operands' := by
  rcases alike with _ | ⟨first, _ | ⟨second, _ | _⟩⟩
  · rfl
  · rfl
  · exact exchangeDigit_pair_congr first second
  · rfl

theorem stack_congr (opcode : Nat) : stack opcode operands = stack opcode operands' := by
  rcases alike with _ | ⟨first, _ | _⟩
  · rfl
  · simp only [stack, directAddress_congr first]
  · rfl

theorem origin_congr : origin operands = origin operands' := by
  rcases alike with _ | ⟨first, _ | _⟩
  · rfl
  · exact origin_singleton_congr first
  · rfl

/-! Operations that look closer at one operand. -/

theorem complement_congr
    (bit : operands.length = 1 →
      (operands[0]?).map decimalBitAddress = (operands'[0]?).map decimalBitAddress) :
    complement operands = complement operands' := by
  rcases alike with _ | ⟨first, _ | _⟩
  · rfl
  · have same := Option.some.inj (bit rfl)
    simp only [complement, first.keyword "A" (by decide), first.keyword "C" (by decide), same]
  · rfl

theorem jump_congr
    (label : (operands[0]?).map labelName? = (operands'[0]?).map labelName?) :
    jump operands = jump operands' := by
  rcases alike with _ | ⟨first, _ | _⟩
  · rfl
  · have same := Option.some.inj label
    simp only [jump, jumpTo, first.keyword "@A+DPTR" (by decide), same]
  · rfl

theorem jumpTo_congr (name : String) (size : Nat)
    (label : (operands[0]?).map labelName? = (operands'[0]?).map labelName?) :
    jumpTo name size operands = jumpTo name size operands' := by
  rcases alike with _ | ⟨_, _ | _⟩
  · rfl
  · have same := Option.some.inj label
    simp only [jumpTo, same]
  · rfl

theorem branch_congr (name : String) (opcode : Nat)
    (label : (operands[0]?).map labelName? = (operands'[0]?).map labelName?) :
    branch name opcode operands = branch name opcode operands' := by
  rcases alike with _ | ⟨_, _ | _⟩
  · rfl
  · have same := Option.some.inj label
    simp only [branch, same]
  · rfl

theorem branchOnBit_congr (name : String) (opcode : Nat)
    (bit : operands.length = 2 →
      (operands[0]?).map decimalBitAddress = (operands'[0]?).map decimalBitAddress)
    (label : (operands[1]?).map labelName? = (operands'[1]?).map labelName?) :
    branchOnBit name opcode operands = branchOnBit name opcode operands' := by
  rcases alike with _ | ⟨_, _ | ⟨_, _ | _⟩⟩
  · rfl
  · rfl
  · have same := Option.some.inj (bit rfl)
    have name := Option.some.inj label
    simp only [branchOnBit, same, name]
  · rfl

theorem compareBranch_congr
    (label : (operands[2]?).map labelName? = (operands'[2]?).map labelName?) :
    compareBranch operands = compareBranch operands' := by
  rcases alike with _ | ⟨first, _ | ⟨second, _ | ⟨_, _ | _⟩⟩⟩
  · rfl
  · rfl
  · rfl
  · have name := Option.some.inj label
    simp only [compareBranch, storeThenAwait, compareCells_congr first second, name]
  · rfl

theorem countBranch_congr (label : (operands[1]?).map labelName? = (operands'[1]?).map labelName?) :
    countBranch operands = countBranch operands' := by
  rcases alike with _ | ⟨first, _ | ⟨_, _ | _⟩⟩
  · rfl
  · rfl
  · have name := Option.some.inj label
    simp only [countBranch, storeThenAwait, countCells_congr first, name]
  · rfl

end Lists

end Instruction

/-! ## §5. Numbers in the other base. -/

open Instruction

/-- The operations that convert the digits of a bit's address together with the mark of base 16, and
the number of operands with which they come to it. -/
def ConvertsMark (mnemonic : String) (count : Nat) : Prop :=
  mnemonic ∈ ["JBC", "JB", "JNB"] ∧ count = 2 ∨ mnemonic = "CPL" ∧ count = 1

instance (mnemonic : String) (count : Nat) : Decidable (ConvertsMark mnemonic count) :=
  inferInstanceAs (Decidable (_ ∨ _))

section Alike

variable {operands operands' : List String} (alike : List.Forall₂ Operand.Alike operands operands')

include alike

/-- **Operands that are read alike are encoded alike.**  Only the operand that names a label has to
name the same one, and where the mark of base 16 is converted, the bit has to come out the same. -/
theorem Mnemonic.encode_congr {known : Mnemonic}
    (bit : ConvertsMark known.name operands.length →
      (operands[0]?).map decimalBitAddress = (operands'[0]?).map decimalBitAddress)
    (label : ∀ position, labelPosition? known.name = some position →
      (operands[position]?).map labelName? = (operands'[position]?).map labelName?) :
    known.encode operands = known.encode operands' := by
  cases known with
  | nop | ret | reti => rfl
  | rr | rrc | rl => exact rotate_congr alike _
  | rlc => exact rotateThroughCarry_congr alike
  | inc => exact increment_congr alike
  | dec => exact decrement_congr alike
  | add | subb => exact addInto_congr alike _
  | addc => exact addIntoLoosely_congr alike _
  | orl | anl => exact combineOrCarry_congr alike _ _ _
  | xrl => exact combine_congr alike _
  | mul | div => exact onPair_congr alike _
  | swap | da => exact onAccumulator_congr alike _
  | mov => exact move_congr alike
  | movc => exact moveCode_congr alike
  | movx => exact moveExternal_congr alike
  | push | pop => exact stack_congr alike _
  | xch => exact exchange_congr alike
  | xchd => exact exchangeDigit_congr alike
  | clr => exact clear_congr alike
  | setb => exact setBit_congr alike
  | cpl => exact complement_congr alike fun one => bit (.inr ⟨rfl, one⟩)
  | ajmp | acall | ljmp | lcall => exact jumpTo_congr alike _ _ (label 0 rfl)
  | jmp => exact jump_congr alike (label 0 rfl)
  | jc | jnc | jz | jnz | sjmp => exact branch_congr alike _ _ (label 0 rfl)
  | jbc | jb | jnb =>
    exact branchOnBit_congr alike _ _ (fun two => bit (.inl ⟨by decide, two⟩)) (label 1 rfl)
  | cjne => exact compareBranch_congr alike (label 2 rfl)
  | djnz => exact countBranch_congr alike (label 1 rfl)

/-- The same for every operation, the origin directive and unknown ones included. -/
theorem Assembler.operate_congr {mnemonic : String}
    (bit : ConvertsMark mnemonic operands.length →
      (operands[0]?).map decimalBitAddress = (operands'[0]?).map decimalBitAddress)
    (label : ∀ position, labelPosition? mnemonic = some position →
      (operands[position]?).map labelName? = (operands'[position]?).map labelName?) (line : Int) :
    operate line mnemonic operands = operate line mnemonic operands' := by
  unfold operate
  rw [origin_congr alike]
  cases found : Mnemonic.ofName? mnemonic with
  | none => rfl
  | some known =>
    obtain rfl := Mnemonic.name_of_ofName? found
    dsimp only
    rw [Mnemonic.encode_congr alike bit label]

end Alike

/-- One operand is replaced by another that is read alike. -/
theorem Operand.forall₂_set {operands : List String} {position : Nat} {text text' : String}
    (written : operands[position]? = some text) (alike : Alike text text') :
    List.Forall₂ Alike operands (operands.set position text') := by
  induction operands generalizing position with
  | nil => exact .nil
  | cons first rest ih =>
    cases position with
    | zero =>
      obtain rfl : first = text := Option.some.inj written
      exact .cons alike (List.forall₂_same.2 fun other _ => Alike.refl other)
    | succ position => exact .cons (Alike.refl first) (ih written)

/-- Behind a mark there is no plain bit. -/
theorem decimalBitAddress_of_mark {mark : List Char} {numeral : Numeral}
    (among : mark ∈ numberMarks)
    (some_mark : mark ≠ []) (proper : numeral.Proper) :
    decimalBitAddress (numeral.marked mark) = .error (.malformed []) := by
  have other : BitOperand.ofText (numeral.marked mark) = .other := by
    simp only [numberMarks, List.mem_cons, List.not_mem_nil, or_false] at among
    rcases among with rfl | rfl | rfl
    · exact absurd rfl some_mark
    · exact (Operand.reads_constant proper).2.1
    · exact (Operand.reads_inverted proper).2.1
  simp only [decimalBitAddress, other]

/-- **Where the mark of base 16 is converted, a number of base 16 stops the run**, and nothing is
changed. -/
theorem Assembler.operate_of_convertsMark {mnemonic : String} {operands : List String}
    {digits : List Char}
    (converts : ConvertsMark mnemonic operands.length) (proper : (Numeral.hex digits).Proper)
    (written : operands[0]? = some ((Numeral.hex digits).marked [])) (line : Int) (s : Assembler) :
    operate line mnemonic operands s =
      .error (.crashed (.badDigits 16 (String.ofList (Shape.hex.spell digits)))) s := by
  have failed : decimalBitAddress ((Numeral.hex digits).marked []) =
      .error (.crash (.badDigits 16 (String.ofList (Shape.hex.spell digits)))) := by
    simp only [decimalBitAddress, (Operand.reads_plain proper).2.1]
  rcases converts with ⟨branches, two⟩ | ⟨rfl, one⟩
  · obtain ⟨bit, target, rfl⟩ := List.length_eq_two.1 two
    obtain rfl : bit = (Numeral.hex digits).marked [] := Option.some.inj written
    have refused : ∀ known ∈ [Mnemonic.jbc, .jb, .jnb],
        known.encode [(Numeral.hex digits).marked [], target] =
          .error (.crash (.badDigits 16 (String.ofList (Shape.hex.spell digits)))) := by
      simp [Mnemonic.encode, branchOnBit, failed, bind, Except.bind]
    simp only [List.mem_cons, List.not_mem_nil, or_false] at branches
    rcases branches with rfl | rfl | rfl
    · exact congrFun (Mnemonic.operate_of_refusal (refused .jbc (by decide)) line) s
    · exact congrFun (Mnemonic.operate_of_refusal (refused .jb (by decide)) line) s
    · exact congrFun (Mnemonic.operate_of_refusal (refused .jnb (by decide)) line) s
  · obtain ⟨target, rfl⟩ := List.length_eq_one_iff.1 one
    obtain rfl : target = (Numeral.hex digits).marked [] := Option.some.inj written
    have holds : Operand.numeral? ((Numeral.hex digits).marked []) = some (.hex digits) :=
      Operand.numeral?_marked (by decide) proper
    have accumulator : (Numeral.hex digits).marked [] ≠ "A" :=
      Operand.ne_of_numeral? holds (by decide)
    have carry : (Numeral.hex digits).marked [] ≠ "C" := Operand.ne_of_numeral? holds (by decide)
    have refused : Mnemonic.cpl.encode [(Numeral.hex digits).marked []] =
        .error (.crash (.badDigits 16 (String.ofList (Shape.hex.spell digits)))) := by
      simp [Mnemonic.encode, complement, accumulator, carry, failed, bind, Except.bind]
    exact congrFun (Mnemonic.operate_of_refusal refused line) s

namespace Digits

variable {digits : List Char} {n : Nat}

theorem Spells.proper_dec (spells : Spells 10 digits n) : (Numeral.dec digits).Proper := by
  refine ⟨spells.nonempty, ?_⟩
  intro c member
  obtain ⟨capital, small⟩ := spells.digit c member
  exact isDecimal_of_digitValue_lt capital small

theorem Spells.proper_hex (spells : Spells 16 digits n) : (Numeral.hex digits).Proper :=
  ⟨spells.nonempty, fun c member => (spells.digit c member).1⟩

theorem Spells.numberOf_dec (spells : Spells 10 digits n)
    (short : digits.length ≤ maxDecimalDigits) :
    numberOf (.dec digits) = .ok n := by
  rw [Operand.numberOf_eq_ok, Numeral.value, if_pos short, value_eq_ofDigits, spells.places]

theorem Spells.numberOf_hex (spells : Spells 16 digits n) : numberOf (.hex digits) = .ok n := by
  rw [Operand.numberOf_eq_ok, Numeral.value, value_eq_ofDigits, spells.places]

end Digits

/-- A single operation is processed as it is carried out, unless it ends the program. -/
theorem Assembler.process_operation (line : Int) (mnemonic : String) (operands : List String) :
    process [⟨line, .operation mnemonic operands⟩] =
      if mnemonic = "END" then pure () else operate line mnemonic operands := by
  by_cases ends : mnemonic = "END"
  · simp [process, Statement.isEnd, ends]
  · simp [process, Statement.isEnd, ends, step]

/-- **Numbers of base 10 and base 16 are interchangeable.**  Let an operand that names no label be a
decimal number `n` behind one of the marks, or behind none, with no more digits than are converted.
If `n` is written in base 16 instead, behind the same mark, the operation does the same in every
state: it stops in the same way or leaves the same cells, counter, labels and references.  The
exceptions are the operations that convert the mark of base 16: with a number of base 16 as their
bit they always fail and leave the state as it is. -/
theorem literals_interchange {mnemonic : String} {operands : List String} {position n : Nat}
    {mark decimal hexadecimal : List Char} (among : mark ∈ numberMarks)
    (spells : Digits.Spells 10 decimal n) (short : decimal.length ≤ maxDecimalDigits)
    (spells' : Digits.Spells 16 hexadecimal n)
    (written : operands[position]? = some (String.ofList (mark ++ decimal)))
    (unlabelled : labelPosition? mnemonic ≠ some position) (line : Int) (s : Assembler) :
    if mark = [] ∧ position = 0 ∧ ConvertsMark mnemonic operands.length then
      Assembler.process [⟨line, .operation mnemonic
          (operands.set position (String.ofList (mark ++ hexadecimal ++ ['H'])))⟩] s =
        .error (.crashed (.badDigits 16 (String.ofList (hexadecimal ++ ['H'])))) s
    else
      Assembler.process [⟨line, .operation mnemonic
          (operands.set position (String.ofList (mark ++ hexadecimal ++ ['H'])))⟩] s =
        Assembler.process [⟨line, .operation mnemonic operands⟩] s := by
  have decimal_eq : String.ofList (mark ++ decimal) = (Numeral.dec decimal).marked mark := by
    simp [Numeral.marked, Numeral.spelling, Shape.spell, Shape.dec]
  have hexadecimal_eq : String.ofList (mark ++ hexadecimal ++ ['H']) =
      (Numeral.hex hexadecimal).marked mark := by
    simp [Numeral.marked, Numeral.spelling, Shape.spell, Shape.hex]
  rw [decimal_eq] at written
  rw [hexadecimal_eq, Assembler.process_operation, Assembler.process_operation]
  have inside : position < operands.length := (List.getElem?_eq_some_iff.1 written).1
  by_cases converted : mark = [] ∧ position = 0 ∧ ConvertsMark mnemonic operands.length
  · rw [if_pos converted]
    obtain ⟨rfl, rfl, converts⟩ := converted
    have running : mnemonic ≠ "END" := by
      rintro rfl
      exact absurd converts (by simp [ConvertsMark])
    rw [if_neg running]
    refine Assembler.operate_of_convertsMark ?_ spells'.proper_hex ?_ line s
    · rwa [List.length_set]
    · rw [List.getElem?_set_self inside]
  · rw [if_neg converted]
    have same : numberOf (.dec decimal) = numberOf (.hex hexadecimal) :=
      (spells.numberOf_dec short).trans spells'.numberOf_hex.symm
    have alike := Operand.forall₂_set written
      (Operand.alike_marked among spells.proper_dec spells'.proper_hex same)
    have operated : Assembler.operate line mnemonic operands = Assembler.operate line mnemonic
        (operands.set position ((Numeral.hex hexadecimal).marked mark)) := by
      refine Assembler.operate_congr alike ?_ ?_ line
      · intro converts
        by_cases first : position = 0
        · -- the number stands behind a mark, so it is no bit in either base
          subst first
          have some_mark : mark ≠ [] := fun none => converted ⟨none, rfl, converts⟩
          rw [written, List.getElem?_set_self inside, Option.map_some, Option.map_some,
            decimalBitAddress_of_mark among some_mark spells.proper_dec,
            decimalBitAddress_of_mark among some_mark spells'.proper_hex]
        · rw [List.getElem?_set_ne first]
      · intro other labelled
        have elsewhere : position ≠ other := fun here => unlabelled (here ▸ labelled)
        rw [List.getElem?_set_ne elsewhere]
    rw [operated]

/-- A constant with a leading zero is moved alike in both bases, and so is an inverted bit combined
with the carry.  The same number is no bit that can be inverted, if it is written in base 16. -/
theorem literals_interchange_constant :
    Assembler.process [⟨1, .operation "MOV" ["A", "#30H"]⟩] (Assembler.ofSize 2) =
        Assembler.process [⟨1, .operation "MOV" ["A", "#048"]⟩] (Assembler.ofSize 2) ∧
      Assembler.process [⟨1, .operation "ORL" ["C", "/30H"]⟩] (Assembler.ofSize 1) =
        Assembler.process [⟨1, .operation "ORL" ["C", "/048"]⟩] (Assembler.ofSize 1) ∧
      Assembler.process [⟨1, .operation "CPL" ["30H"]⟩] (Assembler.ofSize 2) =
        .error (.crashed (.badDigits 16 "30H")) (Assembler.ofSize 2) := by
  have decimal : Digits.Spells 10 ['0', '4', '8'] 48 := by decide
  have hexadecimal : Digits.Spells 16 ['3', '0'] 48 := by decide
  refine ⟨?_, ?_, ?_⟩
  · have moved := @literals_interchange "MOV" ["A", "#048"] 1 48 ['#'] ['0', '4', '8'] ['3', '0']
      (by decide) decimal (by decide) hexadecimal rfl (by decide) 1 (Assembler.ofSize 2)
    rwa [if_neg (by decide)] at moved
  · have combined := @literals_interchange "ORL" ["C", "/048"] 1 48 ['/'] ['0', '4', '8'] ['3', '0']
      (by decide) decimal (by decide) hexadecimal rfl (by decide) 1 (Assembler.ofSize 1)
    rwa [if_neg (by decide)] at combined
  · have failed := @literals_interchange "CPL" ["048"] 0 48 [] ['0', '4', '8'] ['3', '0']
      (by decide) decimal (by decide) hexadecimal rfl (by decide) 1 (Assembler.ofSize 2)
    rwa [if_pos (by decide)] at failed

end Mcs51
