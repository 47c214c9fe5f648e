/-
  Mcs51.Proofs.Refusals — why operations are refused.

  Here every encoder is gone through for its refusals.  Most of them say that the operands do not
  fit.  The others are failures of the encoder: a register without a digit and a number with too
  many digits can stand in any operation, and a few slips belong to single operations.  Three
  operations store their cells before they have seen all of their operands.

  Main definitions:
    * `Pitfall` : what makes the encoder fail, and how;
    * `Body.StoresEarly` : refused operations whose cells are stored;
    * `Reason`, `Explained` : all reasons for a refusal, and results that are refused for no other.

  Main statements:
    * `Operand.holdsDecimal_of_numeral?`, `Operand.lacksDigit_of_registerOf`, … : which texts cannot
      be converted;
    * `Mnemonic.explained_encode` : every operation is refused for one of the reasons only;
    * `Assembler.operate_eq_requireCount` : which operations count their operands first.
-/
import Mcs51.Proofs.Literals
import Mcs51.Proofs.RegisterOperands

namespace Mcs51

/-! ## §1. Texts that cannot be converted. -/

/-- What a repetition takes is of the given class. -/
theorem Repetition.class_of_take? {repetition : Repetition} {inRun : Char → Bool}
    {text run : List Char}
    (h : repetition.take? inRun text = some run) :
    (∀ c ∈ run, inRun c = true) ∧ (repetition = .positive → run ≠ []) := by
  cases repetition with
  | any =>
    obtain rfl : text.takeWhile inRun = run := Option.some.inj h
    exact ⟨fun c member => List.mem_takeWhile_imp member,
      fun positive => absurd positive (by decide)⟩
  | positive =>
    simp only [Repetition.take?] at h
    split at h
    · exact absurd h (by simp)
    next nonempty =>
      obtain rfl : text.takeWhile inRun = run := Option.some.inj h
      exact ⟨fun c member => List.mem_takeWhile_imp member, fun _ => by simpa using nonempty⟩
  | optional =>
    obtain rfl : (text.take 1).takeWhile inRun = run := Option.some.inj h
    exact ⟨fun c member => List.mem_takeWhile_imp member,
      fun positive => absurd positive (by decide)⟩

/-- **A captured run is of the class of the shape**, and where the text has to end, at most a line
feed follows it. -/
theorem Shape.class_of_capture? {shape : Shape} {text run : List Char}
    (h : shape.capture? text = some run) :
    (∀ c ∈ run, shape.inRun c = true) ∧ (shape.repetition = .positive → run ≠ []) ∧
      ∃ rest, text = shape.spell run ++ rest ∧
        (shape.toEnd = true → rest = [] ∨ rest = ['\n']) := by
  unfold capture? at h
  split at h
  · exact absurd h (by simp)
  next inner opened =>
    split at h
    · exact absurd h (by simp)
    next run' taken =>
      split at h
      · exact absurd h (by simp)
      next rest closed =>
        split at h
        · exact absurd h (by simp)
        next ended =>
          obtain rfl := Option.some.inj h
          obtain ⟨inside, nonempty⟩ := Repetition.class_of_take? taken
          obtain ⟨tail, rfl⟩ := Repetition.exists_append_of_take? taken
          rw [List.drop_left, Text.stripOpening?_eq_some_iff] at closed
          rw [Text.stripOpening?_eq_some_iff] at opened
          refine ⟨inside, nonempty, rest, by simp [spell, opened, closed], ?_⟩
          intro toEnd
          simpa [toEnd, atEnd, or_iff_not_imp_left] using ended

/-- A number of base 10 lacks the letter that closes a number of base 16, whatever mark they stand
behind. -/
theorem Shape.capture?_hex_of_dec (opening : List Char) {text digits : List Char}
    (decimal : (⟨opening, Digits.isDecimal, .positive, [], true⟩ : Shape).capture? text =
      some digits) :
    (⟨opening, Digits.isHexCapital, .positive, ['H'], true⟩ : Shape).capture? text = none := by
  by_contra found
  obtain ⟨digits', hexadecimal⟩ := Option.ne_none_iff_exists'.1 found
  obtain ⟨inside, _, rest, spelled, ended⟩ := Shape.class_of_capture? decimal
  obtain ⟨_, _, rest', spelled', _⟩ := Shape.class_of_capture? hexadecimal
  have same : digits ++ rest = digits' ++ 'H' :: rest' := by
    simpa [Shape.spell] using spelled.symm.trans spelled'
  have letter : 'H' ∈ digits ++ rest := by simp [same]
  -- the letter is no digit of base 10, and no line feed either
  rcases List.mem_append.1 letter with digit | behind
  · have decimal_letter : Digits.isDecimal 'H' = true := inside 'H' digit
    exact absurd decimal_letter (by decide)
  · rcases ended rfl with rfl | rfl
    · exact absurd behind (by simp)
    · exact absurd behind (by decide)

namespace Numeral

variable {text digits : List Char} {hex dec : Option (List Char)}

/-- The number whose digits were captured in one of the two bases. -/
def ofDigits? (hex dec : Option (List Char)) : Option Numeral :=
  match hex with
  | some digits => some (.hex digits)
  | none => dec.map .dec

theorem ofDigits?_eq_hex_iff : ofDigits? hex dec = some (.hex digits) ↔ hex = some digits := by
  cases hex <;> simp [ofDigits?]

theorem ofDigits?_eq_dec_iff (letterless : ∀ digits, dec = some digits → hex = none) :
    ofDigits? hex dec = some (.dec digits) ↔ dec = some digits := by
  cases dec with
  | none => cases hex <;> simp [ofDigits?]
  | some digits' => simp [ofDigits?, letterless digits' rfl]

theorem ofText?_eq_hex_iff :
    ofText? text = some (.hex digits) ↔ Shape.hex.capture? text = some digits :=
  ofDigits?_eq_hex_iff

theorem ofText?_eq_dec_iff :
    ofText? text = some (.dec digits) ↔ Shape.dec.capture? text = some digits :=
  ofDigits?_eq_dec_iff fun _ captured => Shape.capture?_hex_of_dec [] captured

theorem ofImmediate?_eq_hex_iff :
    ofImmediate? text = some (.hex digits) ↔ Shape.immediateHex.capture? text = some digits :=
  ofDigits?_eq_hex_iff

theorem ofImmediate?_eq_dec_iff :
    ofImmediate? text = some (.dec digits) ↔ Shape.immediateDec.capture? text = some digits :=
  ofDigits?_eq_dec_iff fun _ captured => Shape.capture?_hex_of_dec ['#'] captured

end Numeral

namespace Operand

/-- The operand begins like a register, or like a cell that one points to, and no digit follows. -/
def LacksDigit (text : String) : Prop :=
  ∃ (kind : RegisterKind) (tail : List Char), text.toList = kind.opening ++ tail ∧
    ∀ c ∈ tail.head?, Text.isDecimalDigit c = false

/-- The operand is the number of base 16 with these digits.  A line feed may follow. -/
def IsHex (text : String) (digits : List Char) : Prop :=
  digits ≠ [] ∧ (∀ c ∈ digits, Digits.isHexCapital c = true) ∧
    ∃ rest, text.toList = digits ++ ['H'] ++ rest ∧ (rest = [] ∨ rest = ['\n'])

/-- The operand is the number of base 10 with these digits, behind a mark or without one.  A line
feed may follow. -/
def HoldsDecimal (text : String) (digits : List Char) : Prop :=
  digits ≠ [] ∧ (∀ c ∈ digits, Digits.isDecimal c = true) ∧
    ∃ mark ∈ numberMarks, ∃ rest, text.toList = mark ++ digits ++ rest ∧ (rest = [] ∨ rest = ['\n'])

variable {text : String} {digits : List Char}

theorem isHex_of_ofText? (read : Numeral.ofText? text.toList = some (.hex digits)) :
    IsHex text digits := by
  obtain ⟨inside, nonempty, rest, spelled, ended⟩ :=
    Shape.class_of_capture? (Numeral.ofText?_eq_hex_iff.1 read)
  exact ⟨nonempty rfl, inside, rest, spelled, ended rfl⟩

/-- Every way of holding a number of base 10 is one of three marks. -/
theorem holdsDecimal_of_numeral? (holds : numeral? text = some (.dec digits)) :
    HoldsDecimal text digits := by
  rcases Option.or_eq_some_iff.1 holds with plain | ⟨_, other⟩
  · obtain ⟨inside, nonempty, rest, spelled, ended⟩ :=
      Shape.class_of_capture? (Numeral.ofText?_eq_dec_iff.1 plain)
    exact ⟨nonempty rfl, inside, [], by decide,
      rest, by simpa [Shape.spell, Shape.dec] using spelled,
      ended rfl⟩
  · rcases Option.or_eq_some_iff.1 other with constant | ⟨_, inverted⟩
    · obtain ⟨inside, nonempty, rest, spelled, ended⟩ :=
        Shape.class_of_capture? (Numeral.ofImmediate?_eq_dec_iff.1 constant)
      exact ⟨nonempty rfl, inside, ['#'], by decide, rest,
        by simpa [Shape.spell, Shape.immediateDec] using spelled, ended rfl⟩
    · obtain ⟨bit, marked, plain⟩ := Option.bind_eq_some_iff.1 inverted
      obtain ⟨run, captured, rfl⟩ := Option.map_eq_some_iff.1 marked
      rw [String.toList_ofList] at plain
      obtain ⟨unbroken, _, rest, spelled, ended⟩ := Shape.class_of_capture? captured
      obtain ⟨inside, nonempty, rest', spelled', ended'⟩ :=
        Shape.class_of_capture? (Numeral.ofText?_eq_dec_iff.1 plain)
      have run_eq : run = digits ++ rest' := by simpa [Shape.spell, Shape.dec] using spelled'
      -- the bit behind the slash has no line feed, so nothing follows its digits
      have nothing : rest' = [] := by
        rcases ended' rfl with none | feed
        · exact none
        · have broken := unbroken '\n' (by simp [run_eq, feed])
          exact absurd broken (by decide)
      refine ⟨nonempty rfl, inside, ['/'], by decide, rest, ?_, ended rfl⟩
      rw [nothing, List.append_nil] at run_eq
      simpa [Shape.spell, Shape.inverted, run_eq] using spelled

/-- An operand that is read as a register without number has no digit. -/
theorem lacksDigit_of_registerOf {kind : RegisterKind} {digit : List Char} {refusal : Refusal}
    (read : ofText text = kind.operand digit) (failed : registerOf digit = .error refusal) :
    LacksDigit text ∧ refusal = .crash (.badDigits 10 "") := by
  obtain ⟨tail, spelled⟩ := RegisterKind.opening_of_ofText read
  obtain ⟨_, rfl⟩ :=
    RegisterKind.operand_inj (read.symm.trans (RegisterKind.ofText_of_opening spelled))
  refine ⟨⟨kind, tail, spelled, ?_⟩, ?_⟩
  · intro c first
    by_contra digit
    have valued : Text.isDecimalDigit c = true := by simpa using digit
    obtain ⟨n, value⟩ := Option.isSome_iff_exists.1 valued
    obtain ⟨rest, rfl⟩ := List.head?_eq_some_iff.1 first
    rw [RegisterKind.registerOf_eq_ok_iff.2 ⟨c, rest, rfl, value⟩] at failed
    exact absurd failed (by simp)
  · unfold registerOf registerNumber at failed
    split at failed
    · exact nomatch failed
    · exact (Except.error.inj failed).symm

/-- A number without value is a long one of base 10. -/
theorem long_of_numberOf {numeral : Numeral} {refusal : Refusal}
    (failed : numberOf numeral = .error refusal) :
    ∃ digits, numeral = .dec digits ∧ maxDecimalDigits < digits.length ∧
      refusal = .crash (.tooManyDigits digits.length) := by
  cases numeral with
  | hex digits => exact nomatch failed
  | dec digits =>
    by_cases short : digits.length ≤ maxDecimalDigits
    · simp [numberOf, Numeral.value, short, Except.mapError] at failed
    · refine ⟨digits, rfl, by omega, ?_⟩
      simpa [numberOf, Numeral.value, short, Except.mapError] using failed.symm

end Operand

/-! ## §2. Reasons for a refusal. -/

/-- **What makes the encoder fail**, and with which failure. -/
inductive Pitfall (mnemonic : String) (operands : List String) : Crash → Prop where
  /-- The second operand is looked at before the operands are counted. -/
  | single (uncounted : mnemonic ∈ ["ADDC", "ORL", "ANL", "XRL", "MOVC"])
      (one : operands.length = 1) :
    Pitfall mnemonic operands .missingOperand
  /-- The move from a table behind the program counter has no code.  Operands behind these two are
  not looked at. -/
  | codeTable {rest : List String} (move : mnemonic = "MOVC")
      (table : operands = "A" :: "@A+PC" :: rest) :
    Pitfall mnemonic operands .unencodable
  /-- A register has no digit. -/
  | digitless {text : String} (member : text ∈ operands) (lacks : Operand.LacksDigit text) :
    Pitfall mnemonic operands (.badDigits 10 "")
  /-- The address of a bit is converted together with the mark of base 16. -/
  | markedBit {text : String} {digits : List Char}
      (converts : mnemonic ∈ ["JBC", "JB", "JNB", "CPL"])
    (first : operands.head? = some text) (written : Operand.IsHex text digits) :
    Pitfall mnemonic operands (.badDigits 16 (String.ofList (digits ++ ['H'])))
  /-- A number of base 10 is too long. -/
  | long {text : String} {digits : List Char} (member : text ∈ operands)
    (holds : Operand.HoldsDecimal text digits) (above : maxDecimalDigits < digits.length) :
    Pitfall mnemonic operands (.tooManyDigits digits.length)

/-- **Refused operations whose cells are stored**, with these cells. -/
inductive Body.StoresEarly : Body → List Nat → Prop where
  /-- The rotation is stored, and then there are not two operands. -/
  | rotation {operands : List String} (accumulator : operands.head? = some "A")
    (count : operands.length ≠ 2) : StoresEarly (.operation "RLC" operands) [0x33]
  /-- The comparison is stored as it would be with a label, and then its last operand is none. -/
  | comparison {left right target label : String} {encoding : Encoding}
    (accepted : Mnemonic.cjne.encode [left, right, label] = .ok encoding)
    (unlabelled : labelName? target = none) :
    StoresEarly (.operation "CJNE" [left, right, target]) encoding.cells
  /-- The countdown is stored as it would be with a label, and then its last operand is none. -/
  | countdown {counter target label : String} {encoding : Encoding}
    (accepted : Mnemonic.djnz.encode [counter, label] = .ok encoding)
    (unlabelled : labelName? target = none) :
    StoresEarly (.operation "DJNZ" [counter, target]) encoding.cells

/-- The reasons for which an operation is refused. -/
inductive Reason (mnemonic : String) (operands : List String) : Refusal → Prop where
  /-- The operands do not fit. -/
  | misfit : Reason mnemonic operands (.malformed [])
  /-- They do not fit, and that is seen too late. -/
  | late {cells : List Nat} (early : (Body.operation mnemonic operands).StoresEarly cells) :
    Reason mnemonic operands (.malformed cells)
  /-- The encoder fails. -/
  | failure {crash : Crash} (pitfall : Pitfall mnemonic operands crash) :
    Reason mnemonic operands (.crash crash)

/-- If the result is refused, then for one of the reasons. -/
def Explained {α : Type} (mnemonic : String) (operands : List String) (result : Except Refusal α) :
    Prop :=
  ∀ refusal, result = .error refusal → Reason mnemonic operands refusal

section Explained

variable {α β : Type} {mnemonic : String} {operands : List String}

theorem explained_ok (a : α) : Explained mnemonic operands (.ok a) := by
  intro refusal failed
  exact absurd failed (by simp)

theorem explained_error {refusal : Refusal} (reason : Reason mnemonic operands refusal) :
    Explained mnemonic operands (.error refusal : Except Refusal α) := by
  intro other same
  obtain rfl := Except.error.inj same
  exact reason

theorem explained_bind {value : Except Refusal β} {next : β → Except Refusal α}
    (before : Explained mnemonic operands value)
    (behind : ∀ b, value = .ok b → Explained mnemonic operands (next b)) :
    Explained mnemonic operands (value >>= next) := by
  cases value with
  | error refusal => exact explained_error (before refusal rfl)
  | ok b => exact behind b rfl

theorem explained_plain (cells : List Nat) : Explained mnemonic operands (Encoded.plain cells) :=
  explained_ok _

theorem explained_malformed : Explained mnemonic operands Encoded.malformed :=
  explained_error .misfit

/-- A form that is selected by one value is refused only where the value is. -/
theorem explained_form {value : Except Refusal β} {form : β → List Nat}
    (before : Explained mnemonic operands value) :
    Explained mnemonic operands (value >>= fun b => Encoded.plain (form b)) :=
  explained_bind before fun b _ => explained_plain (form b)

/-- An operand that is not there is missed only behind the first. -/
theorem explained_missing (uncounted : mnemonic ∈ ["ADDC", "ORL", "ANL", "XRL", "MOVC"])
    (one : operands.length = 1) : Explained mnemonic operands Encoded.missing :=
  explained_error (.failure (.single uncounted one))

end Explained

/-! ## §3. Values of operands. -/

section Values

variable {mnemonic text : String} {operands : List String} {digit : List Char}
  (member : text ∈ operands)
include member

theorem explained_registerOf {kind : RegisterKind}
    (read : Operand.ofText text = kind.operand digit) :
    Explained mnemonic operands (registerOf digit) := by
  intro refusal failed
  obtain ⟨lacks, rfl⟩ := Operand.lacksDigit_of_registerOf read failed
  exact .failure (.digitless member lacks)

theorem explained_register (read : Operand.ofText text = .register digit) :
    Explained mnemonic operands (registerOf digit) :=
  explained_registerOf member (show _ = RegisterKind.register.operand digit from read)

theorem explained_pointer (read : Operand.ofText text = .indirect digit) :
    Explained mnemonic operands (registerOf digit) :=
  explained_registerOf member (show _ = RegisterKind.pointer.operand digit from read)

theorem explained_numberOf {numeral : Numeral} (holds : Operand.numeral? text = some numeral) :
    Explained mnemonic operands (numberOf numeral) := by
  intro refusal failed
  obtain ⟨digits, rfl, above, rfl⟩ := Operand.long_of_numberOf failed
  exact .failure (.long member (Operand.holdsDecimal_of_numeral? holds) above)

theorem explained_direct {address : Numeral} (read : Operand.ofText text = .direct address) :
    Explained mnemonic operands (numberOf address) := by
  have written : Numeral.ofText? text.toList = some address := Operand.spells_of_ofText read
  exact explained_numberOf member (by simp [Operand.numeral?, written])

theorem explained_immediate {constant : Numeral}
    (read : Operand.ofText text = .immediate constant) :
    Explained mnemonic operands (numberOf constant) := by
  obtain ⟨plain, written⟩ : Numeral.ofText? text.toList = none ∧ _ := Operand.spells_of_ofText read
  exact explained_numberOf member (by simp [Operand.numeral?, plain, written])

theorem explained_directAddress : Explained mnemonic operands (directAddress text) := by
  unfold directAddress
  split
  · exact explained_ok _
  next read => exact explained_direct member read
  · exact explained_error .misfit

theorem explained_immediateValue : Explained mnemonic operands (immediateValue text) := by
  unfold immediateValue
  split
  next read => exact explained_immediate member read
  · exact explained_error .misfit

end Values

/-- What a bit that is known by a number is written as. -/
theorem BitOperand.ofText?_of_literal {text : String} {address : Numeral}
    (read : BitOperand.ofText text = .literal address) :
    Numeral.ofText? text.toList = some address := by
  unfold BitOperand.ofText at read
  split at read
  · exact absurd read (by simp)
  · split at read
    next found => rw [found, BitOperand.literal.inj read]
    · exact absurd read (by simp)

section Bits

variable {mnemonic text bit : String} {operands : List String} (member : text ∈ operands)
include member

/-- A bit stands in an operand by itself or behind the mark of inversion. -/
theorem explained_bitAddress
    (holds : ∀ numeral, Numeral.ofText? bit.toList = some numeral →
      Operand.numeral? text = some numeral) :
    Explained mnemonic operands (bitAddress bit) := by
  unfold bitAddress
  split
  · exact explained_ok _
  next read => exact explained_numberOf member (holds _ (BitOperand.ofText?_of_literal read))
  · exact explained_error .misfit

theorem explained_plainBit : Explained mnemonic operands (bitAddress text) :=
  explained_bitAddress member fun _ written => by simp [Operand.numeral?, written]

theorem explained_invertedBit (marked : invertedBit? text = some bit) :
    Explained mnemonic operands (bitAddress bit) :=
  explained_bitAddress member fun _ written =>
    (Operand.numeral?_of_invertedBit? marked).trans written

end Bits

theorem explained_decimalBitAddress {mnemonic text : String} {operands : List String}
    (converts : mnemonic ∈ ["JBC", "JB", "JNB", "CPL"]) (first : operands.head? = some text) :
    Explained mnemonic operands (decimalBitAddress text) := by
  unfold decimalBitAddress
  split
  · exact explained_ok _
  next read =>
    have written := Operand.isHex_of_ofText? (BitOperand.ofText?_of_literal read)
    exact explained_error (.failure (.markedBit converts first written))
  next read =>
    have written := BitOperand.ofText?_of_literal read
    exact explained_numberOf (List.mem_of_head? first) (by simp [Operand.numeral?, written])
  · exact explained_error .misfit

/-! ## §4. The encoders. -/

namespace Instruction

variable {mnemonic target source : String} {operands : List String} {base opcode inverted : Nat}

section Operands

variable (intoMember : target ∈ operands) (fromMember : source ∈ operands)

section
include intoMember

theorem countOperand_explained : Explained mnemonic operands (countOperand base target) := by
  unfold countOperand
  split
  · exact explained_plain _
  · split
    next read => exact explained_form (explained_pointer intoMember read)
    next read => exact explained_form (explained_register intoMember read)
    · exact explained_form (explained_directAddress intoMember)

theorem countCells_explained : Explained mnemonic operands (countCells target) := by
  unfold countCells
  split
  next read => exact explained_bind (explained_register intoMember read) fun _ _ => explained_ok _
  · exact explained_bind (explained_directAddress intoMember) fun _ _ => explained_ok _

end

section
include fromMember

theorem accumulate_explained : Explained mnemonic operands (accumulate base source) := by
  unfold accumulate
  split
  next read => exact explained_form (explained_pointer fromMember read)
  next read => exact explained_form (explained_register fromMember read)
  · exact explained_plain _
  next read => exact explained_form (explained_direct fromMember read)
  next read => exact explained_form (explained_immediate fromMember read)
  · exact explained_malformed

theorem combineCarry_explained :
    Explained mnemonic operands (combineCarry opcode inverted source) := by
  unfold combineCarry
  split
  next marked => exact explained_form (explained_invertedBit fromMember marked)
  · exact explained_form (explained_plainBit fromMember)

theorem moveIntoRegister_explained {fromA fromConstant fromCell : Nat} :
    Explained mnemonic operands (moveIntoRegister fromA fromConstant fromCell source) := by
  unfold moveIntoRegister
  split
  · exact explained_plain _
  · split
    next read => exact explained_form (explained_immediate fromMember read)
    · exact explained_form (explained_directAddress fromMember)

theorem moveIntoA_explained : Explained mnemonic operands (moveIntoA source) := by
  unfold moveIntoA
  split
  next read => exact explained_form (explained_pointer fromMember read)
  next read => exact explained_form (explained_register fromMember read)
  next read => exact explained_form (explained_immediate fromMember read)
  · exact explained_form (explained_directAddress fromMember)

theorem moveIntoCell_explained {address : Nat} :
    Explained mnemonic operands (moveIntoCell address source) := by
  unfold moveIntoCell
  split
  · exact explained_plain _
  · split
    next read => exact explained_form (explained_immediate fromMember read)
    next read => exact explained_form (explained_register fromMember read)
    next read => exact explained_form (explained_pointer fromMember read)
    · exact explained_form (explained_directAddress fromMember)

end

include intoMember fromMember

theorem combineCell_explained : Explained mnemonic operands (combineCell base target source) := by
  unfold combineCell
  split
  · exact explained_form (explained_directAddress intoMember)
  · -- the constant is converted first, so it is the one to blame if both numbers are too long
    exact explained_bind (explained_immediateValue fromMember) fun _ _ =>
      explained_form (explained_directAddress intoMember)

theorem moveElsewhere_explained : Explained mnemonic operands (moveElsewhere target source) := by
  unfold moveElsewhere
  split
  next read =>
    exact explained_bind (explained_register intoMember read) fun _ _ =>
      moveIntoRegister_explained fromMember
  · exact explained_bind (explained_directAddress intoMember) fun _ _ =>
      moveIntoCell_explained fromMember

theorem compareCells_explained : Explained mnemonic operands (compareCells target source) := by
  unfold compareCells
  split
  · -- the accumulator is compared with what the second operand says
    split
    next read =>
      exact explained_bind (explained_immediate fromMember read) fun _ _ => explained_ok _
    · exact explained_ok _
    next read => exact explained_bind (explained_direct fromMember read) fun _ _ => explained_ok _
    · exact explained_error .misfit
  · -- a register or its cell is compared with a constant, and the register is converted first
    split
    next read =>
      exact explained_bind (explained_pointer intoMember read) fun _ _ =>
        explained_bind (explained_immediateValue fromMember) fun _ _ => explained_ok _
    next read =>
      exact explained_bind (explained_register intoMember read) fun _ _ =>
        explained_bind (explained_immediateValue fromMember) fun _ _ => explained_ok _
    · exact explained_error .misfit

end Operands

/-! Lists of operands, whose counts are checked. -/

theorem onAccumulator_explained : Explained mnemonic operands (onAccumulator opcode operands) := by
  unfold onAccumulator
  split
  · split
    · exact explained_plain _
    · exact explained_malformed
  · exact explained_malformed

theorem increment_explained : Explained mnemonic operands (increment operands) := by
  unfold increment
  split
  · split
    · exact explained_plain _
    · exact countOperand_explained (by simp)
  · exact explained_malformed

theorem decrement_explained : Explained mnemonic operands (decrement operands) := by
  unfold decrement
  split
  · exact countOperand_explained (by simp)
  · exact explained_malformed

theorem addInto_explained : Explained mnemonic operands (addInto base operands) := by
  unfold addInto
  split
  · split
    · exact accumulate_explained (by simp)
    · exact explained_malformed
  · exact explained_malformed

theorem clear_explained : Explained mnemonic operands (clear operands) := by
  unfold clear
  split
  · split
    · exact explained_plain _
    · split
      · exact explained_plain _
      · exact explained_form (explained_plainBit (by simp))
  · exact explained_malformed

theorem setBit_explained : Explained mnemonic operands (setBit operands) := by
  unfold setBit
  split
  · split
    · exact explained_plain _
    · exact explained_form (explained_plainBit (by simp))
  · exact explained_malformed

theorem complement_explained : Explained "CPL" operands (complement operands) := by
  unfold complement
  split
  · split
    · exact explained_plain _
    · split
      · exact explained_plain _
      · exact explained_form (explained_decimalBitAddress (by simp) rfl)
  · exact explained_malformed

theorem move_explained : Explained mnemonic operands (move operands) := by
  unfold move
  split
  next target source =>
    have intoMember : target ∈ [target, source] := by simp
    have fromMember : source ∈ [target, source] := by simp
    split
    next read =>
      exact explained_bind (explained_pointer intoMember read) fun _ _ =>
        moveIntoRegister_explained fromMember
    · -- the accumulator, the carry on either side and the data pointer come before the other cells
      split
      · exact moveIntoA_explained fromMember
      · split
        · exact explained_form (explained_plainBit fromMember)
        · split
          · exact explained_form (explained_plainBit intoMember)
          · split
            · exact explained_form (explained_immediateValue fromMember)
            · exact moveElsewhere_explained intoMember fromMember
  · exact explained_malformed

theorem moveExternal_explained : Explained mnemonic operands (moveExternal operands) := by
  unfold moveExternal
  split
  · -- first into the accumulator, then out of it
    split
    · split
      · exact explained_plain _
      · split
        next read => exact explained_form (explained_pointer (by simp) read)
        · exact explained_malformed
    · split
      next read =>
        split
        · exact explained_form (explained_pointer (by simp) read)
        · exact explained_malformed
      · exact explained_malformed
  · exact explained_malformed

theorem stack_explained : Explained mnemonic operands (stack opcode operands) := by
  unfold stack
  split
  · exact explained_form (explained_directAddress (by simp))
  · exact explained_malformed

theorem exchange_explained : Explained mnemonic operands (exchange operands) := by
  unfold exchange
  split
  · split
    · split
      next read => exact explained_form (explained_pointer (by simp) read)
      next read => exact explained_form (explained_register (by simp) read)
      · -- any other operand stands for the accumulator, even a number that cannot be converted
        exact explained_plain _
    · exact explained_malformed
  · exact explained_malformed

theorem exchangeDigit_explained : Explained mnemonic operands (exchangeDigit operands) := by
  unfold exchangeDigit
  split
  · split
    · split
      next read => exact explained_form (explained_pointer (by simp) read)
      · exact explained_malformed
    · exact explained_malformed
  · exact explained_malformed

theorem jumpTo_explained {name : String} {size : Nat} :
    Explained mnemonic operands (jumpTo name size operands) := by
  unfold jumpTo
  split
  · split
    · exact explained_ok _
    · exact explained_malformed
  · exact explained_malformed

theorem jump_explained : Explained mnemonic operands (jump operands) := by
  unfold jump
  split
  · split
    · exact explained_plain _
    · exact jumpTo_explained
  · exact explained_malformed

theorem branch_explained {name : String} :
    Explained mnemonic operands (branch name opcode operands) := by
  unfold branch
  split
  · split
    · exact explained_ok _
    · exact explained_malformed
  · exact explained_malformed

theorem branchOnBit_explained {name : String} (converts : mnemonic ∈ ["JBC", "JB", "JNB", "CPL"]) :
    Explained mnemonic operands (branchOnBit name opcode operands) := by
  unfold branchOnBit
  split
  · -- the label is looked at last, but before anything is stored
    refine explained_bind (explained_decimalBitAddress converts rfl) fun _ _ => ?_
    split
    · exact explained_ok _
    · exact explained_malformed
  · exact explained_malformed

/-! Lists of operands, of which at least one is taken for granted. -/

section Nonempty

variable (nonempty : operands ≠ [])
include nonempty

theorem rotate_explained : Explained mnemonic operands (rotate opcode operands) := by
  unfold rotate
  split
  · exact absurd rfl nonempty
  · split
    · exact explained_plain _
    · exact explained_malformed

theorem onPair_explained : Explained mnemonic operands (onPair opcode operands) := by
  unfold onPair
  split
  · exact absurd rfl nonempty
  · split
    · exact explained_plain _
    · exact explained_malformed

theorem rotateThroughCarry_explained : Explained "RLC" operands (rotateThroughCarry operands) := by
  unfold rotateThroughCarry
  split
  · exact absurd rfl nonempty
  · split
    · exact explained_plain _
    · exact explained_malformed
  next target rest uncounted =>
    split
    next named =>
      refine explained_error (.late (.rotation (congrArg some named) ?_))
      -- two operands were the case before
      intro two
      obtain ⟨second, rfl⟩ := List.length_eq_one_iff.1 (Nat.succ.inj two)
      exact uncounted second rfl
    · exact explained_malformed

theorem addIntoLoosely_explained (uncounted : mnemonic ∈ ["ADDC", "ORL", "ANL", "XRL", "MOVC"]) :
    Explained mnemonic operands (addIntoLoosely base operands) := by
  unfold addIntoLoosely
  split
  · exact absurd rfl nonempty
  · split
    · split
      · exact explained_missing uncounted rfl
      · exact accumulate_explained (by simp)
    · exact explained_malformed

/-- Where there are no two operands, there is one. -/
theorem explained_missing_second (uncounted : mnemonic ∈ ["ADDC", "ORL", "ANL", "XRL", "MOVC"])
    (few : ∀ target source rest, operands = target :: source :: rest → False) :
    Explained mnemonic operands Encoded.missing := by
  match operands with
  | [] => exact absurd rfl nonempty
  | [_] => exact explained_missing uncounted rfl
  | target :: source :: rest => exact absurd rfl (few target source rest)

theorem combine_explained (uncounted : mnemonic ∈ ["ADDC", "ORL", "ANL", "XRL", "MOVC"]) :
    Explained mnemonic operands (combine base operands) := by
  unfold combine
  split
  · split
    · exact accumulate_explained (by simp)
    · exact combineCell_explained (by simp) (by simp)
  next few => exact explained_missing_second nonempty uncounted few

theorem combineOrCarry_explained (uncounted : mnemonic ∈ ["ADDC", "ORL", "ANL", "XRL", "MOVC"]) :
    Explained mnemonic operands (combineOrCarry base opcode inverted operands) := by
  unfold combineOrCarry
  split
  · split
    · exact accumulate_explained (by simp)
    · split
      · exact combineCarry_explained (by simp)
      · exact combineCell_explained (by simp) (by simp)
  next few => exact explained_missing_second nonempty uncounted few

theorem moveCode_explained : Explained "MOVC" operands (moveCode operands) := by
  unfold moveCode
  split
  · exact absurd rfl nonempty
  · split
    next named =>
      split
      · exact explained_missing (by simp) rfl
      · split
        · exact explained_plain _
        · split
          next table =>
            -- recognised by its first two operands, whatever follows them
            exact explained_error (.failure (.codeTable rfl (by rw [named, table])))
          · exact explained_malformed
    · exact explained_malformed

end Nonempty

/-! Branches that look at their label last. -/

/-- Some operand is a label, and with it the cells are accepted. -/
theorem exists_storeThenAwait (name : String) (cells : List Nat) :
    ∃ label encoding, storeThenAwait name cells label = .ok encoding ∧ encoding.cells = cells :=
  ⟨"", ⟨cells, some ⟨name, ""⟩, false⟩, rfl, rfl⟩

theorem compareBranch_explained : Explained "CJNE" operands (compareBranch operands) := by
  unfold compareBranch
  split
  next left right target =>
    refine explained_bind (compareCells_explained (by simp) (by simp)) fun cells compared => ?_
    unfold storeThenAwait
    split
    · exact explained_ok _
    next unlabelled =>
      -- with any label instead, these very cells are accepted
      obtain ⟨label, encoding, awaited, rfl⟩ := exists_storeThenAwait "CJNE" cells
      have accepted : Mnemonic.cjne.encode [left, right, label] = .ok encoding := by
        show (compareCells left right >>= fun cells => storeThenAwait "CJNE" cells label) = _
        rw [compared]
        exact awaited
      exact explained_error (.late (.comparison accepted unlabelled))
  · exact explained_malformed

theorem countBranch_explained : Explained "DJNZ" operands (countBranch operands) := by
  unfold countBranch
  split
  next counter target =>
    refine explained_bind (countCells_explained (by simp)) fun cells counted => ?_
    unfold storeThenAwait
    split
    · exact explained_ok _
    next unlabelled =>
      obtain ⟨label, encoding, awaited, rfl⟩ := exists_storeThenAwait "DJNZ" cells
      have accepted : Mnemonic.djnz.encode [counter, label] = .ok encoding := by
        show (countCells counter >>= fun cells => storeThenAwait "DJNZ" cells label) = _
        rw [counted]
        exact awaited
      exact explained_error (.late (.countdown accepted unlabelled))
  · exact explained_malformed

end Instruction

/-! ## §5. All operations. -/

section Operations

variable {operands : List String}

/-- **An operation with operands is refused for one of the reasons only.** -/
theorem Mnemonic.explained_encode (known : Mnemonic) (nonempty : operands ≠ []) :
    Explained known.name operands (known.encode operands) := by
  open Instruction in
  cases known with
  | nop | ret | reti => exact explained_plain _
  | rr | rrc | rl => exact rotate_explained nonempty
  | rlc => exact rotateThroughCarry_explained nonempty
  | inc => exact increment_explained
  | dec => exact decrement_explained
  | add | subb => exact addInto_explained
  | addc => exact addIntoLoosely_explained nonempty (by decide)
  | orl | anl => exact combineOrCarry_explained nonempty (by decide)
  | xrl => exact combine_explained nonempty (by decide)
  | mul | div => exact onPair_explained nonempty
  | swap | da => exact onAccumulator_explained
  | mov => exact move_explained
  | movc => exact moveCode_explained nonempty
  | movx => exact moveExternal_explained
  | push | pop => exact stack_explained
  | xch => exact exchange_explained
  | xchd => exact exchangeDigit_explained
  | clr => exact clear_explained
  | setb => exact setBit_explained
  | cpl => exact complement_explained
  | ajmp | acall | ljmp | lcall => exact jumpTo_explained
  | jmp => exact jump_explained
  | jc | jnc | jz | jnz | sjmp => exact branch_explained
  | jbc | jb | jnb => exact branchOnBit_explained (by decide)
  | cjne => exact compareBranch_explained
  | djnz => exact countBranch_explained

theorem explained_origin : Explained "ORG" operands (origin operands) := by
  unfold origin
  split
  next text =>
    split
    next address written =>
      have holds : Operand.numeral? text = some address := by simp [Operand.numeral?, written]
      exact explained_numberOf (List.mem_singleton_self text) holds
    · exact explained_error .misfit
  · exact explained_error .misfit

/-! ## §6. Operands that are counted. -/

/-- The number of operands of the operations that count them before they do anything else. -/
def Mnemonic.operandCount? : Mnemonic → Option Nat
  | .inc | .dec | .swap | .da | .push | .pop | .clr | .setb | .cpl => some 1
  | .ajmp | .acall | .ljmp | .lcall | .jmp | .jc | .jnc | .jz | .jnz | .sjmp => some 1
  | .add | .subb | .mov | .movx | .xch | .xchd | .jbc | .jb | .jnb | .djnz => some 2
  | .cjne => some 3
  | .nop | .ret | .reti | .rr | .rrc | .rl | .rlc | .addc | .orl | .anl | .xrl => none
  | .mul | .div | .movc => none

/-- The same by name, with the origin. -/
def Assembler.operandCount? (mnemonic : String) : Option Nat :=
  if mnemonic = "ORG" then some 1 else (Mnemonic.ofName? mnemonic).bind Mnemonic.operandCount?

/-- With another number of operands such an operation is refused, and no cell is stored. -/
theorem Mnemonic.encode_of_length_ne {known : Mnemonic} {n : Nat}
    (counted : known.operandCount? = some n) (wrong : operands.length ≠ n) :
    known.encode operands = .error (.malformed []) := by
  cases known with
  | inc | dec | swap | da | push | pop | clr | setb | cpl | ajmp | acall | ljmp | lcall | jmp | jc
  | jnc | jz | jnz | sjmp =>
    obtain rfl : 1 = n := Option.some.inj counted
    match operands with
    | [_] => exact absurd rfl wrong
    | [] | _ :: _ :: _ => rfl
  | add | subb | mov | movx | xch | xchd | jbc | jb | jnb | djnz =>
    obtain rfl : 2 = n := Option.some.inj counted
    match operands with
    | [_, _] => exact absurd rfl wrong
    | [] | [_] | _ :: _ :: _ :: _ => rfl
  | cjne =>
    obtain rfl : 3 = n := Option.some.inj counted
    match operands with
    | [_, _, _] => exact absurd rfl wrong
    | [] | [_] | [_, _] | _ :: _ :: _ :: _ :: _ => rfl
  | nop | ret | reti | rr | rrc | rl | rlc | addc | orl | anl | xrl | mul | div | movc =>
    exact absurd counted (by simp [operandCount?])

theorem origin_of_length_ne (wrong : operands.length ≠ 1) :
    origin operands = .error (.malformed []) := by
  match operands with
  | [_] => exact absurd rfl wrong
  | [] | _ :: _ :: _ => rfl

namespace Assembler

theorem requireCount_of_length {mnemonic : String} {n : Nat} (right : operands.length = n)
    (line : Int) :
    requireCount mnemonic operands [n] line = pure () := by
  simp [requireCount, right]

theorem requireCount_of_length_ne {mnemonic : String} {n : Nat} (wrong : operands.length ≠ n)
    (line : Int) :
    requireCount mnemonic operands [n] line = throw (.reported (.malformed mnemonic line)) := by
  simp [requireCount, wrong]

/-- **Counting the operands first changes nothing**: with another number of them the operation is
refused as the count is, and nothing is stored. -/
theorem operate_eq_requireCount {mnemonic : String} {n : Nat}
    (counted : operandCount? mnemonic = some n)
    (operands : List String) (line : Int) :
    operate line mnemonic operands =
      requireCount mnemonic operands [n] line >>= fun _ => operate line mnemonic operands := by
  by_cases right : operands.length = n
  · rw [requireCount_of_length right]
    rfl
  · -- what is refused without cells only reports the operation
    have refused : operate line mnemonic operands = refuse mnemonic line (.malformed []) := by
      unfold operandCount? at counted
      unfold operate
      by_cases isOrigin : mnemonic = "ORG"
      · rw [if_pos isOrigin] at counted ⊢
        obtain rfl : 1 = n := Option.some.inj counted
        rw [origin_of_length_ne right]
      · rw [if_neg isOrigin] at counted ⊢
        obtain ⟨known, found, counted⟩ := Option.bind_eq_some_iff.1 counted
        rw [found]
        dsimp only
        rw [Mnemonic.encode_of_length_ne counted right]
    rw [refused, requireCount_of_length_ne right]
    rfl

/-- The rotation to the left through the carry counts its operands too, but only when it is
stored. -/
theorem operate_rotateThroughCarry (others : List String) (line : Int) :
    operate line "RLC" ("A" :: others) =
      store (asStored [0x33]) >>= fun _ => requireCount "RLC" ("A" :: others) [2] line := by
  match others with
  | [other] =>
    have two : ["A", other].length = 2 := rfl
    rw [requireCount_of_length two]
    exact bind_pure_unit.symm
  | [] | _ :: _ :: _ => rfl

end Assembler

end Operations

end Mcs51
