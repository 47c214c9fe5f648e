/-
  Mcs51.Proofs.OperandKinds — no operand is of two kinds.

  There is a test for each kind of operand.  A text passes the test of one kind at most, and then it
  is read as an operand of that kind.  Most kinds are told apart by the character they begin with.
  Numbers of base 10 lack the letter that closes numbers of base 16.  The names of registers and
  bits have to be looked at one by one: some of them consist of digits of base 16, and some bits are
  named like registers.

  Main definitions:
    * `PassesOwn` : of several tests only one is passed, if any;
    * `ByteKind`, `ByteKind.read?` : the kinds of operands that denote a byte, and the test for
      each;
    * `BitKind`, `BitKind.read?` : the same for bits and inverted bits.

  Main statements:
    * `ByteKind.passesOwn`, `BitKind.passesOwn` : a text passes the test of its own kind only.
-/
import Mcs51.Proofs.Refusals

namespace Mcs51

/-! ## §1. Tests of which at most one is passed. -/

/-- **Only the test of the own kind is passed**, if there is such a kind, and it gives the
reading. -/
def PassesOwn {Kind Reading : Type} (read? : Kind → Option Reading) (reading : Reading)
    (own : Option Kind) :
    Prop :=
  ∀ kind other, read? kind = some other ↔ reading = other ∧ own = some kind

namespace PassesOwn

variable {Kind Reading : Type} {read? : Kind → Option Reading} {reading : Reading}
  {own : Option Kind}
  {kind : Kind} {tests : List Kind}

/-- It is enough that a passed test gives the reading, which is of that kind, and that the test of
its own kind is passed. -/
theorem of_kind? {kind? : Reading → Option Kind}
    (sound : ∀ kind other, read? kind = some other → reading = other ∧ kind? other = some kind)
    (complete : ∀ kind, kind? reading = some kind → read? kind = some reading) :
    PassesOwn read? reading (kind? reading) := by
  intro kind other
  constructor
  · intro passed
    obtain ⟨rfl, of_kind⟩ := sound kind other passed
    exact ⟨rfl, of_kind⟩
  · rintro ⟨rfl, of_kind⟩
    exact complete kind of_kind

theorem isSome_iff (passes : PassesOwn read? reading own) :
    (read? kind).isSome = true ↔ own = some kind := by
  rw [Option.isSome_iff_exists]
  constructor
  · rintro ⟨other, passed⟩
    exact ((passes kind other).1 passed).2
  · intro is_own
    exact ⟨reading, (passes kind reading).2 ⟨rfl, is_own⟩⟩

/-- The first test that is passed is that of the own kind, if it is among those that are tried. -/
theorem findSome?_eq [DecidableEq Kind] (passes : PassesOwn read? reading own) (tests : List Kind) :
    tests.findSome? read? = if tests.any (own == some ·) then some reading else none := by
  induction tests with
  | nil => rfl
  | cons kind rest ih =>
    by_cases is_own : own = some kind
    · have passed : read? kind = some reading := (passes kind reading).2 ⟨rfl, is_own⟩
      simp [passed, is_own]
    · have failed : read? kind = none := by
        rw [← Option.not_isSome_iff_eq_none, passes.isSome_iff]
        exact is_own
      simp [failed, ih, is_own]

/-- In whatever order the tests are tried, the first one that is passed gives the reading, if the
own kind is tested. -/
theorem getD_findSome?_of_perm [DecidableEq Kind] (passes : PassesOwn read? reading own)
    {order : List Kind}
    (perm : order.Perm tests) (unread : Reading) :
    (order.findSome? read?).getD unread =
      if tests.any (own == some ·) then reading else unread := by
  have same : order.any (own == some ·) = tests.any (own == some ·) := perm.any_eq
  rw [passes.findSome?_eq, same]
  split <;> rfl

/-- A kind is found exactly if it is among those that are tried and its test is passed. -/
theorem find?_eq_some_iff (passes : PassesOwn read? reading own) :
    tests.find? (fun kind => (read? kind).isSome) = some kind ↔
      kind ∈ tests ∧ (read? kind).isSome = true := by
  constructor
  · intro found
    exact ⟨List.mem_of_find?_eq_some found, by simpa using List.find?_some found⟩
  · rintro ⟨tried, passed⟩
    have some_passed : (tests.find? fun kind => (read? kind).isSome).isSome = true := by
      rw [List.find?_isSome]
      exact ⟨kind, tried, passed⟩
    obtain ⟨first, found⟩ := Option.isSome_iff_exists.1 some_passed
    have first_passed : (read? first).isSome = true := by simpa using List.find?_some found
    have same : some first = some kind :=
      (passes.isSome_iff.1 first_passed).symm.trans (passes.isSome_iff.1 passed)
    rw [found, same]

/-- Of different tests at most one is passed. -/
theorem countP_le_one (passes : PassesOwn read? reading own) (different : tests.Nodup) :
    tests.countP (fun kind => (read? kind).isSome) ≤ 1 := by
  induction tests with
  | nil => simp
  | cons kind rest ih =>
    obtain ⟨only_once, rest_different⟩ := List.nodup_cons.1 different
    by_cases passed : (read? kind).isSome = true
    · have others_fail : rest.countP (fun kind => (read? kind).isSome) = 0 := by
        rw [List.countP_eq_zero]
        intro other tried other_passed
        -- another kind that is passed would be the own kind too, and so the first one again
        have same : some kind = some other :=
          (passes.isSome_iff.1 passed).symm.trans (passes.isSome_iff.1 other_passed)
        exact only_once (Option.some.inj same ▸ tried)
      simp [passed, others_fail]
    · simpa [passed] using ih rest_different

end PassesOwn

/-! ## §2. Kinds of bytes. -/

/-- The kinds of operands that denote a byte. -/
inductive ByteKind where
  /-- The cell that a register points to. -/
  | indirect
  /-- A register. -/
  | register
  /-- The name of a special function register. -/
  | special
  /-- A cell, by a number of base 16. -/
  | hex
  /-- A cell, by a number of base 10. -/
  | dec
  /-- A constant of base 16. -/
  | immediateHex
  /-- A constant of base 10. -/
  | immediateDec
  deriving Repr, DecidableEq

/-- The test for a kind: what a text of that kind denotes. -/
def ByteKind.read? : ByteKind → String → Option Operand
  | .indirect, text => (Shape.indirect.capture? text.toList).map .indirect
  | .register, text => (Shape.register.capture? text.toList).map .register
  | .special, text => (SpecialRegister.address? text).map .special
  | .hex, text => (Shape.hex.capture? text.toList).map fun digits => .direct (.hex digits)
  | .dec, text => (Shape.dec.capture? text.toList).map fun digits => .direct (.dec digits)
  | .immediateHex, text =>
    (Shape.immediateHex.capture? text.toList).map fun digits => .immediate (.hex digits)
  | .immediateDec, text =>
    (Shape.immediateDec.capture? text.toList).map fun digits => .immediate (.dec digits)

/-- Does a text pass the test for the kind? -/
def ByteKind.accepts (kind : ByteKind) (text : String) : Bool :=
  (kind.read? text).isSome

/-- The kind of an operand. -/
def Operand.kind? : Operand → Option ByteKind
  | .indirect _ => some .indirect
  | .register _ => some .register
  | .special _ => some .special
  | .direct (.hex _) => some .hex
  | .direct (.dec _) => some .dec
  | .immediate (.hex _) => some .immediateHex
  | .immediate (.dec _) => some .immediateDec
  | .other => none

/-- A named register is nothing else. -/
theorem Operand.ofText_of_address? {text : String} {address : Nat}
    (named : SpecialRegister.address? text = some address) : ofText text = .special address := by
  have unregistered : ∀ entry ∈ SpecialRegister.addresses,
      Shape.indirect.capture? entry.1.toList = none ∧
        Shape.register.capture? entry.1.toList = none := by
    decide +kernel
  obtain ⟨pointer, register⟩ := unregistered _ (mem_of_lookup named)
  simp only [ofText, pointer, register, named]

namespace ByteKind

variable {text : String} {kind : ByteKind} {operand : Operand}

/-- What passes a test is read as an operand of that kind. -/
theorem ofText_of_read? (passed : kind.read? text = some operand) :
    Operand.ofText text = operand ∧ operand.kind? = some kind := by
  cases kind with
  | indirect =>
    obtain ⟨digit, captured, rfl⟩ := Option.map_eq_some_iff.1 passed
    exact ⟨by simp only [Operand.ofText, captured], rfl⟩
  | register =>
    obtain ⟨digit, captured, rfl⟩ := Option.map_eq_some_iff.1 passed
    obtain ⟨rest, spelled⟩ := Shape.capture?_eq_spell captured
    have pointer : Shape.indirect.capture? text.toList = none := by
      rw [spelled]
      rfl
    exact ⟨by simp only [Operand.ofText, pointer, captured], rfl⟩
  | special =>
    obtain ⟨address, named, rfl⟩ := Option.map_eq_some_iff.1 passed
    exact ⟨Operand.ofText_of_address? named, rfl⟩
  | hex =>
    obtain ⟨digits, captured, rfl⟩ := Option.map_eq_some_iff.1 passed
    exact ⟨(Operand.reads_of_ofText? (Numeral.ofText?_eq_hex_iff.2 captured)).1, rfl⟩
  | dec =>
    obtain ⟨digits, captured, rfl⟩ := Option.map_eq_some_iff.1 passed
    exact ⟨(Operand.reads_of_ofText? (Numeral.ofText?_eq_dec_iff.2 captured)).1, rfl⟩
  | immediateHex =>
    obtain ⟨digits, captured, rfl⟩ := Option.map_eq_some_iff.1 passed
    obtain ⟨rest, spelled⟩ := Shape.capture?_eq_spell captured
    exact ⟨(Operand.reads_of_ofImmediate? spelled (Numeral.ofImmediate?_eq_hex_iff.2 captured)).1,
      rfl⟩
  | immediateDec =>
    obtain ⟨digits, captured, rfl⟩ := Option.map_eq_some_iff.1 passed
    obtain ⟨rest, spelled⟩ := Shape.capture?_eq_spell captured
    exact ⟨(Operand.reads_of_ofImmediate? spelled (Numeral.ofImmediate?_eq_dec_iff.2 captured)).1,
      rfl⟩

/-- What is read as an operand of a kind passes the test for it. -/
theorem read?_ofText (of_kind : (Operand.ofText text).kind? = some kind) :
    kind.read? text = some (Operand.ofText text) := by
  -- how the operand is spelled is just what the test for its kind asks
  have spells := Operand.spells_ofText text
  generalize Operand.ofText text = operand at of_kind spells
  rcases operand with digit | digit | address | (digits | digits) | (digits | digits) | _ <;>
    cases of_kind
  · exact congrArg (Option.map _) spells
  · exact congrArg (Option.map _) spells
  · exact congrArg (Option.map _) spells
  · exact congrArg (Option.map _) (Numeral.ofText?_eq_hex_iff.1 spells)
  · exact congrArg (Option.map _) (Numeral.ofText?_eq_dec_iff.1 spells)
  · exact congrArg (Option.map _) (Numeral.ofImmediate?_eq_hex_iff.1 spells.2)
  · exact congrArg (Option.map _) (Numeral.ofImmediate?_eq_dec_iff.1 spells.2)

/-- **A text passes the test of its own kind only.** -/
theorem passesOwn (text : String) :
    PassesOwn (fun kind : ByteKind => kind.read? text) (Operand.ofText text)
      (Operand.ofText text).kind? :=
  .of_kind? (fun _ _ => ofText_of_read?) (fun _ => read?_ofText)

end ByteKind

/-! ## §3. Kinds of bits. -/

/-- The kinds of operands that denote a bit. -/
inductive BitKind where
  /-- The mark of inversion, and a bit. -/
  | inverted
  /-- The name of a bit. -/
  | named
  /-- A bit, by a number of base 16. -/
  | hex
  /-- A bit, by a number of base 10. -/
  | dec
  deriving Repr, DecidableEq

/-- An operand that denotes a bit or the inverse of one. -/
inductive BitReading where
  /-- A bit as it is. -/
  | plain (operand : BitOperand)
  /-- The inverse of a bit, as the bit is written. -/
  | inverted (bit : String)
  deriving Repr, DecidableEq

namespace BitReading

/-- Reads an operand that denotes a bit or the inverse of one. -/
def ofText (text : String) : BitReading :=
  match invertedBit? text with
  | some bit => .inverted bit
  | none => .plain (BitOperand.ofText text)

/-- The kind of an operand. -/
def kind? : BitReading → Option BitKind
  | .inverted _ => some .inverted
  | .plain (.named _) => some .named
  | .plain (.literal (.hex _)) => some .hex
  | .plain (.literal (.dec _)) => some .dec
  | .plain .other => none

end BitReading

namespace BitKind

/-- The test for a kind: what a text of that kind denotes. -/
def read? : BitKind → String → Option BitReading
  | .inverted, text => (invertedBit? text).map .inverted
  | .named, text => (SpecialRegister.bitAddress? text).map fun address => .plain (.named address)
  | .hex, text => (Shape.hex.capture? text.toList).map fun digits => .plain (.literal (.hex digits))
  | .dec, text => (Shape.dec.capture? text.toList).map fun digits => .plain (.literal (.dec digits))

/-- Does a text pass the test for the kind? -/
def accepts (kind : BitKind) (text : String) : Bool :=
  (kind.read? text).isSome

end BitKind

namespace BitReading

variable {text bit : String}

theorem ofText_of_inverted (marked : invertedBit? text = some bit) :
    ofText text = .inverted bit := by
  simp only [ofText, marked]

theorem ofText_of_unmarked (unmarked : invertedBit? text = none) :
    ofText text = .plain (BitOperand.ofText text) := by
  simp only [ofText, unmarked]

/-- A named bit is nothing else. -/
theorem ofText_of_bitAddress? {address : Nat}
    (named : SpecialRegister.bitAddress? text = some address) :
    ofText text = .plain (.named address) := by
  have unmarked : ∀ entry ∈ SpecialRegister.bitAddresses, invertedBit? entry.1 = none := by
    decide +kernel
  rw [ofText_of_unmarked (unmarked _ (Operand.mem_of_lookup named))]
  simp only [BitOperand.ofText, named]

/-- A plain number is a bit and nothing else. -/
theorem ofText_of_numeral {numeral : Numeral} (plain : Numeral.ofText? text.toList = some numeral) :
    ofText text = .plain (.literal numeral) := by
  obtain ⟨_, bit, unmarked⟩ := Operand.reads_of_ofText? plain
  rw [ofText_of_unmarked unmarked, bit]

end BitReading

/-- An inverted bit is no bit by itself. -/
theorem BitOperand.ofText_of_inverted {text bit : String} (marked : invertedBit? text = some bit) :
    BitOperand.ofText text = .other := by
  have read := BitReading.ofText_of_inverted marked
  cases named : SpecialRegister.bitAddress? text with
  | some address =>
    exact absurd (read.symm.trans (BitReading.ofText_of_bitAddress? named)) (by simp)
  | none =>
    cases plain : Numeral.ofText? text.toList with
    | some numeral => exact absurd (read.symm.trans (BitReading.ofText_of_numeral plain)) (by simp)
    | none => simp only [BitOperand.ofText, named, plain]

namespace BitKind

variable {text : String} {kind : BitKind} {reading : BitReading}

/-- What passes a test is read as an operand of that kind. -/
theorem ofText_of_read? (passed : kind.read? text = some reading) :
    BitReading.ofText text = reading ∧ reading.kind? = some kind := by
  cases kind with
  | inverted =>
    obtain ⟨bit, marked, rfl⟩ := Option.map_eq_some_iff.1 passed
    exact ⟨BitReading.ofText_of_inverted marked, rfl⟩
  | named =>
    obtain ⟨address, named, rfl⟩ := Option.map_eq_some_iff.1 passed
    exact ⟨BitReading.ofText_of_bitAddress? named, rfl⟩
  | hex =>
    obtain ⟨digits, captured, rfl⟩ := Option.map_eq_some_iff.1 passed
    exact ⟨BitReading.ofText_of_numeral (Numeral.ofText?_eq_hex_iff.2 captured), rfl⟩
  | dec =>
    obtain ⟨digits, captured, rfl⟩ := Option.map_eq_some_iff.1 passed
    exact ⟨BitReading.ofText_of_numeral (Numeral.ofText?_eq_dec_iff.2 captured), rfl⟩

/-- What is read as an operand of a kind passes the test for it. -/
theorem read?_ofText (of_kind : (BitReading.ofText text).kind? = some kind) :
    kind.read? text = some (BitReading.ofText text) := by
  -- the mark, the names and the numbers are gone through as they are read
  cases marked : invertedBit? text with
  | some bit =>
    rw [BitReading.ofText_of_inverted marked] at of_kind ⊢
    cases of_kind
    exact congrArg (Option.map _) marked
  | none =>
    cases named : SpecialRegister.bitAddress? text with
    | some address =>
      rw [BitReading.ofText_of_bitAddress? named] at of_kind ⊢
      cases of_kind
      exact congrArg (Option.map _) named
    | none =>
      cases plain : Numeral.ofText? text.toList with
      | some numeral =>
        rw [BitReading.ofText_of_numeral plain] at of_kind ⊢
        cases numeral <;> cases of_kind
        · exact congrArg (Option.map _) (Numeral.ofText?_eq_hex_iff.1 plain)
        · exact congrArg (Option.map _) (Numeral.ofText?_eq_dec_iff.1 plain)
      | none =>
        have unread : BitReading.ofText text = .plain .other := by
          simp only [BitReading.ofText, BitOperand.ofText, marked, named, plain]
        rw [unread] at of_kind
        exact absurd of_kind (by simp [BitReading.kind?])

/-- **A text passes the test of its own kind only.** -/
theorem passesOwn (text : String) :
    PassesOwn (fun kind : BitKind => kind.read? text) (BitReading.ofText text)
      (BitReading.ofText text).kind? :=
  .of_kind? (fun _ _ => ofText_of_read?) (fun _ => read?_ofText)

end BitKind

end Mcs51
