/-
  Mcs51.Proofs.AddressCells — the cells that hold an address or a distance.

  The address of a label is written in binary, with zeros in front up to a width, and the cells of a
  jump or call are cut out of the digits from the left.  The cell of a branch holds a distance,
  whose bits are turned over if it is below zero.  Here all of these cells are said by arithmetic,
  and the address is read off its text again.

  Main definitions:
    * `Digits.upper`, `Digits.lower` : the first digits of an address and the others, as numbers;
    * `distanceCell` : the cell of a distance, without bits.

  Main statements:
    * `absoluteCells_eq`, `longCells_eq`, `offsetCell_eq` : the cells by arithmetic;
    * `Assembler.find?_of_addressText` : a look-up of the text is a look-up of the address.
-/
import Mcs51.Proofs.Layout

namespace Mcs51

/-! ## §1. Digits of an address. -/

namespace Digits

/-- The first `front` digits of a number that is written in at least `width` bits. -/
def upper (front width n : Nat) : Nat :=
  n / 2 ^ (max width n.size - front)

/-- The digits of the number behind the first `front` ones. -/
def lower (front width n : Nat) : Nat :=
  n % 2 ^ (max width n.size - front)

/-- A number that does not fit into a width is written in its own bits. -/
theorem length_padded_bits {width : Nat} (wide : 0 < width) (n : Nat) :
    (padded 2 width (n : Int)).length = max width n.size := by
  by_cases small : n < 2 ^ width
  · rw [length_padded (by omega) wide small, Nat.max_eq_left (Nat.size_le.2 small)]
  · have large : width < n.size := Nat.lt_size.2 (by omega)
    obtain ⟨k, size_eq⟩ : ∃ k, n.size = k + 1 := ⟨n.size - 1, by omega⟩
    have below : n < 2 ^ (k + 1) := by
      rw [← size_eq]
      exact Nat.lt_size_self n
    have above : 2 ^ k ≤ n := Nat.lt_size.1 (by omega)
    rw [Nat.max_eq_right (by omega), size_eq]
    exact length_padded_of_le (by omega) (by omega) above below

/-- The parts of a written number are quotient and remainder. -/
theorem signedValue_cut {width : Nat} (wide : 0 < width) (front n : Nat) :
    signedValue 2 ((padded 2 width (n : Int)).take front) = (upper front width n : Int) ∧
      signedValue 2 ((padded 2 width (n : Int)).drop front) = (lower front width n : Int) := by
  have fields := signedValue_fields (show 1 < 2 by omega) (show 2 ≤ 16 by omega) width n front
  rwa [length_padded_bits wide] at fields

section Width

variable {width n : Nat}

/-- A number that fits is cut at the same place as all others that do. -/
theorem cut_of_lt (front : Nat) (small : n < 2 ^ width) :
    upper front width n = n / 2 ^ (width - front) ∧
      lower front width n = n % 2 ^ (width - front) := by
  have size_le : n.size ≤ width := Nat.size_le.2 small
  unfold upper lower
  rw [Nat.max_eq_left size_le]
  exact ⟨rfl, rfl⟩

/-- A longer number is cut further to the left than it should be. -/
theorem cut_of_le (front : Nat) (large : 2 ^ width ≤ n) :
    upper front width n = n / 2 ^ (n.size - front) ∧
      lower front width n = n % 2 ^ (n.size - front) := by
  have size_lt : width < n.size := Nat.lt_size.2 large
  unfold upper lower
  rw [Nat.max_eq_right (by omega)]
  exact ⟨rfl, rfl⟩

end Width

/-- **Reading a written number gives the number**, below zero too. -/
theorem signedValue_padded {base : Nat} (big : 1 < base) (small : base ≤ 16) (width : Nat)
    (n : Int) :
    signedValue base (padded base width n) = n := by
  by_cases below : n < 0
  · unfold padded
    rw [if_pos below]
    show -((value base (zeroFill (width - 1) (Nat.toDigits base n.natAbs)) : Nat) : Int) = n
    rw [value_zeroFill, value_toDigits big small]
    omega
  · obtain ⟨m, rfl⟩ := Int.eq_ofNat_of_zero_le (show 0 ≤ n by omega)
    have plain : ∀ c ∈ padded base width (m : Int), isHex c = true :=
      fun c member => isHex_of_mem_padded big small member
    rw [signedValue_of_isHex plain, value_padded big small]

end Digits

/-! ## §2. Cells that are cut out of an address. -/

/-- Five digits that stand for the code of an operation. -/
structure Selects (selector : List Char) (code : Nat) : Prop where
  length_eq : selector.length = 5
  digits : ∀ c ∈ selector, Digits.isHex c = true
  value_eq : Digits.value 2 selector = code

theorem selects_jump : Selects jumpSelector 1 := ⟨rfl, List.all_eq_true.1 rfl, rfl⟩

theorem selects_call : Selects callSelector 17 := ⟨rfl, List.all_eq_true.1 rfl, rfl⟩

/-- **A jump or call inside a block**: the first three digits of the address stand above the code of
the operation, and the second cell takes the rest. -/
theorem absoluteCells_eq {selector : List Char} {code : Nat} (selects : Selects selector code)
    (n : Nat) :
    absoluteCells selector n =
      [((32 * Digits.upper 3 11 n + code : Nat) : Int), (Digits.lower 3 11 n : Int)] := by
  obtain ⟨front, back⟩ := Digits.signedValue_cut (show 0 < 11 by omega) 3 n
  have plain : ∀ c ∈ (Digits.padded 2 11 (n : Int)).take 3, Digits.isHex c = true :=
    fun c member => Digits.isHex_of_mem_padded (by omega) (by omega) (List.mem_of_mem_take member)
  have joined : ∀ c ∈ (Digits.padded 2 11 (n : Int)).take 3 ++ selector, Digits.isHex c = true := by
    intro c member
    rcases List.mem_append.1 member with digit | mark
    · exact plain c digit
    · exact selects.digits c mark
  rw [Digits.signedValue_of_isHex plain] at front
  have upper : Digits.value 2 ((Digits.padded 2 11 (n : Int)).take 3) = Digits.upper 3 11 n :=
    Int.ofNat_inj.1 front
  have first : Digits.signedValue 2 ((Digits.padded 2 11 (n : Int)).take 3 ++ selector) =
      ((32 * Digits.upper 3 11 n + code : Nat) : Int) := by
    rw [Digits.signedValue_of_isHex joined, Digits.value_append, upper, selects.length_eq,
      selects.value_eq, Nat.mul_comm]
    rfl
  show [_, _] = [_, _]
  rw [first, back]

/-- **A long jump or call**: the second cell takes eight digits of the address, and the third the
rest. -/
theorem longCells_eq (opcode : Int) (n : Nat) :
    longCells opcode n = [opcode, (Digits.upper 8 16 n : Int), (Digits.lower 8 16 n : Int)] := by
  obtain ⟨front, back⟩ := Digits.signedValue_cut (show 0 < 16 by omega) 8 n
  show [opcode, _, _] = _
  rw [front, back]

/-! ## §3. The cell of a distance. -/

/-- **The cell of a distance.**  A distance below zero is made a byte by adding 256.  One that is
too far down for a byte gets 512 more for every 256, since only the last eight bits are turned
over. -/
def distanceCell (distance : Int) : Int :=
  if 0 ≤ distance then distance else distance + 256 + 512 * (-distance / 256)

/-- Turning the last eight bits over takes them away from 255. -/
theorem xor_lastByte (n : Nat) : n ^^^ 0xFF = 256 * (n / 256) + (255 - n % 256) := by
  have low : ∀ byte < 256, byte ^^^ 255 = 255 - byte := by decide +kernel
  have last : (n ^^^ 0xFF) % 2 ^ 8 = 255 - n % 256 := by
    rw [Nat.xor_mod_two_pow]
    exact low (n % 256) (Nat.mod_lt n (by decide))
  have front : (n ^^^ 0xFF) / 2 ^ 8 = n / 256 := by
    rw [Nat.xor_div_two_pow]
    exact Nat.xor_zero (n / 256)
  omega

theorem offsetCell_eq (distance : Int) : offsetCell distance = distanceCell distance := by
  unfold offsetCell distanceCell
  by_cases back : 0 ≤ distance
  · rw [if_pos back, if_pos back]
  · rw [if_neg back, if_neg back, xor_lastByte]
    omega

/-! ## §4. Looking up an address. -/

namespace Assembler

variable {s : Assembler} {label : String}

/-- The text of an address is looked up without a change to the state. -/
theorem addressText_of_find? {address : Int} (found : s.labels.find? label = some address)
    (width : Nat) :
    addressText label width s = .ok (String.ofList (Digits.padded 2 width address)) s := by
  have got : (get : AssemblerM Assembler) s = .ok s s := rfl
  unfold addressText
  rw [bind_of_ok got, found]
  rfl

theorem addressText_of_absent (absent : s.labels.find? label = none) (width : Nat) :
    addressText label width s = .error (.reported (.undefinedLabel label)) s := by
  have got : (get : AssemblerM Assembler) s = .ok s s := rfl
  unfold addressText
  rw [bind_of_ok got, absent]
  rfl

/-- **The text of an address, in whatever width, is a text that the address can be read off.**
Otherwise the label has none. -/
theorem find?_of_addressText (label : String) (width : Nat) (s : Assembler) :
    (∀ text t, addressText label width s = .ok text t →
      s.labels.find? label = some (Digits.signedValue 2 text.toList) ∧ t = s) ∧
    ∀ stop t, addressText label width s = .error stop t →
      s.labels.find? label = none ∧ stop = .reported (.undefinedLabel label) ∧ t = s := by
  cases found : s.labels.find? label with
  | none =>
    rw [addressText_of_absent found]
    constructor
    · intro text t written
      exact absurd written (by simp)
    · intro stop t stopped
      obtain ⟨rfl, rfl⟩ := EStateM.Result.error.inj stopped
      exact ⟨rfl, rfl, rfl⟩
  | some address =>
    rw [addressText_of_find? found]
    constructor
    · intro text t written
      obtain ⟨rfl, rfl⟩ := EStateM.Result.ok.inj written
      rw [String.toList_ofList, Digits.signedValue_padded (by omega) (by omega)]
      exact ⟨rfl, rfl⟩
    · intro stop t stopped
      exact absurd stopped (by simp)

end Assembler

end Mcs51
