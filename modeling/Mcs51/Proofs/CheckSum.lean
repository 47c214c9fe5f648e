/-
  Mcs51.Proofs.CheckSum — the check sum of a record.

  The check sum is computed from the text of a record, two characters at a time.  As long as all
  parts of the record fit into their widths, the text consists of the record's bytes in two digits
  each, so the pairs are those bytes.  The check sum is what the bytes lack to a multiple of 256.
  If they lack nothing, it is 256 and takes three digits.

  Main definitions:
    * `HexRecord.bytes` : the bytes in front of the check sum;
    * `HexRecord.missing` : the number that is written as check sum.

  Main statements:
    * `HexRecord.digits_eq` : the text of a record is made up of its bytes;
    * `HexRecord.pairSum_bytes` : the pairs of the text add up to the bytes;
    * `check_sum_completes` : what the printed check sums are.
-/
import Mcs51.Proofs.HexListing

namespace Mcs51

namespace HexRecord

/-! ## §1. The bytes of a record. -/

/-- **The bytes that stand in front of the check sum**: the number of cells, the two halves of the
address, the type and the cells. -/
def bytes (record : HexRecord) : List Int :=
  [(record.cells.length : Int), record.address / 256, record.address % 256, 0] ++ record.cells

/-- The number that is written as check sum. -/
def missing (record : HexRecord) : Int :=
  256 - record.bytes.sum % 256

theorem length_bytes (record : HexRecord) : record.bytes.length = 4 + record.cells.length := by
  unfold bytes
  rw [List.length_append]
  rfl

variable {record : HexRecord}

theorem Printable.mem_bytes (printable : record.Printable) :
    ∀ byte ∈ record.bytes, 0 ≤ byte ∧ byte ≤ 255 := by
  obtain ⟨length_lt, nonneg, address_lt, cells⟩ := printable
  intro byte member
  unfold HexRecord.bytes at member
  simp only [List.mem_append, List.mem_cons, List.not_mem_nil, or_false] at member
  rcases member with (rfl | rfl | rfl | rfl) | cell
  · omega
  · omega
  · omega
  · omega
  · exact cells byte cell

/-- **The text of a record is made up of its bytes**, in two digits each. -/
theorem digits_eq (printable : record.Printable) :
    record.digits = record.bytes.flatMap (Digits.padded 16 2) := by
  obtain ⟨address, address_eq⟩ := Int.eq_ofNat_of_zero_le printable.address_nonneg
  have address_lt := printable.address_lt
  -- the four digits of the address are the two digits of each half
  have halves := Digits.padded_eq_append (show 1 < 16 by omega) (show 16 ≤ 16 by omega)
    (show 0 < 2 by omega) (show 0 < 2 by omega) (show address < 16 ^ (2 + 2) by omega)
  have upper : ((address / 16 ^ 2 : Nat) : Int) = record.address / 256 := by omega
  have lower : ((address % 16 ^ 2 : Nat) : Int) = record.address % 256 := by omega
  rw [upper, lower, ← address_eq] at halves
  unfold digits bytes
  rw [List.flatMap_append, halves]
  simp [List.flatMap_cons]

theorem length_digits (printable : record.Printable) :
    record.digits.length = 2 * (4 + record.cells.length) := by
  have two : ∀ byte ∈ record.bytes, (Digits.padded 16 2 byte).length = 2 := by
    intro byte member
    obtain ⟨nonneg, le⟩ := printable.mem_bytes byte member
    obtain ⟨n, rfl⟩ := Int.eq_ofNat_of_zero_le nonneg
    exact Digits.length_padded (by omega) (by omega) (by omega)
  rw [digits_eq printable, List.length_flatMap, List.map_congr_left two, List.map_const',
    List.sum_replicate, length_bytes, smul_eq_mul, Nat.mul_comm]

/-- **The pairs of the text add up to the bytes.** -/
theorem pairSum_bytes {bytes : List Int} (small : ∀ byte ∈ bytes, 0 ≤ byte ∧ byte ≤ 255) :
    pairSum (bytes.flatMap (Digits.padded 16 2)) = .ok bytes.sum := by
  induction bytes with
  | nil => rfl
  | cons byte rest ih =>
    have later := ih fun other member => small other (List.mem_cons_of_mem byte member)
    obtain ⟨nonneg, le⟩ := small byte List.mem_cons_self
    obtain ⟨n, rfl⟩ := Int.eq_ofNat_of_zero_le nonneg
    have length_eq : (Digits.padded 16 2 (n : Int)).length = 2 :=
      Digits.length_padded (by omega) (by omega) (by omega)
    obtain ⟨upper, lower, two⟩ := List.length_eq_two.1 length_eq
    have hex : ∀ c ∈ [upper, lower], Digits.isHex c = true := by
      intro c member
      rw [← two] at member
      exact Digits.isHex_of_mem_padded (by omega) (by omega) member
    have worth : Digits.value 16 [upper, lower] = n := by
      rw [← two]
      exact Digits.value_padded (by omega) (by omega) 2 n
    have first : pairSum.pairValue [upper, lower] = _ :=
      pairValue_of_isHex (hex upper (by simp)) (by simp [hex lower (by simp)])
    rw [worth] at first
    rw [List.flatMap_cons, two, List.sum_cons]
    show pairSum (upper :: lower :: rest.flatMap (Digits.padded 16 2)) = _
    rw [pairSum, first, later]
    rfl

/-! ## §2. The line of a record. -/

/-- The line of a record whose parts fit. -/
def printed (record : HexRecord) : List Char :=
  ':' :: (record.digits ++ Digits.padded 16 2 record.missing)

theorem line_of_printable (printable : record.Printable) :
    record.line = .ok (String.ofList record.printed) := by
  have check : checkSum record.digits = .ok record.missing := by
    unfold checkSum
    rw [digits_eq printable, pairSum_bytes printable.mem_bytes]
    rfl
  unfold line
  rw [check]
  rfl

theorem missing_bounds (record : HexRecord) :
    1 ≤ record.missing ∧ record.missing ≤ 256 ∧ (record.bytes.sum + record.missing) % 256 = 0 := by
  unfold missing
  omega

/-- The check sum takes two digits, unless nothing is missing. -/
theorem padded_missing (record : HexRecord) :
    ((Digits.padded 16 2 record.missing).length = 2 ↔ record.bytes.sum % 256 ≠ 0) ∧
      (record.bytes.sum % 256 = 0 → Digits.padded 16 2 record.missing = ['1', '0', '0']) := by
  obtain ⟨positive, _, _⟩ := record.missing_bounds
  obtain ⟨n, missing_eq⟩ := Int.eq_ofNat_of_zero_le (show 0 ≤ record.missing by omega)
  have lacking_iff : n < 16 ^ 2 ↔ record.bytes.sum % 256 ≠ 0 := by
    unfold missing at missing_eq
    omega
  constructor
  · rw [missing_eq, Digits.length_padded_iff (by omega) (by omega)]
    exact lacking_iff
  · intro complete
    have all : record.missing = 256 := by
      unfold missing
      omega
    rw [all]
    decide

end HexRecord

/-! ## §3. Listings. -/

/-- The lines of a listing of records that fit. -/
theorem Listing.lines_ofRecords {records : List HexRecord}
    (printable : ∀ record ∈ records, record.Printable) :
    (ofRecords records).lines =
      records.map (fun record => String.ofList record.printed) ++ [HexRecord.lastLine] := by
  induction records with
  | nil => rfl
  | cons record rest ih =>
    have has_line := HexRecord.line_of_printable (printable record List.mem_cons_self)
    have others := ih fun other member => printable other (List.mem_cons_of_mem record member)
    unfold ofRecords
    rw [has_line]
    show _ :: (ofRecords rest).lines = _
    rw [others]
    rfl

/-- **The check sum completes a record to a multiple of 256.**  Every line of a listing but the last
is the line of a record: reading it in bytes gives the bytes of the record, and what is left is the
check sum.  Together they add up to a multiple of 256, and the check sum is between 1 and 256.  It
takes two digits exactly if the bytes alone do not add up to such a multiple; otherwise it is
written as 100. -/
theorem check_sum_completes (memory : Memory) (addressable : memory.cells.size ≤ 65536)
    (bytes : ∀ cell ∈ memory.cells, cell = Memory.erased ∨ (0 ≤ cell ∧ cell ≤ 255)) :
    memory.listing.crash = none ∧
    ∃ lines, memory.listing.lines = lines ++ [HexRecord.lastLine] ∧
      ∀ line ∈ lines, ∃ record check,
        HexRecord.read? line.toList = some record ∧
        HexRecord.readBytes? (4 + record.cells.length) (line.toList.drop 1) =
          some (record.bytes, check) ∧
        check.all Digits.isHex = true ∧
        (record.bytes.sum + Digits.value 16 check) % 256 = 0 ∧
        1 ≤ Digits.value 16 check ∧ Digits.value 16 check ≤ 256 ∧
        (line.length = 11 + 2 * record.cells.length ↔ record.bytes.sum % 256 ≠ 0) ∧
        (record.bytes.sum % 256 = 0 → check = ['1', '0', '0']) := by
  have lists := HexRecord.lists_collect 0 memory.cells.toList
  have printable : ∀ record ∈ HexRecord.collect 0 [] memory.cells.toList, record.Printable :=
    fun record member => lists.printable (by simpa using addressable) (by simpa using bytes) member
  refine ⟨(Listing.readLines?_ofRecords printable).1, _, Listing.lines_ofRecords printable, ?_⟩
  intro line member
  obtain ⟨record, among, rfl⟩ := List.mem_map.1 member
  have fits := printable record among
  obtain ⟨positive, bounded, completes⟩ := record.missing_bounds
  obtain ⟨two_iff, three⟩ := record.padded_missing
  obtain ⟨n, missing_eq⟩ := Int.eq_ofNat_of_zero_le (show 0 ≤ record.missing by omega)
  have worth : (Digits.value 16 (Digits.padded 16 2 record.missing) : Int) = record.missing := by
    rw [missing_eq, Digits.value_padded (by omega) (by omega)]
  have reads := HexRecord.readBytes?_padded fits.mem_bytes (Digits.padded 16 2 record.missing)
  rw [record.length_bytes, ← HexRecord.digits_eq fits] at reads
  refine ⟨record, Digits.padded 16 2 record.missing, ?_, ?_, ?_, ?_, ?_, ?_, ?_, three⟩
  · rw [String.toList_ofList]
    exact HexRecord.read?_digits fits _
  · rw [String.toList_ofList]
    exact reads
  · rw [List.all_eq_true, missing_eq]
    exact fun c digit => Digits.isHex_of_mem_padded (by omega) (by omega) digit
  · rw [worth]
    exact completes
  · omega
  · omega
  · rw [← two_iff, String.length_ofList]
    unfold HexRecord.printed
    rw [List.length_cons, List.length_append, HexRecord.length_digits fits]
    omega

/-- A memory with two records.  The bytes of the first add up to 256. -/
def roundMemory : Memory :=
  ⟨#[0xFF, -1, 0x01, -1]⟩

/-- The line of the first record is one character longer than that of the second. -/
theorem check_sum_completes_round :
    roundMemory.listing.lines = [":01000000ff100", ":0100020001fc", ":00000001FF"] ∧
      ∃ record check, HexRecord.read? ":01000000ff100".toList = some record ∧
        (record.bytes.sum + Digits.value 16 check) % 256 = 0 ∧
        record.bytes.sum % 256 = 0 ∧ check = ['1', '0', '0'] := by
  have printed : roundMemory.listing.lines =
      [":01000000ff100", ":0100020001fc"] ++ [":00000001FF"] := by
    decide +kernel
  obtain ⟨_, lines, lines_eq, sums⟩ := check_sum_completes roundMemory (by decide) (by decide)
  obtain rfl : lines = [":01000000ff100", ":0100020001fc"] :=
    (List.append_inj_left' (printed.symm.trans lines_eq) rfl).symm
  obtain ⟨record, check, read, _, _, completes, _, _, _, three⟩ :=
    sums ":01000000ff100" List.mem_cons_self
  have record_eq : HexRecord.read? ":01000000ff100".toList = some ⟨0, [255]⟩ := by decide +kernel
  obtain rfl := Option.some.inj (record_eq.symm.trans read)
  exact ⟨printed, _, check, read, completes, by decide, three (by decide)⟩

end Mcs51
