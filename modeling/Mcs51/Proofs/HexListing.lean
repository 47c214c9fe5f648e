/-
  Mcs51.Proofs.HexListing — a listing tells what the memory holds.

  Records are collected in one pass, with the cells of the record under way held back until it is
  full or the next cell is erased.  So a record is either full or ends before an erased cell, and a
  run of programmed cells is cut into full records from its beginning on.  A run that reaches the
  end of the memory has no erased cell behind it: its last record is never complete.

  Main definitions:
    * `HexRecord.FinalRun`, `HexRecord.Unlisted` : the cells that are not listed;
    * `HexRecord.Lists` : records that list cells in order;
    * `HexRecord.read?`, `Listing.read?` : reading lines by fixed widths.

  Main statements:
    * `HexRecord.lists_collect` : the collected records list all cells but those;
    * `Listing.read?_text` : reading a printed listing gives its records;
    * `read_listing` : both together, for every memory of bytes.
-/
import Mcs51.HexRecord
import Mcs51.Proofs.ReadBack

namespace Mcs51

namespace HexRecord

/-! ## §1. The run at the end. -/

/-- The programmed cells from `first` on reach to the end, and are preceded by none. -/
structure FinalRun (cells : List Int) (first : Nat) : Prop where
  inside : first < cells.length
  programmed : ∀ i, first ≤ i → cells[i]? ≠ some Memory.erased
  preceded : ∀ i, i + 1 = first → cells[i]? = some Memory.erased

/-- The cells of the run at the end that come after its full records; the record that ends with the
last cell counts as not full. -/
def Unlisted (cells : List Int) (i : Nat) : Prop :=
  ∃ first, FinalRun cells first ∧
    first + maxCells * ((cells.length - 1 - first) / maxCells) ≤ i

/-- An erased cell in front only moves the run. -/
theorem finalRun_cons_erased {rest : List Int} {first : Nat} :
    FinalRun (Memory.erased :: rest) first ↔ ∃ later, first = later + 1 ∧ FinalRun rest later := by
  constructor
  · rintro ⟨inside, programmed, preceded⟩
    cases first with
    | zero => exact absurd rfl (programmed 0 (Nat.zero_le 0))
    | succ later =>
      refine ⟨later, rfl, ?_, ?_, ?_⟩
      · simpa using inside
      · intro i behind
        simpa using programmed (i + 1) (by omega)
      · intro i before
        simpa using preceded (i + 1) (by omega)
  · rintro ⟨later, rfl, inside, programmed, preceded⟩
    refine ⟨by simpa using inside, ?_, ?_⟩
    · intro i behind
      cases i with
      | zero => omega
      | succ j => simpa using programmed j (by omega)
    · intro i before
      cases i with
      | zero => rfl
      | succ j => simpa using preceded j (by omega)

section Append

variable {run ahead : List Int}

theorem getElem?_run_ne_erased (programmed : ∀ cell ∈ run, cell ≠ Memory.erased) {i : Nat}
    (inside : i < run.length) : (run ++ ahead)[i]? ≠ some Memory.erased := by
  rw [List.getElem?_append_left inside]
  exact fun found => programmed _ (List.mem_of_getElem? found) rfl

theorem getElem?_behind (i : Nat) : (run ++ ahead)[run.length + i]? = ahead[i]? := by
  rw [List.getElem?_append_right (by omega), Nat.add_sub_cancel_left]

/-- A run that comprises all cells ahead takes in the programmed cells before them; any other run
only moves. -/
theorem FinalRun.append (programmed : ∀ cell ∈ run, cell ≠ Memory.erased) {later : Nat}
    (final : FinalRun ahead later) :
    FinalRun (run ++ ahead) (if later = 0 then 0 else run.length + later) := by
  obtain ⟨inside, behind, preceded⟩ := final
  split
  next whole =>
    subst whole
    refine ⟨by rw [List.length_append]; omega, ?_, by omega⟩
    intro i _
    by_cases early : i < run.length
    · exact getElem?_run_ne_erased programmed early
    · obtain ⟨j, rfl⟩ : ∃ j, i = run.length + j := ⟨i - run.length, by omega⟩
      rw [getElem?_behind]
      exact behind j (Nat.zero_le j)
  next further =>
    refine ⟨by rw [List.length_append]; omega, ?_, ?_⟩
    · intro i h
      obtain ⟨j, rfl⟩ : ∃ j, i = run.length + j := ⟨i - run.length, by omega⟩
      rw [getElem?_behind]
      exact behind j (by omega)
    · intro i before
      obtain ⟨j, rfl⟩ : ∃ j, i = run.length + j := ⟨i - run.length, by omega⟩
      rw [getElem?_behind]
      exact preceded j (by omega)

/-- There are no other runs. -/
theorem FinalRun.of_append (programmed : ∀ cell ∈ run, cell ≠ Memory.erased) (nonempty : ahead ≠ [])
    {first : Nat} (final : FinalRun (run ++ ahead) first) :
    ∃ later, FinalRun ahead later ∧ first = if later = 0 then 0 else run.length + later := by
  have room : 0 < ahead.length := List.length_pos_iff.2 nonempty
  have inside := final.inside
  rw [List.length_append] at inside
  -- nothing before the run is erased, so a run that begins there begins with the first cell
  have at_once : first ≤ run.length → first = 0 := by
    intro early
    cases first with
    | zero => rfl
    | succ before =>
      exact absurd (final.preceded before rfl) (getElem?_run_ne_erased programmed (by omega))
  by_cases joined : first < run.length
  · refine ⟨0, ⟨room, ?_, by omega⟩, at_once (by omega)⟩
    intro i _
    rw [← getElem?_behind]
    exact final.programmed _ (by omega)
  · obtain ⟨later, rfl⟩ : ∃ later, first = run.length + later := ⟨first - run.length, by omega⟩
    refine ⟨later, ⟨by omega, ?_, ?_⟩, ?_⟩
    · intro i behind
      rw [← getElem?_behind]
      exact final.programmed _ (by omega)
    · intro i before
      rw [← getElem?_behind]
      exact final.preceded _ (by omega)
    · split
      next whole => exact at_once (by omega)
      · rfl

end Append

theorem unlisted_cons_erased {rest : List Int} {i : Nat} :
    Unlisted (Memory.erased :: rest) (i + 1) ↔ Unlisted rest i := by
  unfold Unlisted maxCells
  constructor
  · rintro ⟨first, whole, late⟩
    obtain ⟨later, rfl, final⟩ := finalRun_cons_erased.1 whole
    have inside := final.inside
    rw [List.length_cons] at late
    exact ⟨later, final, by omega⟩
  · rintro ⟨later, final, late⟩
    have inside := final.inside
    refine ⟨later + 1, finalRun_cons_erased.2 ⟨later, rfl, final⟩, ?_⟩
    rw [List.length_cons]
    omega

/-- Cutting off a complete record changes nothing for the cells behind it: the run at the end begins
there too, or it begins a full record earlier. -/
theorem unlisted_append {run ahead : List Int} (programmed : ∀ cell ∈ run, cell ≠ Memory.erased)
    (nonempty : ahead ≠ [])
    (complete : run.length = maxCells ∨ ahead[0]? = some Memory.erased) {i : Nat} :
    Unlisted (run ++ ahead) i ↔ run.length ≤ i ∧ Unlisted ahead (i - run.length) := by
  have full : FinalRun ahead 0 → run.length = maxCells := by
    intro final
    rcases complete with full | erased
    · exact full
    · exact absurd erased (final.programmed 0 (Nat.le_refl 0))
  unfold Unlisted
  unfold maxCells at full ⊢
  rw [List.length_append]
  constructor
  · rintro ⟨first, whole, late⟩
    obtain ⟨later, final, rfl⟩ := whole.of_append programmed nonempty
    have inside := final.inside
    split at late
    next atOnce =>
      subst atOnce
      have := full final
      exact ⟨by omega, 0, final, by omega⟩
    · exact ⟨by omega, later, final, by omega⟩
  · rintro ⟨behind, later, final, late⟩
    have inside := final.inside
    refine ⟨_, final.append programmed, ?_⟩
    split
    next atOnce =>
      subst atOnce
      have := full final
      omega
    · omega

/-! ## §2. One record. -/

theorem collect_erased (position : Nat) (rest : List Int) :
    collect position [] (Memory.erased :: rest) = collect (position + 1) [] rest := by
  cases rest with
  | nil => rfl
  | cons next ahead => simp [collect, collected, isComplete, maxCells]

/-- A cell that is followed by another programmed one is held back, unless it fills the record. -/
theorem collect_held {position : Nat} {pending ahead : List Int} {cell next : Int}
    (programmed : cell ≠ Memory.erased) (goes_on : next ≠ Memory.erased)
    (room : pending.length + 1 < maxCells) :
    collect position pending (cell :: next :: ahead) =
      collect (position + 1) (pending ++ [cell]) (next :: ahead) := by
  have waits : isComplete (pending ++ [cell]) next = false := by
    unfold isComplete
    rw [List.length_append, List.length_singleton, decide_eq_false (by omega),
      beq_eq_false_iff_ne.2 goes_on]
    rfl
  rw [collect]
  unfold collected
  rw [if_neg programmed]
  simp only [waits, Bool.false_eq_true, if_false]

/-- **One record**: cells are held back until the record is full or the next cell is erased. -/
theorem collect_run {position : Nat} {pending run ahead : List Int} {next : Int}
    (programmed : ∀ cell ∈ run, cell ≠ Memory.erased) (nonempty : run ≠ [])
    (room : pending.length + run.length ≤ maxCells)
    (complete : pending.length + run.length = maxCells ∨ next = Memory.erased) :
    collect position pending (run ++ next :: ahead) =
      ⟨(position : Int) - pending.length, pending ++ run⟩
        :: collect (position + run.length) [] (next :: ahead) := by
  induction run generalizing position pending with
  | nil => exact absurd rfl nonempty
  | cons cell rest ih =>
    have first : cell ≠ Memory.erased := programmed cell List.mem_cons_self
    rw [List.length_cons] at room complete
    cases rest with
    | nil =>
      -- the last cell completes the record
      rw [List.length_nil] at room complete
      have completes : isComplete (pending ++ [cell]) next = true := by
        unfold isComplete
        rcases complete with full | erased
        · rw [List.length_append, List.length_singleton, decide_eq_true (by omega), Bool.or_true]
        · simp [erased]
      show collect position pending (cell :: next :: ahead) = _
      rw [collect]
      unfold collected
      rw [if_neg first]
      simp only [completes, if_true, List.length_append, List.cons.injEq, HexRecord.mk.injEq,
        and_true, List.length_cons, List.length_nil]
      omega
    | cons second more =>
      -- any other is held back, and the address counts from the first
      have goes_on : second ≠ Memory.erased := programmed second (by simp)
      rw [List.length_cons] at room complete
      have later : collect (position + 1) (pending ++ [cell]) (second :: more ++ next :: ahead) =
          _ := ih
        (fun other member => programmed other (List.mem_cons_of_mem cell member)) (by simp)
        (by simp only [List.length_append, List.length_cons, List.length_nil]; omega)
        (by simp only [List.length_append, List.length_cons, List.length_nil]; omega)
      show collect position pending (cell :: second :: (more ++ next :: ahead)) = _
      rw [collect_held first goes_on (by omega)]
      refine Eq.trans later ?_
      simp only [List.length_append, List.length_cons, List.length_nil, List.append_assoc,
        List.singleton_append, List.cons.injEq, HexRecord.mk.injEq, and_true]
      refine ⟨by omega, ?_⟩
      congr 1
      omega

/-- A record that the end of the cells leaves incomplete is lost. -/
theorem collect_end {position : Nat} {pending run : List Int}
    (programmed : ∀ cell ∈ run, cell ≠ Memory.erased)
    (room : pending.length + run.length ≤ maxCells) : collect position pending run = [] := by
  induction run generalizing position pending with
  | nil => rfl
  | cons cell rest ih =>
    cases rest with
    | nil => rfl
    | cons second more =>
      simp only [List.length_cons] at room
      rw [collect_held (programmed cell List.mem_cons_self) (programmed second (by simp))
        (by omega)]
      refine ih (fun other member => programmed other (List.mem_cons_of_mem cell member)) ?_
      simp only [List.length_append, List.length_cons, List.length_nil]
      omega

/-- Cells begin with a run of programmed ones that ends at the bound, at the end or at an erased
cell. -/
theorem exists_run (bound : Nat) (cells : List Int) :
    ∃ run ahead, cells = run ++ ahead ∧ (∀ cell ∈ run, cell ≠ Memory.erased) ∧
      run.length ≤ bound ∧
      (run.length = bound ∨ ahead = [] ∨ ahead[0]? = some Memory.erased) := by
  induction bound generalizing cells with
  | zero => exact ⟨[], cells, rfl, by simp, Nat.le_refl 0, Or.inl rfl⟩
  | succ bound ih =>
    cases cells with
    | nil => exact ⟨[], [], rfl, by simp, Nat.zero_le _, Or.inr (Or.inl rfl)⟩
    | cons cell rest =>
      by_cases erased : cell = Memory.erased
      · exact ⟨[], cell :: rest, rfl, by simp, Nat.zero_le _, Or.inr (Or.inr (by simp [erased]))⟩
      · obtain ⟨run, ahead, rfl, programmed, short, ends⟩ := ih rest
        refine ⟨cell :: run, ahead, rfl, ?_, Nat.succ_le_succ short, ?_⟩
        · intro other member
          rcases List.mem_cons.1 member with rfl | later
          · exact erased
          · exact programmed other later
        · rcases ends with full | done | gap
          · exact Or.inl (congrArg (· + 1) full)
          · exact Or.inr (Or.inl done)
          · exact Or.inr (Or.inr gap)

/-! ## §3. All records. -/

/-- Does the record say that the cell at address `i` holds `cell`? -/
def Holds (record : HexRecord) (i : Nat) (cell : Int) : Prop :=
  ∃ k : Nat, (i : Int) = record.address + k ∧ record.cells[k]? = some cell

/-- Does the record end before the other begins? -/
def Precedes (record later : HexRecord) : Prop :=
  record.address + record.cells.length ≤ later.address

/-- **Records that list cells which begin at a position**: none is empty or too long, each begins
behind the one before it, and together they hold all programmed cells but the unlisted ones. -/
structure Lists (position : Nat) (cells : List Int) (records : List HexRecord) : Prop where
  sized : ∀ record ∈ records, 1 ≤ record.cells.length ∧ record.cells.length ≤ maxCells
  behind : ∀ record ∈ records, (position : Int) ≤ record.address
  ordered : records.Pairwise Precedes
  holds : ∀ i cell, (∃ record ∈ records, record.Holds (position + i) cell) ↔
    cells[i]? = some cell ∧ cell ≠ Memory.erased ∧ ¬Unlisted cells i

/-- **Step**: an erased cell. -/
theorem lists_erased {position : Nat} {rest : List Int} {records : List HexRecord}
    (lists : Lists (position + 1) rest records) :
    Lists position (Memory.erased :: rest) records := by
  refine ⟨lists.sized, ?_, lists.ordered, ?_⟩
  · intro record member
    have := lists.behind record member
    omega
  · intro i cell
    cases i with
    | zero =>
      -- records begin behind the erased cell
      refine ⟨?_, ?_⟩
      · rintro ⟨record, member, k, at_address, _⟩
        have := lists.behind record member
        omega
      · rintro ⟨found, programmed, _⟩
        exact absurd (Option.some.inj found).symm programmed
    | succ j =>
      rw [List.getElem?_cons_succ, unlisted_cons_erased, ← lists.holds j cell,
          Nat.add_right_comm position 1 j]
      rfl

/-- **Step**: a complete record. -/
theorem lists_record {position : Nat} {run ahead : List Int} {records : List HexRecord}
    (programmed : ∀ cell ∈ run, cell ≠ Memory.erased)
    (sized : 1 ≤ run.length ∧ run.length ≤ maxCells) (nonempty : ahead ≠ [])
    (complete : run.length = maxCells ∨ ahead[0]? = some Memory.erased)
    (lists : Lists (position + run.length) ahead records) :
    Lists position (run ++ ahead) (⟨position, run⟩ :: records) := by
  refine ⟨?_, ?_, ?_, ?_⟩
  · intro record member
    rcases List.mem_cons.1 member with rfl | later
    · exact sized
    · exact lists.sized record later
  · intro record member
    rcases List.mem_cons.1 member with rfl | later
    · exact Int.le_refl _
    · have := lists.behind record later
      omega
  · refine List.pairwise_cons.2 ⟨?_, lists.ordered⟩
    intro later member
    have := lists.behind later member
    show (position : Int) + run.length ≤ later.address
    omega
  · intro i cell
    have here : (⟨position, run⟩ : HexRecord).Holds (position + i) cell ↔ run[i]? = some cell := by
      refine ⟨?_, fun found => ⟨i, by simp, found⟩⟩
      rintro ⟨k, at_address, found⟩
      obtain rfl : i = k := by
        simp only at at_address
        omega
      exact found
    simp only [List.mem_cons, exists_eq_or_imp, here, unlisted_append programmed nonempty complete]
    by_cases early : i < run.length
    · -- only the first record reaches cells of the run
      have no_other : ¬∃ record ∈ records, record.Holds (position + i) cell := by
        rintro ⟨record, member, k, at_address, _⟩
        have := lists.behind record member
        omega
      rw [List.getElem?_append_left early]
      constructor
      · rintro (found | other)
        · exact ⟨found, programmed cell (List.mem_of_getElem? found), by omega⟩
        · exact absurd other no_other
      · rintro ⟨found, _⟩
        exact Or.inl found
    · -- and only the others reach the cells behind it
      obtain ⟨j, rfl⟩ : ∃ j, i = run.length + j := ⟨i - run.length, by omega⟩
      rw [List.getElem?_append_right (by omega), Nat.add_sub_cancel_left, ← Nat.add_assoc,
          lists.holds j cell, List.getElem?_eq_none (by omega)]
      simp

/-- The last run, if it is shorter than a record, is not listed. -/
theorem lists_end {position : Nat} {run : List Int}
    (programmed : ∀ cell ∈ run, cell ≠ Memory.erased) (short : run.length ≤ maxCells) :
    Lists position run [] := by
  refine ⟨by simp, by simp, List.Pairwise.nil, ?_⟩
  intro i cell
  refine ⟨by simp, ?_⟩
  rintro ⟨found, _, listed⟩
  have inside : i < run.length := by
    obtain ⟨inside, _⟩ := List.getElem?_eq_some_iff.1 found
    exact inside
  -- the run comprises all cells, and none of its records is full
  refine absurd ⟨0, ⟨by omega, ?_, by omega⟩, ?_⟩ listed
  · intro j _ erased
    exact programmed _ (List.mem_of_getElem? erased) rfl
  · unfold maxCells at short ⊢
    omega

/-- **The records of a memory list its cells.** -/
theorem lists_collect (position : Nat) (cells : List Int) :
    Lists position cells (collect position [] cells) := by
  induction length_eq : cells.length using Nat.strongRecOn generalizing position cells with
  | ind n ih =>
    subst length_eq
    -- the cells are cut off record by record, so the induction is on their number
    obtain ⟨run, ahead, rfl, programmed, short, ends⟩ := exists_run maxCells cells
    rw [List.length_append] at ih
    cases ahead with
    | nil =>
      rw [List.append_nil, collect_end programmed (by simpa using short)]
      exact lists_end programmed short
    | cons next rest =>
      have complete : run.length = maxCells ∨ next = Memory.erased := by
        simpa using ends
      by_cases empty : run = []
      · -- nothing is held back, so the next cell is erased
        subst empty
        obtain rfl : next = Memory.erased := by simpa [maxCells] using complete
        rw [List.nil_append, collect_erased]
        exact lists_erased (ih rest.length (by simp) (position + 1) rest rfl)
      · have positive : 0 < run.length := List.length_pos_iff.2 empty
        rw [collect_run programmed empty (by simpa using short) (by simpa using complete)]
        simp only [List.length_nil, Int.natCast_zero, Int.sub_zero, List.nil_append]
        exact lists_record programmed ⟨positive, short⟩ (by simp) (by simpa using complete)
          (ih (next :: rest).length (by omega) (position + run.length) (next :: rest) rfl)

/-! ## §4. Reading a line. -/

/-- Reads a number of a fixed width, and gives what follows it. -/
def readNumber? (width : Nat) (text : List Char) : Option (Nat × List Char) :=
  if width ≤ text.length ∧ (text.take width).all Digits.isHex then
    some (Digits.value 16 (text.take width), text.drop width)
  else none

/-- Reads so many bytes, and gives what follows them. -/
def readBytes? : Nat → List Char → Option (List Int × List Char)
  | 0, text => some ([], text)
  | count + 1, text => do
    let (byte, text) ← readNumber? 2 text
    let (bytes, text) ← readBytes? count text
    return ((byte : Int) :: bytes, text)

/-- Reads the line of a record: the mark, the number of bytes, the address, the type, which is zero,
and the bytes.  What follows is the check sum. -/
def read? : List Char → Option HexRecord
  | ':' :: text => do
    let (count, text) ← readNumber? 2 text
    let (address, text) ← readNumber? 4 text
    let (type, text) ← readNumber? 2 text
    if type = 0 then
      let (bytes, _) ← readBytes? count text
      return ⟨address, bytes⟩
    else none
  | _ => none

/-- Do all parts of the record fit into their widths? -/
structure Printable (record : HexRecord) : Prop where
  length_lt : record.cells.length < 256
  address_nonneg : 0 ≤ record.address
  address_lt : record.address < 65536
  bytes : ∀ cell ∈ record.cells, 0 ≤ cell ∧ cell ≤ 255

/-- Is no part of the record negative? -/
structure Natural (record : HexRecord) : Prop where
  address_nonneg : 0 ≤ record.address
  cells_nonneg : ∀ cell ∈ record.cells, 0 ≤ cell

theorem Printable.natural {record : HexRecord} (printable : record.Printable) : record.Natural :=
  ⟨printable.address_nonneg, fun cell member => (printable.bytes cell member).1⟩

theorem readNumber?_padded {width n : Nat} (wide : 0 < width) (fits : n < 16 ^ width)
    (rest : List Char) :
    readNumber? width (Digits.padded 16 width (n : Int) ++ rest) = some (n, rest) := by
  have length_eq : (Digits.padded 16 width (n : Int)).length = width :=
    Digits.length_padded (by decide) wide fits
  have digits : (Digits.padded 16 width (n : Int)).all Digits.isHex = true :=
    List.all_eq_true.2 fun c member => Digits.isHex_of_mem_padded (by decide) (by decide) member
  unfold readNumber?
  rw [List.take_left' length_eq, List.drop_left' length_eq, digits,
      Digits.value_padded (by decide) (by decide), if_pos ⟨by rw [List.length_append]; omega, rfl⟩]

theorem readBytes?_padded {cells : List Int} (bytes : ∀ cell ∈ cells, 0 ≤ cell ∧ cell ≤ 255)
    (rest : List Char) :
    readBytes? cells.length (cells.flatMap (Digits.padded 16 2) ++ rest) = some (cells, rest) := by
  induction cells with
  | nil => rfl
  | cons cell others ih =>
    obtain ⟨byte, rfl⟩ := Int.eq_ofNat_of_zero_le (bytes cell List.mem_cons_self).1
    have small : byte < 16 ^ 2 := by
      have := (bytes _ List.mem_cons_self).2
      omega
    have first := readNumber?_padded (by decide) small
      (others.flatMap (Digits.padded 16 2) ++ rest)
    have later := ih fun other member => bytes other (List.mem_cons_of_mem _ member)
    rw [List.flatMap_cons, List.append_assoc, List.length_cons]
    simp only [readBytes?, first, later, Option.bind_eq_bind, Option.bind_some, Option.pure_def]

/-- **Reading the digits of a record gives the record**, whatever stands behind them. -/
theorem read?_digits {record : HexRecord} (printable : record.Printable) (rest : List Char) :
    read? (':' :: (record.digits ++ rest)) = some record := by
  obtain ⟨address, cells⟩ := record
  obtain ⟨length_lt, nonneg, address_lt, bytes⟩ := printable
  obtain ⟨address, rfl⟩ := Int.eq_ofNat_of_zero_le nonneg
  simp only at length_lt address_lt bytes
  -- each part is read off in front of those that follow, so they are prepared from the end
  have data := readBytes?_padded bytes rest
  have type := readNumber?_padded (by decide : 0 < 2) (by decide : 0 < 16 ^ 2)
    (cells.flatMap (Digits.padded 16 2) ++ rest)
  have place := readNumber?_padded (by decide : 0 < 4) (by omega : address < 16 ^ 4)
    (Digits.padded 16 2 0 ++ (cells.flatMap (Digits.padded 16 2) ++ rest))
  have count := readNumber?_padded (by decide : 0 < 2) (by omega : cells.length < 16 ^ 2)
    (Digits.padded 16 4 address ++ (Digits.padded 16 2 0
      ++ (cells.flatMap (Digits.padded 16 2) ++ rest)))
  unfold digits
  simp only [List.append_assoc] at count ⊢
  simp only [Int.natCast_zero] at type
  unfold read?
  simp only [count, place, type, data, Option.bind_eq_bind, Option.bind_some, Option.pure_def,
    if_true]

/-- All digits of a record are digits, unless a part of it is negative. -/
theorem isHex_of_mem_digits {record : HexRecord} (positive : record.Natural) {c : Char}
    (member : c ∈ record.digits) : Digits.isHex c = true := by
  have natural : ∀ {width : Nat} {n : Int}, 0 ≤ n → c ∈ Digits.padded 16 width n →
      Digits.isHex c = true := by
    intro width n nonneg digit
    obtain ⟨m, rfl⟩ := Int.eq_ofNat_of_zero_le nonneg
    exact Digits.isHex_of_mem_padded (by decide) (by decide) digit
  unfold digits at member
  simp only [List.mem_append, List.mem_flatMap] at member
  rcases member with ((count | address) | type) | ⟨cell, among, byte⟩
  · exact natural (by omega) count
  · exact natural positive.address_nonneg address
  · exact natural (by omega) type
  · exact natural (positive.cells_nonneg cell among) byte

/-- The value of a pair of digits, or of a single one. -/
theorem pairValue_of_isHex {digit : Char} {rest : List Char} (first : Digits.isHex digit = true)
    (others : rest.all Digits.isHex = true) :
    pairSum.pairValue (digit :: rest) = .ok (Digits.value 16 (digit :: rest) : Int) := by
  have unsigned : digit ≠ '-' := by
    rintro rfl
    exact absurd first (by decide)
  have signed : Digits.isSignedHex (digit :: rest) = true := by
    unfold Digits.isSignedHex
    simp [unsigned, first, others]
  unfold pairSum.pairValue
  rw [if_pos signed]
  unfold Digits.signedValue
  simp [unsigned]

/-- Digits have a sum. -/
theorem pairSum_of_isHex {digits : List Char} (hex : ∀ c ∈ digits, Digits.isHex c = true) :
    ∃ sum : Nat, pairSum digits = .ok (sum : Int) := by
  fun_induction pairSum digits with
  | case1 => exact ⟨0, rfl⟩
  | case2 a => exact ⟨_, pairValue_of_isHex (hex a (by simp)) rfl⟩
  | case3 a b rest ih =>
    obtain ⟨sum, sums⟩ := ih fun c member => hex c (by simp [member])
    have first : pairSum.pairValue [a, b] = _ :=
      pairValue_of_isHex (hex a (by simp)) (by simp [hex b (by simp)])
    refine ⟨Digits.value 16 [a, b] + sum, ?_⟩
    rw [first, sums]
    rfl

/-- A record without a negative part has a line: the mark, its digits and the digits of a check
sum. -/
theorem line_of_natural {record : HexRecord} (natural : record.Natural) :
    ∃ sum : Nat, record.line = .ok (String.ofList (':' :: (record.digits
      ++ Digits.padded 16 2 (sum : Int)))) := by
  obtain ⟨sum, sums⟩ := pairSum_of_isHex fun c => isHex_of_mem_digits natural
  refine ⟨256 - sum % 256, ?_⟩
  have check : checkSum record.digits = .ok ((256 - sum % 256 : Nat) : Int) := by
    unfold checkSum
    rw [sums]
    show Except.ok _ = Except.ok _
    congr 1
    omega
  unfold line
  rw [check]
  rfl

end HexRecord

/-! ## §5. Reading a listing. -/

namespace Listing

/-- Reads the lines of a listing up to its last line, behind which nothing may stand. -/
def readLines? : List (List Char) → Option (List HexRecord)
  | [] => none
  | line :: rest =>
    if line = HexRecord.lastLine.toList then
      if rest = [[]] then some [] else none
    else do
      let record ← HexRecord.read? line
      let records ← readLines? rest
      return record :: records

/-- Reads a printed listing. -/
def read? (text : String) : Option (List HexRecord) :=
  readLines? (Text.lines text.toList)

/-- Records without negative parts are all listed. -/
theorem crash_ofRecords {records : List HexRecord} (natural : ∀ record ∈ records, record.Natural) :
    (ofRecords records).crash = none := by
  induction records with
  | nil => rfl
  | cons record rest ih =>
    obtain ⟨sum, has_line⟩ := HexRecord.line_of_natural (natural record List.mem_cons_self)
    unfold ofRecords
    rw [has_line]
    exact ih fun other member => natural other (List.mem_cons_of_mem record member)

/-- No line of a record breaks off early. -/
theorem newline_not_mem_line {record : HexRecord} (printable : record.Printable) (sum : Nat) :
    '\n' ∉ ':' :: (record.digits ++ Digits.padded 16 2 (sum : Int)) := by
  have no_digit : Digits.isHex '\n' = false := by decide
  intro member
  rcases List.mem_cons.1 member with mark | digit
  · exact absurd mark (by decide)
  · rcases List.mem_append.1 digit with inside | check
    · rw [HexRecord.isHex_of_mem_digits printable.natural inside] at no_digit
      exact absurd no_digit (by decide)
    · rw [Digits.isHex_of_mem_padded (by decide) (by decide) check] at no_digit
      exact absurd no_digit (by decide)

/-- The listing of records that fit: it is complete, its lines are lines, and they are read back. -/
theorem readLines?_ofRecords {records : List HexRecord}
    (printable : ∀ record ∈ records, record.Printable) :
    (ofRecords records).crash = none ∧
      (∀ line ∈ (ofRecords records).lines, '\n' ∉ line.toList) ∧
      readLines? ((ofRecords records).lines.map String.toList ++ [[]]) = some records := by
  induction records with
  | nil => exact ⟨rfl, by decide, by decide⟩
  | cons record rest ih =>
    have first : record.Printable := printable record List.mem_cons_self
    obtain ⟨complete, plain, reads⟩ := ih fun other member =>
      printable other (List.mem_cons_of_mem record member)
    obtain ⟨sum, has_line⟩ := HexRecord.line_of_natural first.natural
    have read := HexRecord.read?_digits first (Digits.padded 16 2 (sum : Int))
    -- the last line has another type, so it is not the line of a record
    have differs : ':' :: (record.digits ++ Digits.padded 16 2 (sum : Int))
        ≠ HexRecord.lastLine.toList := by
      intro same
      rw [same] at read
      have last : HexRecord.read? HexRecord.lastLine.toList = none := by decide
      rw [last] at read
      exact absurd read (by simp)
    unfold ofRecords
    rw [has_line]
    refine ⟨complete, ?_, ?_⟩
    · intro line member
      rcases List.mem_cons.1 member with rfl | later
      · rw [String.toList_ofList]
        exact newline_not_mem_line first sum
      · exact plain line later
    · simp only [List.map_cons, List.cons_append, String.toList_ofList]
      unfold readLines?
      rw [if_neg differs, read, reads]
      rfl

end Listing

/-- What a record holds is programmed in the memory. -/
theorem HexRecord.Lists.getElem?_eq {cells : List Int} {records : List HexRecord}
    (lists : HexRecord.Lists 0 cells records) {record : HexRecord} (member : record ∈ records)
    {address : Nat} (at_address : record.address = address) {k : Nat} {cell : Int}
    (found : record.cells[k]? = some cell) :
    cells[address + k]? = some cell ∧ cell ≠ Memory.erased := by
  have held : ∃ other ∈ records, other.Holds (0 + (address + k)) cell :=
    ⟨record, member, k, by omega, found⟩
  obtain ⟨there, programmed, _⟩ := (lists.holds (address + k) cell).1 held
  exact ⟨there, programmed⟩

/-- The records of a memory without negative cells have no negative parts. -/
theorem HexRecord.Lists.natural {cells : List Int} {records : List HexRecord}
    (lists : HexRecord.Lists 0 cells records)
    (nonneg : ∀ cell ∈ cells, cell = Memory.erased ∨ 0 ≤ cell)
    {record : HexRecord} (member : record ∈ records) : record.Natural := by
  have behind := lists.behind record member
  obtain ⟨address, at_address⟩ := Int.eq_ofNat_of_zero_le behind
  refine ⟨by omega, ?_⟩
  intro cell among
  obtain ⟨k, found⟩ := List.getElem?_of_mem among
  obtain ⟨there, programmed⟩ := lists.getElem?_eq member at_address found
  exact (nonneg cell (List.mem_of_getElem? there)).resolve_left programmed

/-- The records of a memory of bytes fit into their lines. -/
theorem HexRecord.Lists.printable {cells : List Int} {records : List HexRecord}
    (lists : HexRecord.Lists 0 cells records) (addressable : cells.length ≤ 65536)
    (bytes : ∀ cell ∈ cells, cell = Memory.erased ∨ (0 ≤ cell ∧ cell ≤ 255))
    {record : HexRecord} (member : record ∈ records) : record.Printable := by
  obtain ⟨positive, short⟩ := lists.sized record member
  have behind := lists.behind record member
  obtain ⟨address, at_address⟩ := Int.eq_ofNat_of_zero_le behind
  unfold HexRecord.maxCells at short
  refine ⟨by omega, by omega, ?_, ?_⟩
  · -- the first cell lies in the memory
    obtain ⟨there, _⟩ := lists.getElem?_eq member at_address (List.getElem?_eq_getElem positive)
    obtain ⟨inside, _⟩ := List.getElem?_eq_some_iff.1 there
    omega
  · intro cell among
    obtain ⟨k, found⟩ := List.getElem?_of_mem among
    obtain ⟨there, programmed⟩ := lists.getElem?_eq member at_address found
    rcases bytes cell (List.mem_of_getElem? there) with erased | byte
    · exact absurd erased programmed
    · exact byte

end Mcs51
