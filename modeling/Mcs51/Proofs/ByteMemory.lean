/-
  Mcs51.Proofs.ByteMemory — which programs leave only bytes.

  An instruction with a number that is too large is placed like any other.  So whether a memory
  consists of bytes is decided by the instructions in it, and by what is left of them: origins may
  go back, and then a cell that is too large may be overwritten.

  Main definitions:
    * `Body.FitsBytes` : lines whose instruction consists of bytes;
    * `Memory.IsBytes` : memories whose programmed cells are bytes;
    * `Layout.Overwritten` : cells that a later line covers.

  Main statements:
    * `Layout.LaidOut.isBytes_iff` : cells that are no bytes stay unless they are overwritten;
    * `memory_isBytes_iff` : which programs leave only bytes.
-/
import Mcs51.Proofs.OperandRange
import Mcs51.Proofs.SourceLayout

namespace Mcs51

/-! ## §1. Lines. -/

namespace Body

/-- Does the instruction on a line consist of bytes, by its operands?  Other lines store nothing. -/
def FitsBytes : Body → Prop
  | .label _ => True
  | .operation mnemonic operands => ∀ known ∈ Mnemonic.ofName? mnemonic, known.FitsBytes operands

instance (body : Body) : Decidable body.FitsBytes :=
  match body with
  | .label _ => inferInstanceAs (Decidable True)
  | .operation mnemonic operands =>
    inferInstanceAs (Decidable (∀ known ∈ Mnemonic.ofName? mnemonic, known.FitsBytes operands))

theorem forall_cells_lt_iff {body : Body} (understood : body.Understood) :
    (∀ cell ∈ body.cells, cell < 256) ↔ body.FitsBytes := by
  obtain ⟨action, performs⟩ := Option.isSome_iff_exists.1 ((action?_isSome_iff body).2 understood)
  cases body with
  | label name => exact iff_of_true (by simp [cells, encoding?]) trivial
  | operation mnemonic operands =>
    rcases action?_operation performs with
      ⟨rfl, address, reached, rfl⟩ | ⟨other, known, encoding, found, encoded, rfl⟩
    · refine iff_of_true (by simp [cells, encoding?]) ?_
      intro known found
      exact absurd found (by simp [show Mnemonic.ofName? "ORG" = none from rfl])
    · have cells_eq : (Body.operation mnemonic operands).cells = encoding.cells := by
        simp [cells, encoding?, other, found, encoded, Except.toOption]
      rw [cells_eq]
      refine (Mnemonic.isBytes_iff encoded).trans ?_
      simp [FitsBytes, found]

end Body

/-! ## §2. Memories. -/

/-- Every cell of the memory is erased or a byte. -/
def Memory.IsBytes (memory : Memory) : Prop :=
  ∀ cell ∈ memory.cells, cell = Memory.erased ∨ 0 ≤ cell ∧ cell < 256

namespace Layout

/-- A later line covers the cell. -/
def Overwritten (before : List Body) (body : Body) (after : List Body) (i : Nat) : Prop :=
  ∃ between later rest, after = between ++ later :: rest ∧
    Covers (before ++ body :: between) later i

/-- Of the lines that cover a cell there is a last one. -/
theorem exists_last_covering {before : List Body} {body : Body} {i : Nat}
    (covers : Covers before body i) (after : List Body) :
    ∃ between later rest, body :: after = between ++ later :: rest ∧
      Covers (before ++ between) later i ∧ ¬Overwritten (before ++ between) later rest i := by
  induction length : after.length using Nat.strongRecOn generalizing before body after with
  | ind n ih =>
    by_cases again : Overwritten before body after i
    · obtain ⟨between, later, rest, rfl, covers_later⟩ := again
      obtain ⟨between', last, rest', split, covers_last, final⟩ :=
        ih rest.length (by simp at length; omega) covers_later rest rfl
      refine ⟨body :: between ++ between', last, rest', by simp [split], ?_, ?_⟩
      · simpa using covers_last
      · simpa using final
    · exact ⟨[], body, after, rfl, by simpa using covers, by simpa using again⟩

section Lines

variable {size : Nat} {lines : List Body} {s : Assembler}

/-- A cell that is not overwritten holds what its line has stored. -/
theorem LaidOut.getElem?_of_final (laidOut : LaidOut size lines s) {before after : List Body}
    {body : Body} (split : lines = before ++ body :: after) {k cell : Nat}
    (stored : body.cells[k]? = some cell)
    (final : ¬Overwritten before body after (address before + k)) :
    s.memory.cells[address before + k]? = some (cell : Int) := by
  obtain ⟨inside, _⟩ := List.getElem?_eq_some_iff.1 stored
  rw [laidOut.covered before body after (address before + k) split
        ⟨Nat.le_add_right _ _, Nat.add_lt_add_left inside _⟩
        (fun between later rest split covers => final ⟨between, later, rest, split, covers⟩),
      Nat.add_sub_cancel_left]
  simp [Assembler.asStored, stored]

/-- A cell is erased, or some line has stored it and none has overwritten it. -/
theorem LaidOut.erased_or_final (laidOut : LaidOut size lines s) {cell : Int}
    (member : cell ∈ s.memory.cells) :
    cell = Memory.erased ∨ ∃ (before : List Body) (body : Body) (after : List Body) (k n : Nat),
      lines = before ++ body :: after ∧ body.cells[k]? = some n ∧
        ¬Overwritten before body after (address before + k) ∧ cell = n := by
  obtain ⟨i, inside, rfl⟩ := Array.mem_iff_getElem.1 member
  have here : s.memory.cells[i]? = some s.memory.cells[i] := Array.getElem?_eq_getElem inside
  by_cases covered : ∃ before body after, lines = before ++ body :: after ∧ Covers before body i
  · obtain ⟨before, body, after, split, covers⟩ := covered
    obtain ⟨between, last, rest, split', ⟨begins, ends⟩, final⟩ :=
      exists_last_covering covers after
    have at_last : address (before ++ between) + (i - address (before ++ between)) = i := by omega
    obtain ⟨n, stored⟩ : ∃ n, last.cells[i - address (before ++ between)]? = some n :=
      ⟨_, List.getElem?_eq_getElem (by omega)⟩
    have split_last : lines = (before ++ between) ++ last :: rest := by simp [split, split']
    rw [← at_last] at final
    have stays := laidOut.getElem?_of_final split_last stored final
    rw [at_last, here] at stays
    exact .inr ⟨_, _, _, _, _, split_last, stored, final, Option.some.inj stays⟩
  · push Not at covered
    have erased := laidOut.uncovered i (laidOut.size_eq ▸ inside) covered
    exact .inl (Option.some.inj (here.symm.trans erased))

/-- **Cells that are no bytes stay unless they are overwritten.** -/
theorem LaidOut.isBytes_iff (laidOut : LaidOut size lines s) :
    s.memory.IsBytes ↔ ∀ before body after, lines = before ++ body :: after →
      ∀ k cell, body.cells[k]? = some cell → 256 ≤ cell →
        Overwritten before body after (address before + k) := by
  constructor
  · intro bytes before body after split k cell stored large
    by_contra final
    have stays := laidOut.getElem?_of_final split stored final
    rcases bytes _ (Array.mem_of_getElem? stays) with erased | ⟨_, small⟩
    · exact absurd erased (by simp [Memory.erased])
    · omega
  · intro overwritten cell member
    rcases laidOut.erased_or_final member with
      erased | ⟨before, body, after, k, n, split, stored, final, rfl⟩
    · exact .inl erased
    · refine .inr ⟨by omega, ?_⟩
      by_contra large
      exact final (overwritten before body after split k n stored (by omega))

end Lines

/-- Nothing is overwritten if no origin goes back. -/
theorem not_overwritten_of_forward {bodies before after : List Body} {body : Body}
    (understood : ∀ body ∈ beforeEnd bodies, body.Understood) (forward : Forward bodies)
    (split : beforeEnd bodies = before ++ body :: after) {i : Nat} (covers : Covers before body i) :
    ¬Overwritten before body after i := by
  rintro ⟨between, later, rest, rfl, covers_later⟩
  obtain ⟨begins, ends⟩ := covers
  obtain ⟨begins_later, ends_later⟩ := covers_later
  have nonempty : ∀ {cells : List Nat} {n : Nat}, n ≤ i → i < n + cells.length → cells ≠ [] := by
    rintro cells n begins ends rfl
    simp at ends
    omega
  rw [split] at understood
  obtain ⟨ps, p, placed, address_eq, cells_eq⟩ := placed_split understood (nonempty begins ends)
  obtain ⟨mnemonic, encoding, performs, _⟩ :=
    action?_of_cells (understood later (by simp)) (nonempty begins_later ends_later)
  have moment : (address (before ++ [body] ++ between), Action.emit mnemonic encoding) ∈
      timelineFrom (address (before ++ [body]))
        ((between ++ later :: rest).filterMap Body.action?) :=
    (mem_timelineFrom_iff fun other member => understood other (by simp at member ⊢; tauto)).2
      ⟨between, later, rest, rfl, rfl, performs⟩
  -- in ascending order the first of the two ends before the second begins
  have ascending : ((timelineFrom (address [])
      ((beforeEnd bodies).filterMap Body.action?)).filterMap
      placed?).Pairwise fun p q => p.stop ≤ q.address := forward.ascending.pairwise_le
  rw [split, placed] at ascending
  have apart : p.stop ≤ address (before ++ [body] ++ between) :=
    (List.pairwise_cons.1 (List.pairwise_append.1 ascending).2.1).1 _
      (List.mem_filterMap.2 ⟨_, moment, rfl⟩)
  rw [Placement.stop, address_eq, cells_eq, List.append_assoc, List.singleton_append] at apart
  omega

end Layout

/-! ## §3. Programs. -/

/-- A number is written in two digits of base 16 exactly if it is a byte. -/
theorem Digits.length_padded_two (n : Nat) : (Digits.padded 16 2 (n : Int)).length = 2 ↔ n < 256 :=
  length_padded_iff (by omega) (by omega)

/-- **Which programs leave only bytes.**  The memory of a program that is placed consists of bytes
exactly if in every instruction whose operands do not fit, all cells above 255 are overwritten by
later instructions.  If no origin goes back, that means that all operands fit.  It also means that
every programmed cell is listed in two digits. -/
theorem memory_isBytes_iff {size : Nat} {program : List Statement} {s : Assembler}
    (assembled : Assembler.assemble program (Assembler.ofSize size) = .ok () s) :
    (s.memory.IsBytes ↔ ∀ before body after,
      Layout.beforeEnd (Statement.bodies program) = before ++ body :: after → ¬body.FitsBytes →
        ∀ k cell, body.cells[k]? = some cell → 256 ≤ cell →
          Layout.Overwritten before body after (Layout.address before + k)) ∧
    (Layout.Forward (Statement.bodies program) →
      (s.memory.IsBytes ↔ ∀ body ∈ Layout.beforeEnd (Statement.bodies program), body.FitsBytes)) ∧
    (s.memory.IsBytes ↔ ∀ cell ∈ s.memory.cells, cell ≠ Memory.erased →
      (Digits.padded 16 2 cell).length = 2) := by
  have leaves := Layout.leaves_of_assemble assembled
  have understood := Layout.accepted_iff.1 leaves.accepted
  have laidOut := leaves.laidOut (Layout.distinct_of_assemble assembled)
  refine ⟨?_, ?_, ?_⟩
  · rw [laidOut.isBytes_iff]
    constructor
    · intro overwritten before body after split _
      exact overwritten before body after split
    · intro overwritten before body after split k cell stored large
      refine overwritten before body after split ?_ k cell stored large
      intro fits
      have small := (Body.forall_cells_lt_iff (understood body (by simp [split]))).2 fits cell
        (List.mem_of_getElem? stored)
      omega
  · intro forward
    rw [laidOut.isBytes_iff]
    constructor
    · intro overwritten body member
      obtain ⟨before, after, split⟩ := List.append_of_mem member
      rw [← Body.forall_cells_lt_iff (understood body member)]
      intro cell stored
      obtain ⟨k, inside, rfl⟩ := List.getElem_of_mem stored
      by_contra large
      refine Layout.not_overwritten_of_forward understood forward split
        ⟨Nat.le_add_right _ k, Nat.add_lt_add_left inside _⟩ ?_
      exact overwritten before body after split k _ (List.getElem?_eq_getElem inside) (by omega)
    · intro fits before body after split k cell stored large
      have small := (Body.forall_cells_lt_iff (understood body (by simp [split]))).2
        (fits body (by simp [split])) cell (List.mem_of_getElem? stored)
      omega
  · constructor
    · intro bytes cell member programmed
      obtain ⟨nonneg, small⟩ := (bytes cell member).resolve_left programmed
      obtain ⟨n, rfl⟩ := Int.eq_ofNat_of_zero_le nonneg
      exact (Digits.length_padded_two n).2 (by omega)
    · intro listed cell member
      rcases laidOut.erased_or_final member with
        erased | ⟨before, body, after, k, n, _, _, _, rfl⟩
      · exact .inl erased
      · have small := (Digits.length_padded_two n).1 (listed n member (by simp [Memory.erased]))
        exact .inr ⟨by omega, by omega⟩

/-- A constant that is too large, and an instruction that overwrites it. -/
def mendedProgram : List Statement :=
  [⟨1, .operation "MOV" ["A", "#256"]⟩, ⟨2, .operation "ORG" ["1"]⟩, ⟨3, .operation "NOP" [""]⟩]

/-- The state that it leaves in a memory of three cells. -/
def mendedState : Assembler :=
  ⟨⟨#[0x74, 0x01, Memory.erased]⟩, 2, ⟨[]⟩, []⟩

/-- The largest constant of two cells, and the last register. -/
def widestProgram : List Statement :=
  [⟨1, .operation "MOV" ["DPTR", "#65535"]⟩, ⟨2, .operation "MOV" ["R7", "A"]⟩]

/-- The state that it leaves in a memory of five cells. -/
def widestState : Assembler :=
  ⟨⟨#[0x90, 0xFF, 0xFF, 0xFF, Memory.erased]⟩, 4, ⟨[]⟩, []⟩

/-- Both programs leave only bytes: in one of them all operands fit, in the other one the cell that
is too large is overwritten. -/
theorem memory_isBytes_iff_mended :
    Assembler.assemble widestProgram (Assembler.ofSize 5) = .ok () widestState ∧
      widestState.memory.IsBytes ∧
      Assembler.assemble mendedProgram (Assembler.ofSize 3) = .ok () mendedState ∧
      mendedState.memory.IsBytes ∧ ¬(Body.operation "MOV" ["A", "#256"]).FitsBytes ∧
      Layout.Overwritten [] (.operation "MOV" ["A", "#256"])
        [.operation "ORG" ["1"], .operation "NOP" [""]] 1 := by
  have widest : Assembler.assemble widestProgram (Assembler.ofSize 5) = .ok () widestState := by
    decide +kernel
  have mended : Assembler.assemble mendedProgram (Assembler.ofSize 3) = .ok () mendedState := by
    decide +kernel
  have loose : ¬(Body.operation "MOV" ["A", "#256"]).FitsBytes := by decide +kernel
  have stored : (Body.operation "MOV" ["A", "#256"]).cells[1]? = some 256 := by decide +kernel
  have bytes := (memory_isBytes_iff mended).2.2.2 (by decide +kernel)
  refine ⟨widest, ?_, mended, bytes, loose, ?_⟩
  · exact ((memory_isBytes_iff widest).2.1 (by decide +kernel)).2 (by decide +kernel)
  · exact (memory_isBytes_iff mended).1.1 bytes [] _ _ rfl loose 1 256 stored (by decide)

/-- **A constant above 255 is stored as it is.**  The text is read and placed, and its second cell
is no byte. -/
theorem oversized_constant_is_stored :
    ∃ program s, Statement.parse (Source.lines "MOV A,#256") = .ok program ∧
      Assembler.assemble program Assembler.fresh = .ok () s ∧
      s.memory.cells[1]? = some 256 ∧ ¬s.memory.IsBytes := by
  have parsed : Statement.parse (Source.lines "MOV A,#256")
      = .ok [⟨1, .operation "MOV" ["A", "#256"]⟩] := by decide +kernel
  obtain ⟨s, assembled⟩ : ∃ s, Assembler.assemble [⟨1, .operation "MOV" ["A", "#256"]⟩]
      (Assembler.ofSize 65536) = .ok () s :=
    Layout.assemble_of_accepted (by decide) (by decide +kernel) (by decide +kernel)
      (by decide +kernel)
  have laidOut :=
    (Layout.leaves_of_assemble assembled).laidOut (Layout.distinct_of_assemble assembled)
  have second : s.memory.cells[1]? = some ((256 : Nat) : Int) := by
    have stored : (Body.operation "MOV" ["A", "#256"]).cells[1]? = some 256 := by decide +kernel
    refine laidOut.getElem?_of_final (show _ = [] ++ _ :: [] from rfl) stored ?_
    rintro ⟨between, later, rest, none, _⟩
    exact absurd none (by simp)
  refine ⟨_, s, parsed, assembled, second, ?_⟩
  intro bytes
  exact absurd (bytes 256 (Array.mem_of_getElem? second)) (by decide)

end Mcs51
