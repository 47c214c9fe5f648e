/-
  Mcs51.Proofs.Image — the memory as an image of the placements.

  Placements that do not overlap can be read back from the memory, whatever their order.  Placements
  in ascending order even spell out the whole memory: gaps of erased cells and, between them, the
  cells of the instructions.  In that form the memory can be searched instruction by instruction.

  Main definitions:
    * `Layout.Apart`, `Layout.Ascending` : placements that do not overlap, and that ascend;
    * `Layout.render` : the memory spelled out.

  Main statements:
    * `Layout.getElem?_writeAll_of_mem`, `Layout.getElem?_writeAll_of_uncovered` : reading back;
    * `Layout.ascending_of_forward` : origins that only go forward make the placements ascend;
    * `Layout.toList_writeAll_eq_render` : the memory of ascending placements.
-/
import Mcs51.Proofs.Layout

namespace Mcs51.Layout

/-! ## §1. Placements that do not overlap. -/

/-- One of the placements ends before the other begins. -/
def Apart (p q : Placement) : Prop :=
  p.stop ≤ q.address ∨ q.stop ≤ p.address

instance (p q : Placement) : Decidable (Apart p q) :=
  inferInstanceAs (Decidable (_ ∨ _))

theorem Apart.symm {p q : Placement} (h : Apart p q) : Apart q p := Or.symm h

/-- Two placements that are apart share no address. -/
theorem Apart.not_covers {p q : Placement} (h : Apart p q) {i : Nat} (covers : p.Covers i) :
    ¬q.Covers i := by
  intro other
  unfold Placement.Covers at covers other
  rcases h with before | after <;> omega

@[simp] theorem size_writeAll (memory : Memory) (ps : List Placement) :
    (writeAll memory ps).cells.size = memory.cells.size := by
  induction ps generalizing memory with
  | nil => rfl
  | cons p rest ih =>
    show (writeAll (memory.write p.address p.stored) rest).cells.size = _
    rw [ih, Memory.size_write]

/-- One placement is written where it stands. -/
theorem getElem?_write_placement {memory : Memory} {p : Placement}
    (fits : p.stop ≤ memory.cells.size) (i : Nat) :
    (memory.write p.address p.stored).cells[i]? =
      if p.Covers i then p.stored[i - p.address]? else memory.cells[i]? := by
  rw [Memory.getElem?_write memory p.address p.stored (by simpa [Placement.stop] using fits),
      Placement.length_stored]
  rfl

/-- A cell that no placement covers keeps its content. -/
theorem getElem?_writeAll_of_uncovered {memory : Memory} {ps : List Placement}
    (fits : ∀ p ∈ ps, p.stop ≤ memory.cells.size) {i : Nat} (uncovered : ∀ p ∈ ps, ¬p.Covers i) :
    (writeAll memory ps).cells[i]? = memory.cells[i]? := by
  induction ps generalizing memory with
  | nil => rfl
  | cons p rest ih =>
    show (writeAll (memory.write p.address p.stored) rest).cells[i]? = _
    rw [ih (fun q member => by simpa using fits q (List.mem_cons_of_mem p member))
          (fun q member => uncovered q (List.mem_cons_of_mem p member)),
        getElem?_write_placement (fits p List.mem_cons_self),
        if_neg (uncovered p List.mem_cons_self)]

/-- A cell of a placement is found where the placement stands, if no two overlap. -/
theorem getElem?_writeAll_of_mem {memory : Memory} {ps : List Placement}
    (fits : ∀ p ∈ ps, p.stop ≤ memory.cells.size) (apart : ps.Pairwise Apart)
    {p : Placement} (member : p ∈ ps) {i : Nat} (covers : p.Covers i) :
    (writeAll memory ps).cells[i]? = p.stored[i - p.address]? := by
  induction ps generalizing memory with
  | nil => exact absurd member List.not_mem_nil
  | cons q rest ih =>
    obtain ⟨apart_q, apart_rest⟩ := List.pairwise_cons.1 apart
    have fits_rest : ∀ r ∈ rest, r.stop ≤ (memory.write q.address q.stored).cells.size := by
      intro r later
      rw [Memory.size_write]
      exact fits r (List.mem_cons_of_mem q later)
    show (writeAll (memory.write q.address q.stored) rest).cells[i]? = _
    rcases List.mem_cons.1 member with rfl | later
    · -- nothing that is written later comes near it
      rw [getElem?_writeAll_of_uncovered fits_rest
            (fun r member_r => (apart_q r member_r).not_covers covers),
          getElem?_write_placement (fits p List.mem_cons_self), if_pos covers]
    · exact ih fits_rest apart_rest later

/-! ## §2. Placements in ascending order. -/

/-- The placements begin at the position or later, each after the end of the one before. -/
def Ascending (position : Nat) : List Placement → Prop
  | [] => True
  | p :: rest => position ≤ p.address ∧ Ascending p.stop rest

theorem Ascending.mono {position earlier : Nat} {ps : List Placement} (h : Ascending position ps)
    (le : earlier ≤ position) : Ascending earlier ps := by
  cases ps with
  | nil => trivial
  | cons p rest => exact ⟨Nat.le_trans le h.1, h.2⟩

theorem Ascending.le_address {position : Nat} {ps : List Placement} (h : Ascending position ps)
    {p : Placement} (member : p ∈ ps) : position ≤ p.address := by
  induction ps generalizing position with
  | nil => exact absurd member List.not_mem_nil
  | cons q rest ih =>
    rcases List.mem_cons.1 member with rfl | later
    · exact h.1
    · have after : q.stop ≤ p.address := ih h.2 later
      have : q.address ≤ q.stop := Nat.le_add_right _ _
      have := h.1
      omega

theorem Ascending.pairwise_le {position : Nat} {ps : List Placement} (h : Ascending position ps) :
    ps.Pairwise fun p q => p.stop ≤ q.address := by
  induction ps generalizing position with
  | nil => exact List.Pairwise.nil
  | cons p rest ih => exact List.pairwise_cons.2 ⟨fun q member => h.2.le_address member, ih h.2⟩

theorem Ascending.pairwise {position : Nat} {ps : List Placement} (h : Ascending position ps) :
    ps.Pairwise Apart :=
  h.pairwise_le.imp Or.inl

/-- Actions whose origins never go back place their instructions in ascending order. -/
theorem ascending_of_forward {counter : Nat} {actions : List Action}
    (forward : ∀ c address, (c, Action.goTo address) ∈ timelineFrom counter actions → c ≤ address) :
    Ascending counter ((timelineFrom counter actions).filterMap placed?) := by
  induction actions generalizing counter with
  | nil => trivial
  | cons action rest ih =>
    have ascends := ih (fun c address member => forward c address (List.mem_cons_of_mem _ member))
    cases action with
    | define label => exact ascends
    | goTo address =>
      -- the only action that could go back
      have le : counter ≤ address := forward counter address List.mem_cons_self
      exact ascends.mono le
    | emit mnemonic encoding => exact ⟨Nat.le_refl counter, ascends⟩

/-! ## §3. The memory spelled out. -/

/-- The cells from a position to the end of a memory that holds these placements: what `cellsOf`
gives for each of them, and erased cells between them. -/
def render (cellsOf : Placement → List Int) (size position : Nat) : List Placement → List Int
  | [] => List.replicate (size - position) Memory.erased
  | p :: rest =>
    List.replicate (p.address - position) Memory.erased
      ++ (cellsOf p ++ render cellsOf size p.stop rest)

section Render

variable {cellsOf : Placement → List Int} {size position : Nat} {ps : List Placement}

theorem length_render (ascends : Ascending position ps) (inside : position ≤ size)
    (fits : ∀ p ∈ ps, p.stop ≤ size)
    (fills : ∀ p ∈ ps, (cellsOf p).length = p.encoding.cells.length) :
    (render cellsOf size position ps).length = size - position := by
  induction ps generalizing position with
  | nil => simp [render]
  | cons p rest ih =>
    have here : p.stop ≤ size := fits p List.mem_cons_self
    have later := ih ascends.2 here (fun q member => fits q (List.mem_cons_of_mem p member))
      (fun q member => fills q (List.mem_cons_of_mem p member))
    have begins := ascends.1
    have stop_eq : p.stop = p.address + p.encoding.cells.length := rfl
    simp only [render, List.length_append, List.length_replicate, later,
      fills p List.mem_cons_self]
    omega

/-- Behind a placement the rest is spelled out. -/
theorem getElem?_render_cons {p : Placement} {rest : List Placement}
    (begins : position ≤ p.address) (fills : (cellsOf p).length = p.encoding.cells.length)
    {i : Nat} (from_position : position ≤ i) :
    (render cellsOf size position (p :: rest))[i - position]? =
      if i < p.address then some Memory.erased
      else if i < p.stop then (cellsOf p)[i - p.address]?
      else (render cellsOf size p.stop rest)[i - p.stop]? := by
  have stop_eq : p.stop = p.address + p.encoding.cells.length := rfl
  show (List.replicate (p.address - position) Memory.erased
      ++ (cellsOf p ++ render cellsOf size p.stop rest))[i - position]? = _
  by_cases gap : i < p.address
  · rw [if_pos gap, List.getElem?_append_left (by simp; omega), List.getElem?_replicate,
        if_pos (by omega)]
  · rw [if_neg gap, List.getElem?_append_right (by simp; omega), List.length_replicate,
        show i - position - (p.address - position) = i - p.address by omega]
    by_cases covered : i < p.stop
    · rw [if_pos covered, List.getElem?_append_left (by omega)]
    · rw [if_neg covered, List.getElem?_append_right (by omega), fills,
          show i - p.address - p.encoding.cells.length = i - p.stop by omega]

theorem getElem?_render_of_mem (ascends : Ascending position ps)
    (fills : ∀ p ∈ ps, (cellsOf p).length = p.encoding.cells.length)
    {p : Placement} (member : p ∈ ps) {i : Nat} (covers : p.Covers i) :
    (render cellsOf size position ps)[i - position]? = (cellsOf p)[i - p.address]? := by
  induction ps generalizing position with
  | nil => exact absurd member List.not_mem_nil
  | cons q rest ih =>
    obtain ⟨begins, ends⟩ := covers
    have first := ascends.1
    have stop_q : q.stop = q.address + q.encoding.cells.length := rfl
    have from_position := ascends.le_address member
    rw [getElem?_render_cons first (fills q List.mem_cons_self) (by omega)]
    rcases List.mem_cons.1 member with rfl | later
    · rw [if_neg (by omega), if_pos ends]
    · -- the placement comes later, so the first one ends before the address
      have behind : q.stop ≤ p.address := ascends.2.le_address later
      rw [if_neg (by omega), if_neg (by omega)]
      exact ih ascends.2 (fun r member_r => fills r (List.mem_cons_of_mem q member_r)) later

theorem getElem?_render_of_uncovered (ascends : Ascending position ps)
    (fills : ∀ p ∈ ps, (cellsOf p).length = p.encoding.cells.length)
    {i : Nat} (from_position : position ≤ i) (inside : i < size)
    (uncovered : ∀ p ∈ ps, ¬p.Covers i) :
    (render cellsOf size position ps)[i - position]? = some Memory.erased := by
  induction ps generalizing position with
  | nil =>
    simp only [render, List.getElem?_replicate]
    rw [if_pos (by omega)]
  | cons p rest ih =>
    rw [getElem?_render_cons ascends.1 (fills p List.mem_cons_self) from_position]
    by_cases gap : i < p.address
    · rw [if_pos gap]
    · -- the address is behind the first placement, since that does not cover it
      have past : ¬i < p.stop := by
        intro ends
        exact uncovered p List.mem_cons_self ⟨by omega, ends⟩
      rw [if_neg gap, if_neg past]
      exact ih ascends.2 (fun q member => fills q (List.mem_cons_of_mem p member)) (by omega)
        (fun q member => uncovered q (List.mem_cons_of_mem p member))

end Render

/-- **The memory of ascending placements, spelled out.** -/
theorem toList_writeAll_eq_render {size : Nat} {ps : List Placement} (ascends : Ascending 0 ps)
    (fits : ∀ p ∈ ps, p.stop ≤ size) :
    (writeAll (Memory.blank size) ps).cells.toList = render Placement.stored size 0 ps := by
  have blank_size : (Memory.blank size).cells.size = size := by simp [Memory.blank]
  have fits_blank : ∀ p ∈ ps, p.stop ≤ (Memory.blank size).cells.size := by
    intro p member
    rw [blank_size]
    exact fits p member
  have fills : ∀ p ∈ ps, p.stored.length = p.encoding.cells.length :=
    fun p _ => p.length_stored
  apply List.ext_getElem?
  intro i
  rw [Array.getElem?_toList]
  by_cases inside : i < size
  · by_cases covered : ∃ p ∈ ps, p.Covers i
    · obtain ⟨p, member, covers⟩ := covered
      rw [getElem?_writeAll_of_mem fits_blank ascends.pairwise member covers]
      exact (getElem?_render_of_mem ascends fills member covers).symm
    · have uncovered : ∀ p ∈ ps, ¬p.Covers i := fun p member covers => covered ⟨p, member, covers⟩
      rw [getElem?_writeAll_of_uncovered fits_blank uncovered]
      have spelled := getElem?_render_of_uncovered ascends fills (Nat.zero_le i) inside uncovered
      rw [Nat.sub_zero] at spelled
      rw [spelled]
      simp [Memory.blank, inside]
  · -- both end with the memory
    have beyond := length_render ascends (Nat.zero_le size) fits fills
    rw [Array.getElem?_eq_none (by rw [size_writeAll, blank_size]; omega),
        List.getElem?_eq_none (by rw [beyond]; omega)]

end Mcs51.Layout
