/-
  Mcs51.Proofs.Blocks — programs of two blocks, in either order.

  A block begins with an origin and has no other.  What it places does not depend on what stands
  before it, so two blocks that do not overlap leave the same cells and the same labels in either
  order.  The references, however, are noted in the order of the source, and handed out in the order
  of addresses.  So linking gives the same memory in either order only if it does not matter which
  references are handed out first.

  Main definitions:
    * `Layout.IsBlock` : the lines of one block;
    * `Layout.opened` : the addresses that wait for a label.

  Main statements:
    * `Layout.ascending_or_of_disjoint` : of two disjoint blocks, one lies before the other;
    * `Layout.writeAll_comm` : disjoint placements can be written in either order;
    * `blocks_commute_iff` : what two programs of the same blocks have in common.
-/
import Mcs51.Proofs.HandOut
import Mcs51.Proofs.Resolution

namespace Mcs51

/-! ## §1. The timeline of a block. -/

/-- Does the line set the counter? -/
def Body.isOrigin : Body → Bool
  | .label _ => false
  | .operation mnemonic _ => mnemonic == "ORG"

namespace Layout

/-- **The lines of one block**: an origin, then neither another origin nor the end directive. -/
def IsBlock : List Body → Prop
  | [] => False
  | first :: rest => first.isOrigin = true ∧
      ∀ body ∈ rest, body.isOrigin = false ∧ body.isEnd = false

instance (bodies : List Body) : Decidable (IsBlock bodies) :=
  match bodies with
  | [] => inferInstanceAs (Decidable False)
  | _ :: rest => inferInstanceAs (Decidable (_ ∧ ∀ body ∈ rest, _))

/-- The actions that only go on from where they begin. -/
def Straight (actions : List Action) : Prop :=
  ∀ action ∈ actions, ∀ address, action ≠ .goTo address

/-- Without an end directive the lines behind are not hidden. -/
theorem actions_append {bodies : List Body} (running : ∀ body ∈ bodies, body.isEnd = false)
    (others : List Body) : actions (bodies ++ others) = actions bodies ++ actions others := by
  have all : ∀ body ∈ bodies, (!body.isEnd) = true := by
    intro body member
    rw [running body member]
    rfl
  have whole : (bodies ++ []).takeWhile (!·.isEnd) = bodies ++ [].takeWhile (!·.isEnd) :=
    List.takeWhile_append_of_pos all
  rw [List.append_nil, List.takeWhile_nil, List.append_nil] at whole
  unfold actions
  rw [List.takeWhile_append_of_pos all, whole, List.filterMap_append]

theorem timelineFrom_append (counter : Nat) (first second : List Action) :
    timelineFrom counter (first ++ second) =
      timelineFrom counter first ++ timelineFrom (counterAfter counter first) second := by
  induction first generalizing counter with
  | nil => rfl
  | cons action rest ih =>
    rw [List.cons_append, timelineFrom, timelineFrom, ih, List.cons_append]
    rfl

/-- Both blocks of an accepted program are accepted. -/
theorem accepted_append {bodies others : List Body}
    (running : ∀ body ∈ bodies, body.isEnd = false) :
    Accepted (bodies ++ others) ↔ Accepted bodies ∧ Accepted others := by
  induction bodies with
  | nil =>
    refine ⟨fun h => ⟨fun _ member => absurd member List.not_mem_nil, h⟩, fun h => h.2⟩
  | cons body rest ih =>
    have here : body.isEnd = false := running body List.mem_cons_self
    rw [List.cons_append, accepted_cons here, accepted_cons here, and_assoc,
        ih fun other member => running other (List.mem_cons_of_mem body member)]

/-- A block goes to its origin, and straight on from there. -/
theorem actions_of_isBlock {bodies : List Body} (block : IsBlock bodies)
    (accepted : Accepted bodies) :
    ∃ address rest, actions bodies = .goTo address :: rest ∧ Straight rest := by
  cases bodies with
  | nil => exact absurd block id
  | cons first rest =>
    obtain ⟨isOrigin, others⟩ := block
    cases first with
    | label name => exact absurd isOrigin (by simp [Body.isOrigin])
    | operation mnemonic operands =>
      obtain rfl : mnemonic = "ORG" := by simpa [Body.isOrigin] using isOrigin
      have running : (Body.operation "ORG" operands).isEnd = false := rfl
      obtain ⟨performs, _⟩ := (accepted_cons running).1 accepted
      obtain ⟨action, performed⟩ := Option.isSome_iff_exists.1 performs
      rcases Body.action?_operation performed with ⟨_, address, _, rfl⟩ | ⟨other, _⟩
      · refine ⟨address, actions rest, actions_cons running performed rest, ?_⟩
        intro later member target same
        obtain ⟨body, kept, does⟩ := List.mem_filterMap.1 member
        have among : body ∈ rest := (List.takeWhile_prefix _).subset kept
        subst same
        -- only an origin sets the counter
        cases body with
        | label name => exact absurd does (by simp [Body.action?])
        | operation mnemonic operands =>
          rcases Body.action?_operation does with ⟨isOrigin, _⟩ | ⟨_, _, _, _, _, emits⟩
          · have := (others _ among).1
            rw [isOrigin] at this
            exact absurd this (by simp [Body.isOrigin])
          · exact absurd emits (by simp)
      · exact absurd rfl other

theorem isEnd_of_isBlock {bodies : List Body} (block : IsBlock bodies) :
    ∀ body ∈ bodies, body.isEnd = false := by
  cases bodies with
  | nil => exact absurd block id
  | cons first rest =>
    intro body member
    rcases List.mem_cons.1 member with rfl | later
    · cases body with
      | label name => rfl
      | operation mnemonic operands =>
        obtain rfl : mnemonic = "ORG" := by simpa [Body.isOrigin] using block.1
        rfl
    · exact (block.2 body later).2

/-- What a block leaves on the timeline does not depend on what stands before it. -/
theorem filterMap_timeline_append {α : Type} {f : Nat × Action → Option α}
    (blind : ∀ counter address, f (counter, .goTo address) = none) {bodies others : List Body}
    (block : IsBlock bodies) (block' : IsBlock others) (accepted : Accepted others) :
    (timeline (bodies ++ others)).filterMap f =
      (timeline bodies).filterMap f ++ (timeline others).filterMap f := by
  obtain ⟨address, rest, begins, _⟩ := actions_of_isBlock block' accepted
  unfold timeline
  rw [actions_append (isEnd_of_isBlock block), timelineFrom_append, List.filterMap_append, begins]
  simp only [timelineFrom, List.filterMap_cons, blind, Action.next]

/-! ## §2. Blocks that do not overlap. -/

/-- The placements begin at the position, each where the one before ends. -/
def Contiguous (position : Nat) : List Placement → Prop
  | [] => True
  | p :: rest => p.address = position ∧ Contiguous p.stop rest

theorem contiguous_of_straight {counter : Nat} {actions : List Action}
    (straight : Straight actions) :
    Contiguous counter ((timelineFrom counter actions).filterMap placed?) := by
  induction actions generalizing counter with
  | nil => trivial
  | cons action rest ih =>
    have later : Straight rest := fun other member => straight other (List.mem_cons_of_mem _ member)
    cases action with
    | define label => exact ih later
    | goTo address => exact absurd rfl (straight _ List.mem_cons_self address)
    | emit mnemonic encoding => exact ⟨rfl, ih later⟩

/-- The placements of a block. -/
theorem contiguous_of_isBlock {bodies : List Body} (block : IsBlock bodies)
    (accepted : Accepted bodies) : ∃ address, Contiguous address (placements bodies) := by
  obtain ⟨address, rest, begins, straight⟩ := actions_of_isBlock block accepted
  refine ⟨address, ?_⟩
  unfold placements timeline
  rw [begins]
  exact contiguous_of_straight straight

theorem Contiguous.ascending {position : Nat} {ps : List Placement} (h : Contiguous position ps) :
    Ascending position ps := by
  induction ps generalizing position with
  | nil => trivial
  | cons p rest ih => exact ⟨Nat.le_of_eq h.1.symm, ih h.2⟩

/-- Contiguous placements leave no gap. -/
theorem Contiguous.exists_covers {position : Nat} {ps : List Placement} (h : Contiguous position ps)
    {i : Nat} (behind : position ≤ i) (before : ∃ p ∈ ps, i < p.stop) : ∃ p ∈ ps, p.Covers i := by
  induction ps generalizing position with
  | nil =>
    obtain ⟨p, member, _⟩ := before
    exact absurd member List.not_mem_nil
  | cons p rest ih =>
    have begins : p.address = position := h.1
    by_cases here : i < p.stop
    · exact ⟨p, List.mem_cons_self, by omega, here⟩
    · obtain ⟨q, member, ends⟩ := before
      rcases List.mem_cons.1 member with rfl | later
      · exact absurd ends here
      · obtain ⟨r, among, covers⟩ := ih h.2 (Nat.le_of_not_lt here) ⟨q, later, ends⟩
        exact ⟨r, List.mem_cons_of_mem p among, covers⟩

theorem Ascending.append {position bound : Nat} {ps qs : List Placement} (h : Ascending position ps)
    (le : position ≤ bound) (before : ∀ p ∈ ps, p.stop ≤ bound) (h' : Ascending bound qs) :
    Ascending position (ps ++ qs) := by
  induction ps generalizing position with
  | nil => exact h'.mono le
  | cons p rest ih =>
    refine ⟨h.1, ih h.2 (before p List.mem_cons_self) ?_⟩
    intro q member
    exact before q (List.mem_cons_of_mem p member)

/-- No address belongs to placements of both lists. -/
def Disjoint (ps qs : List Placement) : Prop :=
  ∀ p ∈ ps, ∀ q ∈ qs, ∀ i, p.Covers i → ¬q.Covers i

theorem disjoint_of_apart {ps qs : List Placement} (apart : ∀ p ∈ ps, ∀ q ∈ qs, Apart p q) :
    Disjoint ps qs :=
  fun p member q among _ covers => (apart p member q among).not_covers covers

theorem Disjoint.symm {ps qs : List Placement} (h : Disjoint ps qs) : Disjoint qs ps :=
  fun q among p member i covers other => h p member q among i other covers

/-- The block that begins first ends before the other begins. -/
theorem ascending_of_le {first second : Nat} {ps qs : List Placement}
    (contiguous : Contiguous first ps) (contiguous' : Contiguous second qs)
    (shaped : ∀ q ∈ qs, q.Shaped) (disjoint : Disjoint ps qs) (le : first ≤ second) :
    Ascending 0 (ps ++ qs) := by
  cases qs with
  | nil =>
    rw [List.append_nil]
    exact contiguous.ascending.mono (Nat.zero_le first)
  | cons q rest =>
    have begins : q.address = second := contiguous'.1
    have nonempty : 0 < q.encoding.cells.length :=
      List.length_pos_iff.2 (shaped q List.mem_cons_self).nonempty
    have covers : q.Covers second := by
      unfold Placement.Covers Placement.stop
      omega
    have before : ∀ p ∈ ps, p.stop ≤ second := by
      intro p member
      refine Nat.le_of_not_lt fun reaches => ?_
      -- otherwise some placement of the first block reaches the origin of the second
      obtain ⟨r, among, there⟩ := contiguous.exists_covers le ⟨p, member, reaches⟩
      exact disjoint r among q List.mem_cons_self second there covers
    exact (contiguous.ascending.append le before contiguous'.ascending).mono (Nat.zero_le first)

/-- **Of two disjoint blocks, one lies before the other.** -/
theorem ascending_or_of_disjoint {bodies others : List Body} (block : IsBlock bodies)
    (block' : IsBlock others) (accepted : Accepted bodies) (accepted' : Accepted others)
    (disjoint : Disjoint (placements bodies) (placements others)) :
    Ascending 0 (placements bodies ++ placements others) ∨
      Ascending 0 (placements others ++ placements bodies) := by
  obtain ⟨first, contiguous⟩ := contiguous_of_isBlock block accepted
  obtain ⟨second, contiguous'⟩ := contiguous_of_isBlock block' accepted'
  have shaped : ∀ {lines : List Body}, ∀ p ∈ placements lines, p.Shaped :=
    fun _ => shaped_of_mem_placements
  rcases Nat.le_total first second with le | ge
  · exact Or.inl (ascending_of_le contiguous contiguous' shaped disjoint le)
  · exact Or.inr (ascending_of_le contiguous' contiguous shaped disjoint.symm ge)

/-- Placements that are apart can be written in either order. -/
theorem writeAll_comm {memory : Memory} {ps qs : List Placement}
    (fits : ∀ p ∈ ps ++ qs, p.stop ≤ memory.cells.size) (apart : (ps ++ qs).Pairwise Apart) :
    writeAll memory (ps ++ qs) = writeAll memory (qs ++ ps) := by
  have swap : ∀ {p}, p ∈ ps ++ qs ↔ p ∈ qs ++ ps := by
    intro p
    simp only [List.mem_append, or_comm]
  have fits' : ∀ p ∈ qs ++ ps, p.stop ≤ memory.cells.size := fun p member => fits p (swap.2 member)
  have apart' : (qs ++ ps).Pairwise Apart :=
    (List.pairwise_append_comm fun h => h.symm).1 apart
  -- the memory is compared cell by cell
  have cells_eq : (writeAll memory (ps ++ qs)).cells = (writeAll memory (qs ++ ps)).cells := by
    apply Array.ext_getElem?
    intro i
    by_cases covered : ∃ p ∈ ps ++ qs, p.Covers i
    · obtain ⟨p, member, covers⟩ := covered
      rw [getElem?_writeAll_of_mem fits apart member covers,
          getElem?_writeAll_of_mem fits' apart' (swap.1 member) covers]
    · have uncovered : ∀ p ∈ ps ++ qs, ¬p.Covers i := fun p member covers =>
        covered ⟨p, member, covers⟩
      rw [getElem?_writeAll_of_uncovered fits uncovered,
          getElem?_writeAll_of_uncovered fits' fun p member => uncovered p (swap.2 member)]
  exact congrArg Memory.mk cells_eq

/-! ## §3. References handed out to two blocks. -/

/-- The addresses that wait for a label, in ascending order. -/
def opened (size : Nat) (ps : List Placement) : List Nat :=
  (List.range size).filter fun i => ps.any fun p => decide (p.Opens i)

/-- **It does not matter which references are handed out first**, those of the one block or those of
the other. -/
def Interchangeable (labels : LabelTable) (size : Nat) (ps qs : List Placement) : Prop :=
  handOut labels (opened size (ps ++ qs)) (references ps ++ references qs) =
    handOut labels (opened size (ps ++ qs)) (references qs ++ references ps)

instance (labels : LabelTable) (size : Nat) (ps qs : List Placement) :
    Decidable (Interchangeable labels size ps qs) :=
  inferInstanceAs (Decidable (_ = _))

theorem interchangeable_comm {labels others : LabelTable} {size : Nat} {ps qs : List Placement}
    (same : ∀ label, labels.find? label = others.find? label) :
    Interchangeable labels size ps qs ↔ Interchangeable others size qs ps := by
  have opened_eq : opened size (ps ++ qs) = opened size (qs ++ ps) := by
    unfold opened
    apply List.filter_congr
    intro i _
    rw [List.any_append, List.any_append, Bool.or_comm]
  unfold Interchangeable
  rw [handOut_congr same, handOut_congr same, opened_eq]
  exact eq_comm

section Image

variable {size : Nat} {ps : List Placement}

/-- If no other cell looks like one, the placeholders are the cells that wait for a label. -/
theorem getElem?_render_eq_placeholder (ascends : Ascending 0 ps) (shaped : ∀ p ∈ ps, p.Shaped)
    (quiet : ∀ p ∈ ps, placeholder ∉ p.fixed) {i : Nat} (inside : i < size) :
    (render Placement.stored size 0 ps)[i]? = some (placeholder : Int) ↔ ∃ p ∈ ps, p.Opens i := by
  have fills : ∀ p ∈ ps, p.stored.length = p.encoding.cells.length := fun p _ => p.length_stored
  have length_fixed : ∀ p : Placement, (Assembler.asStored p.fixed).length = p.fixed.length := by
    intro p
    simp [Assembler.asStored]
  constructor
  · intro found
    by_cases covered : ∃ p ∈ ps, p.Covers i
    · obtain ⟨p, member, covers⟩ := covered
      refine ⟨p, member, ?_, covers.2⟩
      refine Nat.le_of_not_lt fun early => ?_
      -- a cell before the open ones is a fixed one
      have spelled : (render Placement.stored size 0 ps)[i - 0]? = _ :=
        getElem?_render_of_mem ascends fills member covers
      have begins := covers.1
      rw [Nat.sub_zero, found, Placement.stored_eq (shaped p member),
          List.getElem?_append_left (by rw [length_fixed]; omega)] at spelled
      obtain ⟨n, among, same⟩ := List.mem_map.1 (List.mem_of_getElem? spelled.symm)
      exact quiet p member (Int.ofNat.inj same ▸ among)
    · have uncovered : ∀ p ∈ ps, ¬p.Covers i := fun p member covers => covered ⟨p, member, covers⟩
      have spelled : (render Placement.stored size 0 ps)[i - 0]? = _ :=
        getElem?_render_of_uncovered ascends fills (Nat.zero_le i) inside uncovered
      rw [Nat.sub_zero, found] at spelled
      exact absurd (Option.some.inj spelled) (by decide)
  · intro opens
    obtain ⟨p, member, begins, ends⟩ := opens
    have covers : p.Covers i := ⟨by omega, ends⟩
    have spelled : (render Placement.stored size 0 ps)[i - 0]? = _ :=
      getElem?_render_of_mem ascends fills member covers
    have length_eq := Placement.length_cells (shaped p member)
    have waits : i - p.address - p.fixed.length < p.waiting := by
      unfold Placement.stop at ends
      omega
    rw [Nat.sub_zero] at spelled
    rw [spelled, Placement.stored_eq (shaped p member),
        List.getElem?_append_right (by rw [length_fixed]; omega), length_fixed,
        List.getElem?_replicate, if_pos waits]

theorem holes_render (ascends : Ascending 0 ps) (fits : ∀ p ∈ ps, p.stop ≤ size)
    (shaped : ∀ p ∈ ps, p.Shaped) (quiet : ∀ p ∈ ps, placeholder ∉ p.fixed) :
    Linking.holes 0 (render Placement.stored size 0 ps) = opened size ps := by
  have length_eq : (render Placement.stored size 0 ps).length = size - 0 :=
    length_render ascends (Nat.zero_le size) fits fun p _ => p.length_stored
  unfold opened
  rw [Linking.holes_eq_filter, length_eq, Nat.sub_zero, ← List.range_eq_range']
  apply List.filter_congr
  intro i member
  have inside : i < size := List.mem_range.1 member
  rw [Nat.sub_zero, Bool.eq_iff_iff, beq_iff_eq,
      getElem?_render_eq_placeholder ascends shaped quiet inside]
  simp

end Image

/-- Without flexible jumps, no reference is flexible. -/
theorem rigid_references {ps : List Placement}
    (rigid : ∀ p ∈ ps, p.mnemonic = "JMP" → p.encoding.label = none) :
    Linking.Rigid (references ps) := by
  intro reference member flexible
  -- a flexible reference would be that of a flexible jump with a label
  obtain ⟨p, placed, noted⟩ := List.mem_filterMap.1 member
  obtain ⟨label, labelled, rfl⟩ := Option.map_eq_some_iff.1 noted
  have named : p.mnemonic = "JMP" := LinkKind.eq_of_ofMnemonic?_flexible flexible
  rw [rigid p placed named] at labelled
  exact absurd labelled (by simp)

theorem references_append (ps qs : List Placement) :
    references (ps ++ qs) = references ps ++ references qs := List.filterMap_append

/-- Linking a memory with just as many placeholders as the references of some placements need. -/
theorem link_eq_handOut {cells : List Int} {ps : List Placement} {a s : Assembler}
    (shaped : ∀ p ∈ ps, p.Shaped)
    (rigid : ∀ p ∈ ps, p.mnemonic = "JMP" → p.encoding.label = none)
    (cells_eq : a.memory.cells.toList = cells) (references_eq : a.references = references ps)
    (tight : cells.count (placeholder : Int) = Linking.room (references ps))
    (links : Assembler.link a = .ok () s) :
    (handOut a.labels (Linking.holes 0 cells) (references ps)).length
        = cells.count (placeholder : Int) ∧
      s.labels = a.labels ∧
      s.memory.cells.toList =
        Linking.fillIn cells (handOut a.labels (Linking.holes 0 cells) (references ps)) := by
  subst cells_eq
  rw [← references_eq] at tight ⊢
  refine Assembler.link_eq_fillIn ?_ ?_ tight links
  · rw [references_eq]
    exact known_references shaped
  · rw [references_eq]
    exact rigid_references rigid

/-- **Two states with the same cells and labels but the references of two blocks in either order.**
If linking succeeds for both, it gives the same memory exactly if the references are
interchangeable. -/
theorem memory_eq_iff_interchangeable {size : Nat} {ps qs : List Placement} {a b s t : Assembler}
    (ascends : Ascending 0 (ps ++ qs)) (shaped : ∀ p ∈ ps ++ qs, p.Shaped)
    (fits : ∀ p ∈ ps ++ qs, p.stop ≤ size)
    (rigid : ∀ p ∈ ps ++ qs, p.mnemonic = "JMP" → p.encoding.label = none)
    (memory : a.memory = writeAll (Memory.blank size) (ps ++ qs)) (same : b.memory = a.memory)
    (references_a : a.references = references (ps ++ qs))
    (references_b : b.references = references (qs ++ ps))
    (labels : ∀ label, a.labels.find? label = b.labels.find? label)
    (links_a : Assembler.link a = .ok () s) (links_b : Assembler.link b = .ok () t) :
    s.labels = a.labels ∧ t.labels = b.labels ∧
      (s.memory = t.memory ↔ Interchangeable a.labels size ps qs) := by
  have cells_eq : a.memory.cells.toList = render Placement.stored size 0 (ps ++ qs) := by
    rw [memory]
    exact toList_writeAll_eq_render ascends fits
  have swap : ∀ p ∈ qs ++ ps, p ∈ ps ++ qs := by
    intro p member
    rw [List.mem_append] at member ⊢
    exact member.symm
  -- the search for the references in ascending order leaves no room to spare, and so neither does
  -- the other, whose references need as much
  obtain ⟨linking, searched, _⟩ := Assembler.link_eq_ok links_a
  rw [cells_eq] at searched
  obtain ⟨quiet, tight⟩ := quiet_of_scan shaped (by exact references_a) searched
  have room_swap : Linking.room (references (ps ++ qs)) = Linking.room (references (qs ++ ps)) := by
    simp only [Linking.room, references_append, List.map_append, List.sum_append_nat]
    omega
  obtain ⟨length_a, labels_a, memory_a⟩ :=
    link_eq_handOut shaped rigid cells_eq references_a tight links_a
  obtain ⟨length_b, labels_b, memory_b⟩ :=
    link_eq_handOut (fun p member => shaped p (swap p member))
      (fun p member => rigid p (swap p member)) (by rw [same, cells_eq]) references_b
      (tight.trans room_swap) links_b
  refine ⟨labels_a, labels_b, ?_⟩
  rw [← handOut_congr labels] at length_b memory_b
  -- the memories differ only in what was handed out
  have compared : s.memory = t.memory ↔ s.memory.cells.toList = t.memory.cells.toList := by
    refine ⟨fun h => by rw [h], fun h => ?_⟩
    exact congrArg Memory.mk (Array.toList_inj.1 h)
  rw [compared, memory_a, memory_b, Linking.fillIn_inj length_a length_b,
      holes_render ascends fits shaped quiet, references_append, references_append]
  rfl

end Layout

/-! ## §4. Programs of two blocks. -/

namespace Layout

/-- What two blocks leave behind in either order. -/
theorem leaves_swap {size : Nat} {bodies others : List Body} {a b : Assembler}
    (block : IsBlock bodies) (block' : IsBlock others)
    (leaves : Leaves size (bodies ++ others) a) (leaves' : Leaves size (others ++ bodies) b) :
    placements (bodies ++ others) = placements bodies ++ placements others ∧
      placements (others ++ bodies) = placements others ++ placements bodies ∧
      ∀ label, a.labels.find? label = b.labels.find? label := by
  obtain ⟨accepted, accepted'⟩ := (accepted_append (isEnd_of_isBlock block)).1 leaves.accepted
  have placed : ∀ counter address, placed? (counter, .goTo address) = none := fun _ _ => rfl
  have defined : ∀ counter address, defined? (counter, .goTo address) = none := fun _ _ => rfl
  refine ⟨filterMap_timeline_append placed block block' accepted',
    filterMap_timeline_append placed block' block accepted, ?_⟩
  have definitions_eq : definitions (bodies ++ others) = definitions bodies ++ definitions others :=
    filterMap_timeline_append defined block block' accepted'
  have definitions_eq' : definitions (others ++ bodies) =
      definitions others ++ definitions bodies :=
    filterMap_timeline_append defined block' block accepted
  intro label
  -- a label is found where it was defined, in whichever block
  apply Option.ext
  intro address
  rw [leaves.labels, leaves'.labels, definitions_eq, definitions_eq']
  simp only [List.mem_append, or_comm]

/-- Blocks of which the first lies before the second, linked in either order. -/
theorem memory_eq_iff_of_ascending {size : Nat} {bodies others : List Body} {a b s t : Assembler}
    (block : IsBlock bodies) (block' : IsBlock others)
    (ascends : Ascending 0 (placements bodies ++ placements others))
    (rigid : ∀ p ∈ placements bodies ++ placements others, p.mnemonic = "JMP" →
      p.encoding.label = none)
    (leaves : Leaves size (bodies ++ others) a) (leaves' : Leaves size (others ++ bodies) b)
    (links : Assembler.link a = .ok () s) (links' : Assembler.link b = .ok () t) :
    s.labels = a.labels ∧ t.labels = b.labels ∧
      (s.memory = t.memory ↔
        Interchangeable a.labels size (placements bodies) (placements others)) := by
  obtain ⟨placed, placed', labels⟩ := leaves_swap block block' leaves leaves'
  have shaped : ∀ p ∈ placements bodies ++ placements others, p.Shaped := by
    rw [← placed]
    exact fun _ => shaped_of_mem_placements
  have fits : ∀ p ∈ placements bodies ++ placements others, p.stop ≤ size := placed ▸ leaves.fits
  have memory := leaves.memory
  have memory' := leaves'.memory
  rw [placed] at memory
  rw [placed'] at memory'
  have same : b.memory = a.memory := by
    rw [memory, memory']
    refine (writeAll_comm ?_ ascends.pairwise).symm
    intro p member
    have := fits p member
    simpa [Memory.blank] using this
  exact memory_eq_iff_interchangeable ascends shaped fits rigid memory same
    (placed ▸ leaves.references) (placed' ▸ leaves'.references) labels links links'

end Layout

/-- **Two blocks in either order.**  Let two lists of lines be blocks that place nothing at the same
address and have no flexible jump to a label.  If the program is built in both orders, its labels
are the same.  Its memory is the same exactly if it does not matter which block's references are
handed out first. -/
theorem blocks_commute_iff {size : Nat} {lines others : List String}
    {program program' : List Statement} {s t : Assembler}
    (plain : ∀ line ∈ lines, '\n' ∉ line.toList) (plain' : ∀ line ∈ others, '\n' ∉ line.toList)
    (read : Statement.parse (Source.lines (Source.join lines)) = .ok program)
    (read' : Statement.parse (Source.lines (Source.join others)) = .ok program')
    (block : Layout.IsBlock (Statement.bodies program))
    (block' : Layout.IsBlock (Statement.bodies program'))
    (disjoint : Layout.Disjoint (Layout.placements (Statement.bodies program))
      (Layout.placements (Statement.bodies program')))
    (rigid : ∀ p ∈ Layout.placements (Statement.bodies program)
        ++ Layout.placements (Statement.bodies program'),
      p.mnemonic = "JMP" → p.encoding.label = none)
    (built : Assembler.build (Source.join (lines ++ others)) (Assembler.ofSize size) = .ok () s)
    (built' : Assembler.build (Source.join (others ++ lines)) (Assembler.ofSize size) = .ok () t) :
    (∀ label, s.labels.find? label = t.labels.find? label) ∧
      (s.memory = t.memory ↔
        Layout.Interchangeable s.labels size (Layout.placements (Statement.bodies program))
          (Layout.placements (Statement.bodies program'))) := by
  obtain ⟨whole, a, parsed, assembled, links⟩ := Assembler.build_eq_ok built
  obtain ⟨whole', b, parsed', assembled', links'⟩ := Assembler.build_eq_ok built'
  have leaves := Layout.leaves_of_assemble assembled
  have leaves' := Layout.leaves_of_assemble assembled'
  rw [Statement.bodies_join_append plain plain' read read' parsed] at leaves
  rw [Statement.bodies_join_append plain' plain read' read parsed'] at leaves'
  obtain ⟨accepted, accepted'⟩ :=
    (Layout.accepted_append (Layout.isEnd_of_isBlock block)).1 leaves.accepted
  obtain ⟨_, _, labels⟩ := Layout.leaves_swap block block' leaves leaves'
  rcases Layout.ascending_or_of_disjoint block block' accepted accepted' disjoint with
    first | second
  · obtain ⟨labels_s, labels_t, memories⟩ :=
      Layout.memory_eq_iff_of_ascending block block' first rigid leaves leaves' links links'
    rw [labels_s, labels_t]
    exact ⟨labels, memories⟩
  · -- the second block lies before the first: the same with the programs exchanged
    obtain ⟨labels_t, labels_s, memories⟩ :=
      Layout.memory_eq_iff_of_ascending block' block second
        (fun p member => rigid p (List.mem_append.2 (List.mem_append.1 member).symm))
        leaves' leaves links' links
    rw [labels_s, labels_t, Layout.interchangeable_comm labels, ← memories]
    exact ⟨labels, eq_comm⟩

/-- A block with a long jump to the other. -/
def vectorBlock : List String := ["ORG 0", "LJMP MAIN"]

/-- A block with a long jump to itself. -/
def mainBlock : List String := ["ORG 8", "MAIN:", "LJMP MAIN"]

/-- The state after both were built, with the counter behind the last of them. -/
def vectorLinked (counter : Int) : Assembler where
  memory := ⟨#[0x02, 0x00, 0x08, -1, -1, -1, -1, -1, 0x02, 0x00, 0x08, -1]⟩
  counter := counter
  labels := ⟨[("MAIN", 8)]⟩
  references := [⟨"LJMP", "MAIN"⟩, ⟨"LJMP", "MAIN"⟩]

/-- Long jumps to the same label are interchangeable. -/
theorem blocks_commute_same_target :
    Assembler.build (Source.join (vectorBlock ++ mainBlock)) (Assembler.ofSize 12)
        = .ok () (vectorLinked 11) ∧
      Assembler.build (Source.join (mainBlock ++ vectorBlock)) (Assembler.ofSize 12)
        = .ok () (vectorLinked 3) ∧
      (vectorLinked 11).memory = (vectorLinked 3).memory := by
  have read : Statement.parse (Source.lines (Source.join vectorBlock))
      = .ok [⟨1, .operation "ORG" ["0"]⟩, ⟨2, .operation "LJMP" ["MAIN"]⟩] := by decide +kernel
  have read' : Statement.parse (Source.lines (Source.join mainBlock))
      = .ok [⟨1, .operation "ORG" ["8"]⟩, ⟨2, .label "MAIN"⟩, ⟨3, .operation "LJMP" ["MAIN"]⟩] := by
    decide +kernel
  have built : Assembler.build (Source.join (vectorBlock ++ mainBlock)) (Assembler.ofSize 12)
      = .ok () (vectorLinked 11) := by decide +kernel
  have built' : Assembler.build (Source.join (mainBlock ++ vectorBlock)) (Assembler.ofSize 12)
      = .ok () (vectorLinked 3) := by decide +kernel
  obtain ⟨_, memories⟩ := blocks_commute_iff (by decide) (by decide) read read' (by decide +kernel)
    (by decide +kernel) (Layout.disjoint_of_apart (by decide +kernel)) (by decide +kernel)
      built built'
  exact ⟨built, built', memories.2 (by decide +kernel)⟩

/-! ## §5. Blocks that do not commute. -/

/-- A short branch to a label. -/
def branchAt (address : Nat) (label : String) : Placement :=
  ⟨address, "SJMP", ⟨[0x80, placeholder], some ⟨"SJMP", label⟩, true⟩⟩

theorem shaped_branchAt (address : Nat) (label : String) : (branchAt address label).Shaped :=
  Encoding.shaped_of_label_some (show LinkKind.ofMnemonic? "SJMP" = some .relative from rfl) [0x80]
    label true (by decide) (by simp)

theorem settles_branchAt {labels : LabelTable} {label : String} {target : Int}
    (found : labels.find? label = some target) (address : Nat) :
    (branchAt address label).Settles labels := by
  intro other same
  obtain rfl := Option.some.inj same
  exact ⟨.relative, target, rfl, found, rfl⟩

theorem linked_branchAt {labels : LabelTable} {label : String} {target : Int}
    (found : labels.find? label = some target) (address : Nat) :
    ((branchAt address label).linked labels)[1]? =
      some (offsetCell (target - (branchAt address label).stop)) :=
  (Placement.last_of_relative (shaped_branchAt address label) rfl found rfl).2

/-- Two short branches can be linked to any labels. -/
theorem linkable_branches {labels : LabelTable} {near far : String} {target target' : Int}
    (found : labels.find? near = some target) (found' : labels.find? far = some target') :
    Layout.Linkable labels 65536 [branchAt 0 near, branchAt 10 far] where
  ascends := by
    refine ⟨Nat.le_refl 0, ?_, trivial⟩
    show 0 + 2 ≤ 10
    omega
  fits := by
    intro p member
    simp only [List.mem_cons, List.not_mem_nil, or_false] at member
    rcases member with rfl | rfl
    · show 0 + 2 ≤ 65536
      omega
    · show 10 + 2 ≤ 65536
      omega
  shaped := by simp [shaped_branchAt]
  quiet := by
    have quiet_branch : ∀ address label, placeholder ∉ (branchAt address label).fixed := by
      intro address label
      show placeholder ∉ [0x80]
      decide
    simp [quiet_branch]
  settles := by simp [settles_branchAt found, settles_branchAt found']

/-- Two short branches in memory are linked to the labels of the references, whichever these are. -/
theorem link_branches {a : Assembler} {near far : String} {target target' : Int}
    (memory : a.memory = Layout.writeAll (Memory.blank 65536) [branchAt 0 near, branchAt 10 far])
    (references_eq : a.references = [⟨"SJMP", near⟩, ⟨"SJMP", far⟩])
    (found : a.labels.find? near = some target) (found' : a.labels.find? far = some target') :
    ∃ s, Assembler.link a = .ok () s ∧ s.memory.cells[1]? = some (offsetCell (target - 2)) := by
  have ready := linkable_branches found found'
  have cells_eq : a.memory.cells.toList =
      Layout.render Placement.stored 65536 0 [branchAt 0 near, branchAt 10 far] := by
    rw [memory]
    exact Layout.toList_writeAll_eq_render ready.ascends ready.fits
  have covers : (branchAt 0 near).Covers 1 := by
    unfold Placement.Covers
    show 0 ≤ 1 ∧ 1 < 0 + 2
    omega
  refine ⟨_, Layout.link_of_linkable ready cells_eq references_eq, ?_⟩
  exact (Layout.getElem?_linkedMemory_of_mem ready List.mem_cons_self covers).trans
    (linked_branchAt found 0)

/-- A block at address zero that branches to itself. -/
def lowBlock : List String := ["ORG 0", "L0:", "SJMP L0"]

/-- A block above it that branches to itself. -/
def highBlock : List String := ["ORG 10", "L1:", "SJMP L1"]

/-- The statements of the block at address zero, and behind it those of the other. -/
def lowHighProgram : List Statement :=
  [⟨1, .operation "ORG" ["0"]⟩, ⟨2, .label "L0"⟩, ⟨3, .operation "SJMP" ["L0"]⟩,
   ⟨4, .operation "ORG" ["10"]⟩, ⟨5, .label "L1"⟩, ⟨6, .operation "SJMP" ["L1"]⟩]

/-- The same blocks in the other order. -/
def highLowProgram : List Statement :=
  [⟨1, .operation "ORG" ["10"]⟩, ⟨2, .label "L1"⟩, ⟨3, .operation "SJMP" ["L1"]⟩,
   ⟨4, .operation "ORG" ["0"]⟩, ⟨5, .label "L0"⟩, ⟨6, .operation "SJMP" ["L0"]⟩]

/-- **The order of the blocks decides where they branch to.**  Both orders are built, but only in
one of them does the block at address zero branch to itself; in the other it branches to the block
above. -/
theorem blocks_exchange_targets :
    (Statement.parse (Source.lines (Source.join lowBlock)) = .ok (lowHighProgram.take 3) ∧
      Layout.IsBlock (Statement.bodies (lowHighProgram.take 3))) ∧
    (Statement.parse (Source.lines (Source.join highBlock)) = .ok (highLowProgram.take 3) ∧
      Layout.IsBlock (Statement.bodies (highLowProgram.take 3))) ∧
    Layout.Disjoint (Layout.placements (Statement.bodies (lowHighProgram.take 3)))
      (Layout.placements (Statement.bodies (highLowProgram.take 3))) ∧
    (∀ p ∈ Layout.placements (Statement.bodies lowHighProgram), p.mnemonic ≠ "JMP") ∧
    ∃ s t, Assembler.build (Source.join (lowBlock ++ highBlock)) Assembler.fresh = .ok () s ∧
      Assembler.build (Source.join (highBlock ++ lowBlock)) Assembler.fresh = .ok () t ∧
      s.memory.cells[1]? = some 0xFE ∧ t.memory.cells[1]? = some 0x08 := by
  have parsed : Statement.parse (Source.lines (Source.join (lowBlock ++ highBlock)))
      = .ok lowHighProgram := by decide +kernel
  have parsed' : Statement.parse (Source.lines (Source.join (highBlock ++ lowBlock)))
      = .ok highLowProgram := by decide +kernel
  obtain ⟨a, assembled⟩ : ∃ a, Assembler.assemble lowHighProgram (Assembler.ofSize 65536) =
      .ok () a :=
    Layout.assemble_of_accepted (by decide) (by decide +kernel) (by decide +kernel)
      (by decide +kernel)
  obtain ⟨b, assembled'⟩ : ∃ b, Assembler.assemble highLowProgram (Assembler.ofSize 65536) =
      .ok () b :=
    Layout.assemble_of_accepted (by decide) (by decide +kernel) (by decide +kernel)
      (by decide +kernel)
  have leaves := Layout.leaves_of_assemble assembled
  have leaves' := Layout.leaves_of_assemble assembled'
  have placed : Layout.placements (Statement.bodies lowHighProgram)
      = [branchAt 0 "L0", branchAt 10 "L1"] := by decide +kernel
  have placed' : Layout.placements (Statement.bodies highLowProgram)
      = [branchAt 10 "L1"] ++ [branchAt 0 "L0"] := by decide +kernel
  -- the cells are the same in both orders, whichever label they wait for
  have memory' : b.memory
      = Layout.writeAll (Memory.blank 65536) [branchAt 0 "L1", branchAt 10 "L0"] := by
    rw [leaves'.memory, placed', Layout.writeAll_comm]
    · rfl
    · intro p member
      have := leaves'.fits p (placed' ▸ member)
      simpa [Memory.blank] using this
    · decide
  obtain ⟨s, links, cell⟩ := link_branches (leaves.memory.trans (by rw [placed]))
    (leaves.references.trans (by rw [placed]; rfl))
    ((leaves.labels "L0" 0).2 ⟨0, by decide +kernel, rfl⟩)
    ((leaves.labels "L1" 10).2 ⟨10, by decide +kernel, rfl⟩)
  obtain ⟨t, links', cell'⟩ := link_branches memory'
    (leaves'.references.trans (by rw [placed']; rfl))
    ((leaves'.labels "L1" 10).2 ⟨10, by decide +kernel, rfl⟩)
    ((leaves'.labels "L0" 0).2 ⟨0, by decide +kernel, rfl⟩)
  refine ⟨by decide +kernel, by decide +kernel, Layout.disjoint_of_apart (by decide +kernel),
    by decide +kernel, s, t, ?_, ?_, cell, cell'⟩
  · exact (Assembler.build_eq_link parsed assembled).trans links
  · exact (Assembler.build_eq_link parsed' assembled').trans links'

end Mcs51
