/-
  Mcs51.Proofs.Resolution — linking gives every instruction its own label.

  References are noted in the order of the source, but found again in the order of addresses, by the
  content of cells alone.  As long as origins only go forward the two orders are the same, and as
  long as no other cell looks like a placeholder nothing else is found.

  Main definitions:
    * `Layout.Forward`, `Layout.Quiet` : the two conditions;
    * `Layout.Linkable` : what they are needed for;
    * `Placement.Resolved` : an instruction in memory whose label has been filled in.

  Main statements:
    * `link_resolves_own_labels` : under both conditions each instruction is resolved against its
      own label and its own address, and no other cell changes;
    * `link_keeps_fixed_cells_iff` : without flexible jumps, the second condition is necessary too.
-/
import Mcs51.Program
import Mcs51.Proofs.Scan

namespace Mcs51

/-! ## §1. Conditions on a program. -/

/-- Does the action not move the counter back? -/
def Action.Advances (counter : Nat) : Action → Prop
  | .goTo address => counter ≤ address
  | _ => True

instance (counter : Nat) (action : Action) : Decidable (action.Advances counter) :=
  match action with
  | .define _ => inferInstanceAs (Decidable True)
  | .goTo _ => inferInstanceAs (Decidable (_ ≤ _))
  | .emit _ _ => inferInstanceAs (Decidable True)

namespace Layout

/-- No origin that is carried out lies before the counter. -/
def Forward (bodies : List Body) : Prop :=
  ∀ moment ∈ timeline bodies, moment.2.Advances moment.1

/-- No cell but those that wait for a label holds a placeholder. -/
def Quiet (bodies : List Body) : Prop :=
  ∀ p ∈ placements bodies, placeholder ∉ p.fixed

instance (bodies : List Body) : Decidable (Forward bodies) :=
  inferInstanceAs (Decidable (∀ moment ∈ timeline bodies, _))

instance (bodies : List Body) : Decidable (Quiet bodies) :=
  inferInstanceAs (Decidable (∀ p ∈ placements bodies, _))

theorem Forward.ascending {bodies : List Body} (forward : Forward bodies) :
    Ascending 0 (placements bodies) :=
  ascending_of_forward fun counter address moment => forward (counter, .goTo address) moment

end Layout

/-! ## §2. Linked memories. -/

namespace Layout

/-- The memory that holds the placements with their labels filled in. -/
def linkedMemory (labels : LabelTable) (size : Nat) (ps : List Placement) : Memory :=
  ⟨(render (Placement.linked labels) size 0 ps).toArray⟩

/-- **Placements that linking can deal with one by one**: they ascend, they lie in the memory,
nothing but their open cells looks like a placeholder, and each has a label that can be filled
in. -/
structure Linkable (labels : LabelTable) (size : Nat) (ps : List Placement) : Prop where
  ascends : Ascending 0 ps
  fits : ∀ p ∈ ps, p.stop ≤ size
  shaped : ∀ p ∈ ps, p.Shaped
  quiet : ∀ p ∈ ps, placeholder ∉ p.fixed
  settles : ∀ p ∈ ps, p.Settles labels

/-- Linking a memory of such placements fills in the label of each.  The references may come from
elsewhere, as long as they are those of the placements. -/
theorem link_of_linkable {size : Nat} {ps : List Placement} {s : Assembler}
    (ready : Linkable s.labels size ps)
    (cells_eq : s.memory.cells.toList = render Placement.stored size 0 ps)
    (references_eq : s.references = references ps) :
    Assembler.link s = .ok () { s with memory := linkedMemory s.labels size ps } := by
  have searched : Linking.scan 0 (render Placement.stored size 0 ps)
      ⟨#[], s.labels, references ps⟩ = _ :=
    Linking.scan_render ready.ascends ready.shaped ready.quiet ready.settles rfl
  have done_eq : (#[] : Array Int) ++ render (Placement.linked s.labels) size 0 ps
      = (render (Placement.linked s.labels) size 0 ps).toArray :=
    Array.toList_inj.1 (by simp)
  unfold Assembler.link
  rw [cells_eq, references_eq, searched, done_eq]
  simp only [Assembler.withLinking, ← references_eq]
  rfl

section LinkedMemory

variable {labels : LabelTable} {size : Nat} {ps : List Placement}

/-- Filling in a label does not change the length of an instruction. -/
theorem Linkable.fills (ready : Linkable labels size ps) :
    ∀ p ∈ ps, (p.linked labels).length = p.encoding.cells.length :=
  fun p member => Placement.length_linked (ready.shaped p member) (ready.settles p member)

theorem size_linkedMemory (ready : Linkable labels size ps) :
    (linkedMemory labels size ps).cells.size = size := by
  have := length_render ready.ascends (Nat.zero_le size) ready.fits ready.fills
  simpa [linkedMemory] using this

/-- The cells of an instruction, wherever placements are spelled out. -/
theorem take_drop_render {cellsOf : Placement → List Int} (ascends : Ascending 0 ps)
    (fills : ∀ p ∈ ps, (cellsOf p).length = p.encoding.cells.length)
    {p : Placement} (member : p ∈ ps) :
    ((render cellsOf size 0 ps).drop p.address).take p.encoding.cells.length = cellsOf p := by
  apply List.ext_getElem?
  intro k
  by_cases inside : k < p.encoding.cells.length
  · have covers : p.Covers (p.address + k) := ⟨Nat.le_add_right _ _, Nat.add_lt_add_left inside _⟩
    have spelled : (render cellsOf size 0 ps)[p.address + k - 0]? = _ :=
      getElem?_render_of_mem ascends fills member covers
    rw [Nat.sub_zero, Nat.add_sub_cancel_left] at spelled
    rw [List.getElem?_take_of_lt inside, List.getElem?_drop, spelled]
  · -- behind the instruction both sides have ended
    have short : (((render cellsOf size 0 ps).drop p.address).take p.encoding.cells.length).length
        ≤ p.encoding.cells.length := List.length_take_le _ _
    rw [List.getElem?_eq_none (by omega), List.getElem?_eq_none (by rw [fills p member]; omega)]

theorem getElem?_linkedMemory_of_mem (ready : Linkable labels size ps) {p : Placement}
    (member : p ∈ ps) {i : Nat} (covers : p.Covers i) :
    (linkedMemory labels size ps).cells[i]? = (p.linked labels)[i - p.address]? := by
  rw [← Array.getElem?_toList]
  exact getElem?_render_of_mem ready.ascends ready.fills member covers

/-- Filling in labels changes no cell but those that wait for one. -/
theorem getElem?_linkedMemory_of_closed (ready : Linkable labels size ps)
    {i : Nat} (closed : ∀ p ∈ ps, ¬p.Opens i) :
    (linkedMemory labels size ps).cells[i]? = (writeAll (Memory.blank size) ps).cells[i]? := by
  have fills_stored : ∀ p ∈ ps, p.stored.length = p.encoding.cells.length :=
    fun p _ => p.length_stored
  rw [← Array.getElem?_toList, ← Array.getElem?_toList,
      toList_writeAll_eq_render ready.ascends ready.fits]
  show (render (Placement.linked labels) size 0 ps)[i - 0]?
    = (render Placement.stored size 0 ps)[i - 0]?
  by_cases covered : ∃ p ∈ ps, p.Covers i
  · obtain ⟨p, member, covers⟩ := covered
    -- a covered cell that does not wait stands before the placeholders
    have fixed_cell : i - p.address < p.fixed.length := by
      have := closed p member
      unfold Placement.Opens at this
      unfold Placement.Covers at covers
      omega
    have stored_eq := Placement.stored_eq (ready.shaped p member)
    rw [getElem?_render_of_mem ready.ascends ready.fills member covers,
        getElem?_render_of_mem ready.ascends fills_stored member covers, stored_eq,
        Placement.linked,
        List.getElem?_append_left (by simpa [Assembler.asStored] using fixed_cell),
        List.getElem?_append_left (by simpa [Assembler.asStored] using fixed_cell)]
  · have uncovered : ∀ p ∈ ps, ¬p.Covers i := fun p member covers => covered ⟨p, member, covers⟩
    by_cases inside : i < size
    · rw [getElem?_render_of_uncovered ready.ascends ready.fills (Nat.zero_le i) inside uncovered,
          getElem?_render_of_uncovered ready.ascends fills_stored (Nat.zero_le i) inside uncovered]
    · -- both memories end at the same address
      have linked_length := length_render ready.ascends (Nat.zero_le size) ready.fits ready.fills
      have stored_length := length_render ready.ascends (Nat.zero_le size) ready.fits fills_stored
      rw [List.getElem?_eq_none (by omega), List.getElem?_eq_none (by omega)]

end LinkedMemory

end Layout

/-! ## §3. Resolved instructions. -/

namespace Placement

/-- The cells of a memory where the instruction stands. -/
def cellsIn (memory : Memory) (p : Placement) : List Int :=
  (memory.cells.toList.drop p.address).take p.encoding.cells.length

/-- **The instruction is resolved against a label at the given address.**  A branch by distance
keeps the distance in its last cell, counted from the end of the instruction.  Jumps and calls
consist of nothing but the address: its first three digits of at least eleven, above the code of the
operation, and the rest; or its first eight digits of at least sixteen and the rest, behind the
code. -/
structure Resolved (memory : Memory) (address : Nat) (p : Placement) : Prop where
  relative : p.mnemonic ∈ ["JB", "JNB", "JBC", "JC", "JNC", "JZ", "JNZ", "SJMP", "CJNE", "DJNZ"] →
    memory.cells[p.stop - 1]? = some (distanceCell (address - p.stop))
  jump : p.mnemonic ∈ ["AJMP", "JMP"] →
    p.cellsIn memory = ([32 * Digits.upper 3 11 address + 1, Digits.lower 3 11 address] : List Int)
  call : p.mnemonic = "ACALL" →
    p.cellsIn memory = ([32 * Digits.upper 3 11 address + 17, Digits.lower 3 11 address] : List Int)
  longJump : p.mnemonic = "LJMP" →
    p.cellsIn memory = ([0x02, Digits.upper 8 16 address, Digits.lower 8 16 address] : List Int)
  longCall : p.mnemonic = "LCALL" →
    p.cellsIn memory = ([0x12, Digits.upper 8 16 address, Digits.lower 8 16 address] : List Int)

/-- The label of a jump of flexible size is in the block that the jump leaves from. -/
def JumpsInBlock (labels : LabelTable) (p : Placement) : Prop :=
  p.mnemonic = "JMP" → ∀ label ∈ p.encoding.label, ∀ address ∈ labels.find? label,
    sameBlock p.address address = true

instance (labels : LabelTable) (p : Placement) : Decidable (p.JumpsInBlock labels) :=
  inferInstanceAs (Decidable (_ → ∀ label ∈ p.encoding.label, ∀ address ∈ labels.find? label, _))

/-- An instruction whose label is defined is settled, unless it is a jump to another block. -/
theorem settles_of_defined {labels : LabelTable} {p : Placement} (shaped : p.Shaped)
    (defined : ∀ label, p.encoding.label = some label → (labels.find? label).isSome = true)
    (inBlock : p.JumpsInBlock labels) : p.Settles labels := by
  intro label labelled
  obtain ⟨kind, known⟩ := Option.isSome_iff_exists.1 (shaped.linked label labelled)
  obtain ⟨address, found⟩ := Option.isSome_iff_exists.1 (defined label labelled)
  refine ⟨kind, address, known, found, LinkKind.length_patch ?_⟩
  -- only a flexible jump can be too long, and its placeholders begin with it
  intro flexible
  subst flexible
  have whole : p.fixed = [] := shaped.open_of_absolute label .flexible labelled known (by simp)
  have named : p.mnemonic = "JMP" := LinkKind.eq_of_ofMnemonic?_flexible known
  rw [whole]
  exact inBlock named label labelled address found

section Linked

variable {labels : LabelTable} {p : Placement} {label : String} {kind : LinkKind} {address : Int}

/-- A jump or call consists of nothing but its patch. -/
theorem linked_of_absolute (shaped : p.Shaped) (labelled : p.encoding.label = some label)
    (found : labels.find? label = some address)
    (known : LinkKind.ofMnemonic? p.mnemonic = some kind) (absolute : kind ≠ .relative) :
    p.linked labels = (kind.patch p.address address).cells := by
  have whole : p.fixed = [] := shaped.open_of_absolute label kind labelled known absolute
  simp [linked, patched, labelled, known, found, whole, Assembler.asStored]

/-- A flexible jump that is settled is the one inside the block: the other needs a third cell. -/
theorem linked_of_flexible (shaped : p.Shaped) (settles : p.Settles labels)
    (labelled : p.encoding.label = some label) (found : labels.find? label = some address)
    (known : LinkKind.ofMnemonic? p.mnemonic = some .flexible) :
    p.linked labels = absoluteCells jumpSelector address := by
  have cells := linked_of_absolute shaped labelled found known (by simp)
  have length_eq : (p.linked labels).length = p.encoding.cells.length :=
    length_linked shaped settles
  have two_cells : p.encoding.cells.length = 2 := by
    have whole : p.fixed = [] := shaped.open_of_absolute label .flexible labelled known (by simp)
    rw [length_cells shaped, whole]
    simp [waiting, Encoding.waiting, labelled, known, LinkKind.width]
  rw [cells, two_cells] at length_eq
  rw [cells]
  unfold LinkKind.patch at length_eq ⊢
  dsimp only at length_eq ⊢
  split at length_eq
  next inBlock => rw [if_pos inBlock]
  · exact absurd length_eq (by simp)

/-- A branch by distance ends in the distance from its end to the label. -/
theorem last_of_relative (shaped : p.Shaped) (labelled : p.encoding.label = some label)
    (found : labels.find? label = some address)
    (known : LinkKind.ofMnemonic? p.mnemonic = some .relative) :
    p.stop = p.address + p.fixed.length + 1 ∧
      (p.linked labels)[p.fixed.length]? = some (offsetCell (address - p.stop)) := by
  have waits : p.waiting = 1 := by
    simp [waiting, Encoding.waiting, labelled, known, LinkKind.width]
  have stop_eq : p.stop = p.address + p.fixed.length + 1 := by
    rw [stop, length_cells shaped, waits, Nat.add_assoc]
  refine ⟨stop_eq, ?_⟩
  -- the search counts the distance from the placeholder, which is the last cell
  have distance : address - ((p.address + p.fixed.length : Nat) : Int) - 1 = address - p.stop := by
    rw [stop_eq]
    omega
  simp only [linked, patched, labelled, known, found, LinkKind.patch, distance]
  rw [List.getElem?_append_right (by simp [Assembler.asStored])]
  simp [Assembler.asStored]

end Linked

end Placement

namespace Layout

variable {labels : LabelTable} {size : Nat} {ps : List Placement} {p : Placement}

theorem cellsIn_linkedMemory (ready : Linkable labels size ps) (member : p ∈ ps) :
    p.cellsIn (linkedMemory labels size ps) = p.linked labels :=
  take_drop_render ready.ascends ready.fills member

/-- **Every instruction of a linked memory is resolved against its own label.** -/
theorem resolved_linkedMemory (ready : Linkable labels size ps) (member : p ∈ ps)
    {label : String} {address : Nat} (labelled : p.encoding.label = some label)
    (found : labels.find? label = some (address : Int)) :
    p.Resolved (linkedMemory labels size ps) address := by
  have shaped := ready.shaped p member
  have cells_eq := cellsIn_linkedMemory ready member
  -- all jumps and calls but the flexible one keep the form they have
  have absolute : ∀ {kind : LinkKind}, LinkKind.ofMnemonic? p.mnemonic = some kind →
      kind ≠ .relative →
      p.cellsIn (linkedMemory labels size ps) = (kind.patch p.address address).cells :=
    fun known notRelative =>
      cells_eq.trans (Placement.linked_of_absolute shaped labelled found known notRelative)
  refine ⟨?_, ?_, ?_, ?_, ?_⟩
  · intro branch
    have known : LinkKind.ofMnemonic? p.mnemonic = some .relative := by
      simp only [List.mem_cons, List.not_mem_nil, or_false] at branch
      rcases branch with h | h | h | h | h | h | h | h | h | h <;> rw [h] <;> rfl
    obtain ⟨stop_eq, last⟩ := Placement.last_of_relative shaped labelled found known
    have covers : p.Covers (p.stop - 1) := ⟨by omega, by omega⟩
    rw [getElem?_linkedMemory_of_mem ready member covers,
        show p.stop - 1 - p.address = p.fixed.length by omega, last, offsetCell_eq]
  · intro jump
    have cut : p.cellsIn (linkedMemory labels size ps) = absoluteCells jumpSelector address := by
      simp only [List.mem_cons, List.not_mem_nil, or_false] at jump
      rcases jump with named | named
      · exact absolute (show _ = some (.absolute jumpSelector) by rw [named]; rfl) (by simp)
      · rw [cells_eq]
        exact Placement.linked_of_flexible shaped (ready.settles p member) labelled found
          (by rw [named]; rfl)
    rw [cut, absoluteCells_eq selects_jump]
    push_cast
    rfl
  · intro named
    have cut : p.cellsIn (linkedMemory labels size ps) = absoluteCells callSelector address :=
      absolute (show _ = some (.absolute callSelector) by rw [named]; rfl) (by simp)
    rw [cut, absoluteCells_eq selects_call]
    push_cast
    rfl
  · intro named
    have cut : p.cellsIn (linkedMemory labels size ps) = longCells 0x02 address :=
      absolute (show _ = some (.long 0x02) by rw [named]; rfl) (by simp)
    rw [cut, longCells_eq]
  · intro named
    have cut : p.cellsIn (linkedMemory labels size ps) = longCells 0x12 address :=
      absolute (show _ = some (.long 0x12) by rw [named]; rfl) (by simp)
    rw [cut, longCells_eq]

end Layout

/-! ## §4. Linking a program. -/

namespace Assembler

/-- Building a program that has been read is placing and linking it. -/
theorem build_of_parse {text : String} {program : List Statement}
    (parsed : Statement.parse (Source.lines text) = .ok program) (s : Assembler) :
    build text s = (assemble program >>= fun _ => link) s := by
  have read : readStatements (Source.lines text) s = .ok program s := by
    simp [readStatements, parsed, pure, EStateM.pure]
  show (readStatements (Source.lines text) >>= fun statements =>
    assemble statements >>= fun _ => link) s = _
  rw [bind_of_ok read]

/-- Building a program that has been read and placed is linking it. -/
theorem build_eq_link {text : String} {program : List Statement} {blank s : Assembler}
    (parsed : Statement.parse (Source.lines text) = .ok program)
    (assembled : assemble program blank = .ok () s) : build text blank = link s := by
  rw [build_of_parse parsed, bind_of_ok assembled]

/-- A program that is built was read, placed and linked. -/
theorem build_eq_ok {text : String} {blank final : Assembler}
    (h : build text blank = .ok () final) :
    ∃ program s, Statement.parse (Source.lines text) = .ok program ∧
      assemble program blank = .ok () s ∧ link s = .ok () final := by
  obtain ⟨program, t, read, others⟩ := bind_eq_ok h
  obtain ⟨_, s, assembled, linked⟩ := bind_eq_ok others
  unfold readStatements at read
  cases parsed : Statement.parse (Source.lines text) with
  | error crash =>
    rw [parsed] at read
    exact absurd read (by simp [throw, throwThe, MonadExceptOf.throw, EStateM.throw])
  | ok statements =>
    rw [parsed] at read
    obtain ⟨rfl, rfl⟩ := EStateM.Result.ok.inj read
    exact ⟨_, s, rfl, assembled, linked⟩

end Assembler

section Program

variable {size : Nat} {text : String} {program : List Statement} {s : Assembler}

theorem Layout.Leaves.toList_cells {bodies : List Body} (leaves : Layout.Leaves size bodies s)
    (forward : Layout.Forward bodies) :
    s.memory.cells.toList = Layout.render Placement.stored size 0 (Layout.placements bodies) := by
  rw [leaves.memory]
  exact Layout.toList_writeAll_eq_render forward.ascending leaves.fits

/-- A program under both conditions is linked instruction by instruction, if all labels are defined
and no flexible jump leaves its block. -/
theorem Layout.Leaves.linkable {bodies : List Body} (leaves : Layout.Leaves size bodies s)
    (forward : Layout.Forward bodies) (quiet : Layout.Quiet bodies)
    (defined : ∀ reference ∈ s.references, (s.labels.find? reference.label).isSome = true)
    (inBlock : ∀ p ∈ Layout.placements bodies, p.JumpsInBlock s.labels) :
    Layout.Linkable s.labels size (Layout.placements bodies) := by
  refine ⟨forward.ascending, leaves.fits, fun _ => Layout.shaped_of_mem_placements, quiet, ?_⟩
  intro p member
  refine Placement.settles_of_defined (Layout.shaped_of_mem_placements member) ?_ (inBlock p member)
  -- every label that an instruction refers to is among the references
  intro label labelled
  refine defined ⟨p.mnemonic, label⟩ ?_
  rw [leaves.references]
  exact List.mem_filterMap.2 ⟨p, member, by simp [Placement.reference?, labelled]⟩

/-- One cell too many that looks like a placeholder, and the references are used up too early. -/
theorem link_of_not_quiet {bodies : List Body} (leaves : Layout.Leaves size bodies s)
    (forward : Layout.Forward bodies)
    (defined : ∀ reference ∈ s.references, (s.labels.find? reference.label).isSome = true)
    (loud : ¬Layout.Quiet bodies) :
    ∃ stopped, Assembler.link s = .error (.crashed .unmatchedPlaceholder) stopped := by
  have cells_eq := leaves.toList_cells forward
  have known : Linking.Known s.references := by
    rw [leaves.references]
    exact Layout.known_references fun _ => Layout.shaped_of_mem_placements
  cases searched : Linking.scan 0 s.memory.cells.toList ⟨#[], s.labels, s.references⟩ with
  | ok _ final =>
    -- the search cannot come to its end, since there are too many placeholders
    rw [cells_eq] at searched
    have quiet := (Layout.quiet_of_scan (fun _ => Layout.shaped_of_mem_placements)
      (by exact leaves.references) searched).1
    exact absurd quiet loud
  | error stop final =>
    -- nor can it stop for a label
    obtain rfl := Linking.stop_of_scan (by exact known) (by exact defined) searched
    refine ⟨s.withLinking final, ?_⟩
    unfold Assembler.link
    rw [searched]

/-- **Linking resolves every instruction against its own label and its own address.**  If no origin
goes back, no other cell holds a placeholder, all labels are defined and no flexible jump leaves its
block, then linking succeeds.  It changes nothing but the waiting cells. -/
theorem link_resolves_own_labels
    (parsed : Statement.parse (Source.lines text) = .ok program)
    (assembled : Assembler.assemble program (Assembler.ofSize size) = .ok () s)
    (forward : Layout.Forward (Statement.bodies program))
    (quiet : Layout.Quiet (Statement.bodies program))
    (defined : ∀ reference ∈ s.references, (s.labels.find? reference.label).isSome = true)
    (inBlock : ∀ p ∈ Layout.placements (Statement.bodies program), p.JumpsInBlock s.labels) :
    ∃ linked, Assembler.link s = .ok () linked ∧
      Assembler.build text (Assembler.ofSize size) = .ok () linked ∧
      linked.memory.cells.size = s.memory.cells.size ∧
      linked.labels = s.labels ∧ linked.counter = s.counter ∧ linked.references = s.references ∧
      (∀ i, (∀ p ∈ Layout.placements (Statement.bodies program), ¬p.Opens i) →
        linked.memory.cells[i]? = s.memory.cells[i]?) ∧
      ∀ p ∈ Layout.placements (Statement.bodies program), p.cellsIn s.memory = p.stored ∧
        ∀ label, p.encoding.label = some label → ∃ address : Nat,
          s.labels.find? label = some (address : Int) ∧ p.Resolved linked.memory address := by
  have leaves := Layout.leaves_of_assemble assembled
  have ready := leaves.linkable forward quiet defined inBlock
  have links := Layout.link_of_linkable ready (leaves.toList_cells forward) leaves.references
  have size_eq : s.memory.cells.size = size := by
    rw [leaves.memory, Layout.size_writeAll]
    simp [Memory.blank]
  refine ⟨_, links, (Assembler.build_eq_link parsed assembled).trans links, ?_, rfl, rfl,
    rfl, ?_, ?_⟩
  · rw [size_eq]
    exact Layout.size_linkedMemory ready
  · intro i closed
    rw [leaves.memory]
    exact Layout.getElem?_linkedMemory_of_closed ready closed
  · intro p member
    refine ⟨?_, ?_⟩
    · rw [Placement.cellsIn, leaves.toList_cells forward]
      exact Layout.take_drop_render forward.ascending (fun q _ => q.length_stored) member
    · intro label labelled
      obtain ⟨_, _, _, found, _⟩ := ready.settles p member label labelled
      obtain ⟨address, _, rfl⟩ := (leaves.labels label _).1 found
      exact ⟨address, found, Layout.resolved_linkedMemory ready member labelled found⟩

/-- A program with a gap, a call, a flexible jump back and a branch to itself. -/
def loopSource : String :=
  " ORG 0\n AJMP MAIN\n ORG 6\nMAIN:\n INC A\nLOOP:\n ACALL WAIT\n JMP LOOP\nWAIT:\n"
    ++ " MOV R5,#255\nHERE:\n DJNZ R5,HERE\n RET"

/-- Its statements. -/
def loopProgram : List Statement :=
  [⟨1, .operation "ORG" ["0"]⟩, ⟨2, .operation "AJMP" ["MAIN"]⟩, ⟨3, .operation "ORG" ["6"]⟩,
   ⟨4, .label "MAIN"⟩, ⟨5, .operation "INC" ["A"]⟩, ⟨6, .label "LOOP"⟩,
   ⟨7, .operation "ACALL" ["WAIT"]⟩, ⟨8, .operation "JMP" ["LOOP"]⟩, ⟨9, .label "WAIT"⟩,
   ⟨10, .operation "MOV" ["R5", "#255"]⟩, ⟨11, .label "HERE"⟩,
   ⟨12, .operation "DJNZ" ["R5", "HERE"]⟩, ⟨13, .operation "RET" [""]⟩]

/-- The state after they were placed in a small memory. -/
def loopPlaced : Assembler where
  memory :=
    ⟨#[0xA5, 0xA5, -1, -1, -1, -1, 0x04, 0xA5, 0xA5, 0xA5, 0xA5, 0x7D, 0xFF, 0xDD, 0xA5, 0x22,
    -1, -1]⟩
  counter := 16
  labels := ⟨[("HERE", 13), ("WAIT", 11), ("LOOP", 7), ("MAIN", 6)]⟩
  references := [⟨"AJMP", "MAIN"⟩, ⟨"ACALL", "WAIT"⟩, ⟨"JMP", "LOOP"⟩, ⟨"DJNZ", "HERE"⟩]

/-- Jump, call, flexible jump and branch each have their own label filled in, and nothing else
changes. -/
theorem link_resolves_own_labels_loop :
    Statement.parse (Source.lines loopSource) = .ok loopProgram ∧
      Assembler.assemble loopProgram (Assembler.ofSize 18) = .ok () loopPlaced ∧
      ∃ linked, Assembler.link loopPlaced = .ok () linked ∧ linked.labels = loopPlaced.labels ∧
        linked.memory.cells.toList.take 2 = [0x01, 0x06] ∧
        (linked.memory.cells.toList.drop 7).take 2 = [0x11, 0x0B] ∧
        (linked.memory.cells.toList.drop 9).take 2 = [0x01, 0x07] ∧
        linked.memory.cells[14]? = some 0xFE := by
  have parsed : Statement.parse (Source.lines loopSource) = .ok loopProgram := by decide +kernel
  have assembled : Assembler.assemble loopProgram (Assembler.ofSize 18) = .ok () loopPlaced := by
    decide +kernel
  obtain ⟨linked, links, _, _, labels, _, _, _, resolved⟩ :=
    link_resolves_own_labels parsed assembled (by decide +kernel) (by decide +kernel)
      (by decide +kernel) (by decide +kernel)
  -- the address of a label is the one it was placed at
  have resolve : ∀ {p : Placement}, p ∈ Layout.placements (Statement.bodies loopProgram) →
      ∀ {label : String} {address : Nat}, p.encoding.label = some label →
        loopPlaced.labels.find? label = some (address : Int) →
          p.Resolved linked.memory address := by
    intro p member label address labelled placed
    obtain ⟨other, found, cells⟩ := (resolved p member).2 label labelled
    obtain rfl : other = address := Int.ofNat_inj.1 (Option.some.inj (found.symm.trans placed))
    exact cells
  have jump : (⟨0, "AJMP", ⟨[0xA5, 0xA5], some ⟨"AJMP", "MAIN"⟩, false⟩⟩ : Placement) ∈
      Layout.placements (Statement.bodies loopProgram) := by decide +kernel
  have call : (⟨7, "ACALL", ⟨[0xA5, 0xA5], some ⟨"ACALL", "WAIT"⟩, false⟩⟩ : Placement) ∈
      Layout.placements (Statement.bodies loopProgram) := by decide +kernel
  have back : (⟨9, "JMP", ⟨[0xA5, 0xA5], some ⟨"JMP", "LOOP"⟩, false⟩⟩ : Placement) ∈
      Layout.placements (Statement.bodies loopProgram) := by decide +kernel
  have branch : (⟨13, "DJNZ", ⟨[0xDD, 0xA5], some ⟨"DJNZ", "HERE"⟩, false⟩⟩ : Placement) ∈
      Layout.placements (Statement.bodies loopProgram) := by decide +kernel
  refine ⟨parsed, assembled, linked, links, labels, ?_, ?_, ?_, ?_⟩
  · exact (@resolve _ jump "MAIN" 6 rfl (by decide +kernel)).jump (by decide)
  · exact (@resolve _ call "WAIT" 11 rfl (by decide +kernel)).call rfl
  · exact (@resolve _ back "LOOP" 7 rfl (by decide +kernel)).jump (by decide)
  · exact (@resolve _ branch "HERE" 13 rfl (by decide +kernel)).relative (by decide)

/-- **Linking leaves all other cells alone exactly if none of them looks like a placeholder.**  Let
no origin go back, all labels be defined and no flexible jump occur.  If no other cell holds a
placeholder, linking succeeds and changes waiting cells only.  If one does, linking does not succeed
at all: that cell takes the place of another, and in the end the references are used up. -/
theorem link_keeps_fixed_cells_iff
    (parsed : Statement.parse (Source.lines text) = .ok program)
    (assembled : Assembler.assemble program (Assembler.ofSize size) = .ok () s)
    (forward : Layout.Forward (Statement.bodies program))
    (defined : ∀ reference ∈ s.references, (s.labels.find? reference.label).isSome = true)
    (rigid : ∀ p ∈ Layout.placements (Statement.bodies program),
      p.mnemonic = "JMP" → p.encoding.label = none) :
    ((∃ linked, Assembler.build text (Assembler.ofSize size) = .ok () linked ∧
        ∀ i, (∀ p ∈ Layout.placements (Statement.bodies program), ¬p.Opens i) →
          linked.memory.cells[i]? = s.memory.cells[i]?) ↔
      Layout.Quiet (Statement.bodies program)) ∧
    (¬Layout.Quiet (Statement.bodies program) → ∃ stopped,
      Assembler.build text (Assembler.ofSize size)
        = .error (.crashed .unmatchedPlaceholder) stopped) := by
  have leaves := Layout.leaves_of_assemble assembled
  rw [Assembler.build_eq_link parsed assembled]
  refine ⟨⟨?_, ?_⟩, ?_⟩
  · rintro ⟨linked, links, _⟩
    refine Decidable.byContradiction fun loud => ?_
    obtain ⟨stopped, stops⟩ := link_of_not_quiet leaves forward defined loud
    rw [stops] at links
    exact absurd links (by simp)
  · intro quiet
    -- without flexible jumps none can leave its block
    have inBlock : ∀ p ∈ Layout.placements (Statement.bodies program), p.JumpsInBlock s.labels := by
      intro p member jump label labelled
      rw [rigid p member jump] at labelled
      exact absurd labelled (by simp)
    have ready := leaves.linkable forward quiet defined inBlock
    refine ⟨_, Layout.link_of_linkable ready (leaves.toList_cells forward) leaves.references, ?_⟩
    intro i closed
    rw [leaves.memory]
    exact Layout.getElem?_linkedMemory_of_closed ready closed
  · intro loud
    exact link_of_not_quiet leaves forward defined loud

/-- A bit whose address is one less than a placeholder, and a branch over it. -/
def portSource : String :=
  " JNZ DONE\n SETB P2.4\nDONE:\n RET"

/-- Its statements. -/
def portProgram : List Statement :=
  [⟨1, .operation "JNZ" ["DONE"]⟩, ⟨2, .operation "SETB" ["P2.4"]⟩, ⟨3, .label "DONE"⟩,
   ⟨4, .operation "RET" [""]⟩]

/-- The state after they were placed in a small memory. -/
def portPlaced : Assembler where
  memory := ⟨#[0x70, 0xA5, 0xD2, 0xA4, 0x22, -1]⟩
  counter := 5
  labels := ⟨[("DONE", 4)]⟩
  references := [⟨"JNZ", "DONE"⟩]

/-- The bit operand is left alone. -/
theorem link_keeps_fixed_cells_port :
    Statement.parse (Source.lines portSource) = .ok portProgram ∧
      Assembler.assemble portProgram (Assembler.ofSize 6) = .ok () portPlaced ∧
      ∃ linked, Assembler.build portSource (Assembler.ofSize 6) = .ok () linked ∧
        linked.memory.cells[3]? = some 0xA4 := by
  have parsed : Statement.parse (Source.lines portSource) = .ok portProgram := by decide +kernel
  have assembled : Assembler.assemble portProgram (Assembler.ofSize 6) = .ok () portPlaced := by
    decide +kernel
  have quiet : Layout.Quiet (Statement.bodies portProgram) := by decide +kernel
  have closed : ∀ p ∈ Layout.placements (Statement.bodies portProgram), ¬p.Opens 3 := by
    decide +kernel
  obtain ⟨linked, links, kept⟩ :=
    (link_keeps_fixed_cells_iff parsed assembled (by decide +kernel) (by decide +kernel)
      (by decide +kernel)).1.2 quiet
  exact ⟨parsed, assembled, linked, links, kept 3 closed⟩

/-- **The next bit is taken for a placeholder.**  The only statement is placed, no origin goes back
and no label is referred to, but linking does not succeed. -/
theorem link_stops_at_bit_operand :
    ∃ program s, Statement.parse (Source.lines "SETB P2.5") = .ok program ∧
      Assembler.assemble program Assembler.fresh = .ok () s ∧
      Layout.Forward (Statement.bodies program) ∧ s.references = [] ∧
      ∃ stopped, Assembler.build "SETB P2.5" Assembler.fresh
        = .error (.crashed .unmatchedPlaceholder) stopped := by
  have parsed : Statement.parse (Source.lines "SETB P2.5")
      = .ok [⟨1, .operation "SETB" ["P2.5"]⟩] := by decide +kernel
  obtain ⟨s, assembled⟩ : ∃ s, Assembler.assemble [⟨1, .operation "SETB" ["P2.5"]⟩]
      (Assembler.ofSize 65536) = .ok () s :=
    Layout.assemble_of_accepted (by decide) (by decide +kernel) (by decide +kernel)
      (by decide +kernel)
  have leaves := Layout.leaves_of_assemble assembled
  have no_reference : s.references = [] := by
    rw [leaves.references]
    decide +kernel
  have stops := link_of_not_quiet leaves (by decide +kernel) (by simp [no_reference])
    (by decide +kernel)
  rw [← Assembler.build_eq_link parsed assembled] at stops
  exact ⟨_, s, parsed, assembled, by decide +kernel, no_reference, stops⟩

end Program

end Mcs51
