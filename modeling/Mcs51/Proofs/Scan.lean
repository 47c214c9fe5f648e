/-
  Mcs51.Proofs.Scan — the search for placeholders.

  The search knows nothing of instructions: it takes the next placeholder it meets for the next
  reference.  Two things are shown of it.  Over cells that are spelled out in ascending order it
  meets the instructions in the order of their references, so each is filled in from its own label.
  And over any cells it comes to an end only if there are no more placeholders than the references
  have room for, because every placeholder has to be covered by a patch.

  Main definitions:
    * `Placement.linked`, `Placement.Settles` : an instruction with its label filled in;
    * `Reference.room`, `Linking.room` : the placeholders that references replace.

  Main statements:
    * `Linking.scan_keep`, `Linking.scan_site` : over other cells, and over the placeholders of one
      reference;
    * `Linking.scan_of_addressText` : the look-up of a label;
    * `Linking.scan_render` : over ascending placements;
    * `Linking.count_le_room` : over any cells.
-/
import Mcs51.Proofs.AddressCells
import Mcs51.Proofs.Image

namespace Mcs51

/-! ## §1. Patches. -/

@[simp] theorem length_absoluteCells (selector : List Char) (address : Int) :
    (absoluteCells selector address).length = 2 := rfl

@[simp] theorem length_longCells (opcode address : Int) : (longCells opcode address).length = 3 :=
  rfl

/-- A patch replaces exactly the placeholders of its operation, even if it is longer. -/
@[simp] theorem LinkKind.covers_patch (kind : LinkKind) (position : Nat) (address : Int) :
    (kind.patch position address).covers = kind.width := by
  cases kind with
  | relative | absolute _ | long _ => rfl
  | flexible =>
    unfold LinkKind.patch
    dsimp only
    split <;> rfl

/-- Only the patch of a flexible jump to another block is longer than what it replaces. -/
theorem LinkKind.length_patch {kind : LinkKind} {position : Nat} {address : Int}
    (short : kind = .flexible → sameBlock position address = true) :
    (kind.patch position address).cells.length = kind.width := by
  cases kind with
  | relative | absolute _ | long _ => rfl
  | flexible =>
    unfold LinkKind.patch
    dsimp only
    rw [if_pos (short rfl)]
    rfl

/-- There is only one jump of flexible size. -/
theorem LinkKind.eq_of_ofMnemonic?_flexible {mnemonic : String}
    (h : LinkKind.ofMnemonic? mnemonic = some .flexible) : mnemonic = "JMP" := by
  unfold LinkKind.ofMnemonic? at h
  split at h
  all_goals first
    | rfl
    | exact absurd h (by simp)

namespace Linking

/-! ## §2. Steps of the search. -/

theorem size_appendList (done : Array Int) (cells : List Int) :
    (done ++ cells).size = done.size + cells.length := by
  rw [← Array.length_toList, Array.toList_appendList, List.length_append, Array.length_toList]

theorem appendList_append (done : Array Int) (cells others : List Int) :
    done ++ cells ++ others = done ++ (cells ++ others) :=
  Array.toList_inj.1 (by simp)

theorem keep_keep (linking : Linking) (cells others : List Int) :
    (linking.keep cells).keep others = linking.keep (cells ++ others) := by
  simp [keep, appendList_append]

@[simp] theorem keep_nil (linking : Linking) : linking.keep [] = linking := by
  simp [keep]

/-- Cells that a patch has covered are passed over. -/
theorem scan_covered (cells ahead : List Int) (linking : Linking) :
    scan cells.length (cells ++ ahead) linking = scan 0 ahead linking := by
  induction cells with
  | nil => rfl
  | cons cell rest ih => exact ih

/-- Cells that are no placeholders are kept. -/
theorem scan_keep {cells : List Int} (quiet : ∀ cell ∈ cells, cell ≠ (placeholder : Int))
    (ahead : List Int) (linking : Linking) :
    scan 0 (cells ++ ahead) linking = scan 0 ahead (linking.keep cells) := by
  induction cells generalizing linking with
  | nil => simp
  | cons cell rest ih =>
    have here : cell ≠ (placeholder : Int) := quiet cell List.mem_cons_self
    rw [List.cons_append, scan, if_pos here,
        ih (fun other member => quiet other (List.mem_cons_of_mem cell member)), keep_keep]
    rfl

/-- A placeholder is taken for the next reference, and the search goes on behind its patch. -/
theorem scan_cons_placeholder (linking : Linking) {reference : Reference} {pending : List Reference}
    {kind : LinkKind} {address : Int} (next : linking.pending = reference :: pending)
    (known : LinkKind.ofMnemonic? reference.mnemonic = some kind)
    (found : linking.labels.find? reference.label = some address) (ahead : List Int) :
    scan 0 ((placeholder : Int) :: ahead) linking =
      scan (kind.width - 1) ahead
        (linking.apply (kind.patch linking.done.size address) address pending) := by
  rw [scan, if_neg (by simp), next]
  simp only [known, found, LinkKind.covers_patch]

/-- **The search looks labels up by the texts of their addresses.**  It goes on with the number that
the text stands for, and it stops as the look-up of the text does. -/
theorem scan_of_addressText {s : Assembler} {linking : Linking}
    (labels_eq : linking.labels = s.labels)
    {reference : Reference} {pending : List Reference} {kind : LinkKind}
    (next : linking.pending = reference :: pending)
    (known : LinkKind.ofMnemonic? reference.mnemonic = some kind) (width : Nat) (ahead : List Int) :
    (∀ text t, Assembler.addressText reference.label width s = .ok text t →
      scan 0 ((placeholder : Int) :: ahead) linking =
        scan (kind.width - 1) ahead (linking.apply
          (kind.patch linking.done.size (Digits.signedValue 2 text.toList))
          (Digits.signedValue 2 text.toList) pending)) ∧
    ∀ stop t, Assembler.addressText reference.label width s = .error stop t →
      scan 0 ((placeholder : Int) :: ahead) linking =
        .error stop (linking.keep ((placeholder : Int) :: ahead)) := by
  obtain ⟨written, stopped⟩ := Assembler.find?_of_addressText reference.label width s
  constructor
  · intro text t look
    have found := (written text t look).1
    rw [← labels_eq] at found
    exact scan_cons_placeholder linking next known found ahead
  · intro stop t look
    obtain ⟨absent, rfl, _⟩ := stopped stop t look
    rw [← labels_eq] at absent
    rw [scan, if_neg (by simp), next]
    simp only [known, absent]

/-- The placeholders of one reference are replaced by its patch. -/
theorem scan_site (linking : Linking) {reference : Reference} {pending : List Reference}
    {kind : LinkKind} {address : Int} (next : linking.pending = reference :: pending)
    (known : LinkKind.ofMnemonic? reference.mnemonic = some kind)
    (found : linking.labels.find? reference.label = some address) (ahead : List Int) :
    scan 0 (List.replicate kind.width (placeholder : Int) ++ ahead) linking =
      scan 0 ahead (linking.apply (kind.patch linking.done.size address) address pending) := by
  -- the first placeholder brings the patch, and the others are under it
  obtain ⟨more, width_eq⟩ : ∃ more, kind.width = more + 1 :=
    ⟨kind.width - 1, by have := kind.width_pos; omega⟩
  rw [width_eq, List.replicate_succ, List.cons_append,
      scan_cons_placeholder linking next known found, width_eq, Nat.add_sub_cancel]
  have passed := scan_covered (List.replicate more (placeholder : Int)) ahead
    (linking.apply (kind.patch linking.done.size address) address pending)
  rwa [List.length_replicate] at passed

end Linking

/-! ## §3. Instructions with their labels filled in. -/

namespace Placement

/-- The cells that replace the placeholders of an instruction. -/
def patched (labels : LabelTable) (p : Placement) : List Int :=
  match p.encoding.label, LinkKind.ofMnemonic? p.mnemonic with
  | some label, some kind =>
    match labels.find? label with
    | some address => (kind.patch (p.address + p.fixed.length) address).cells
    | none => []
  | _, _ => []

/-- The cells of an instruction with its label filled in. -/
def linked (labels : LabelTable) (p : Placement) : List Int :=
  Assembler.asStored p.fixed ++ p.patched labels

/-- The label of the instruction is defined, and its patch is no longer than what it replaces. -/
def Settles (labels : LabelTable) (p : Placement) : Prop :=
  ∀ label, p.encoding.label = some label → ∃ kind address,
    LinkKind.ofMnemonic? p.mnemonic = some kind ∧ labels.find? label = some address ∧
      (kind.patch (p.address + p.fixed.length) address).cells.length = kind.width

theorem length_linked {labels : LabelTable} {p : Placement} (shaped : p.Shaped)
    (settles : p.Settles labels) : (p.linked labels).length = p.encoding.cells.length := by
  rw [length_cells shaped]
  cases labelled : p.encoding.label with
  | none => simp [linked, patched, waiting, Encoding.waiting, labelled, Assembler.asStored]
  | some label =>
    obtain ⟨kind, address, known, found, length_eq⟩ := settles label labelled
    simp [linked, patched, waiting, Encoding.waiting, labelled, known, found, length_eq,
      Assembler.asStored]

end Placement

namespace Layout

variable {p : Placement} {rest : List Placement}

theorem references_cons_none (plain : p.encoding.label = none) :
    references (p :: rest) = references rest := by
  simp [references, Placement.reference?, plain]

theorem references_cons_some {label : String} (labelled : p.encoding.label = some label) :
    references (p :: rest) = ⟨p.mnemonic, label⟩ :: references rest := by
  simp [references, Placement.reference?, labelled]

end Layout

namespace Linking

open Layout

/-! ## §4. The search over ascending placements. -/

/-- The cells of an instruction that do not wait for a label are passed over. -/
theorem scan_fixed {p : Placement} (shaped : p.Shaped) (quiet : placeholder ∉ p.fixed)
    (ahead : List Int) (linking : Linking) :
    scan 0 (p.stored ++ ahead) linking =
      scan 0 (List.replicate p.waiting (placeholder : Int) ++ ahead)
        (linking.keep (Assembler.asStored p.fixed)) := by
  have quiet_fixed : ∀ cell ∈ Assembler.asStored p.fixed, cell ≠ (placeholder : Int) := by
    intro cell member same
    obtain ⟨n, stored, rfl⟩ := List.mem_map.1 member
    exact quiet (Int.ofNat.inj same ▸ stored)
  rw [Placement.stored_eq shaped, List.append_assoc, scan_keep quiet_fixed]

/-- A patch that is no longer than what it replaces moves no label. -/
theorem apply_of_length_eq {kind : LinkKind} {position : Nat} {address : Int}
    (fits : (kind.patch position address).cells.length = kind.width) (linking : Linking)
    (pending : List Reference) :
    linking.apply (kind.patch position address) address pending =
      ⟨linking.done ++ (kind.patch position address).cells, linking.labels, pending⟩ := by
  have stays : (kind.patch position address).grows = false := by
    simp [Patch.grows, fits]
  simp [apply, stays]

/-- **Step**: the search over one instruction fills in its own label. -/
theorem scan_placement {labels : LabelTable} {p : Placement} {done : Array Int}
    (shaped : p.Shaped) (quiet : placeholder ∉ p.fixed) (settles : p.Settles labels)
    (reached : done.size = p.address) (ahead : List Int) (later : List Placement) :
    scan 0 (p.stored ++ ahead) ⟨done, labels, references (p :: later)⟩ =
      scan 0 ahead ⟨done ++ p.linked labels, labels, references later⟩ := by
  rw [scan_fixed shaped quiet]
  cases labelled : p.encoding.label with
  | none =>
    -- no label, hence no placeholders and no reference
    have none_waits : p.waiting = 0 := by
      simp [Placement.waiting, Encoding.waiting, labelled]
    have plain : p.linked labels = Assembler.asStored p.fixed := by
      simp [Placement.linked, Placement.patched, labelled]
    rw [none_waits, references_cons_none labelled, plain]
    rfl
  | some label =>
    obtain ⟨kind, address, known, found, length_eq⟩ := settles label labelled
    have waits : p.waiting = kind.width := by
      simp [Placement.waiting, Encoding.waiting, labelled, known]
    have filled : p.linked labels =
        Assembler.asStored p.fixed ++ (kind.patch (p.address + p.fixed.length) address).cells := by
      simp [Placement.linked, Placement.patched, labelled, known, found]
    have position : (done ++ Assembler.asStored p.fixed).size = p.address + p.fixed.length := by
      rw [size_appendList, reached]
      simp [Assembler.asStored]
    rw [waits, references_cons_some labelled, filled, ← appendList_append]
    show scan 0 _ ⟨done ++ Assembler.asStored p.fixed, labels,
      ⟨p.mnemonic, label⟩ :: references later⟩ = _
    rw [scan_site ⟨done ++ Assembler.asStored p.fixed, labels,
          ⟨p.mnemonic, label⟩ :: references later⟩ rfl known found ahead]
    dsimp only
    rw [position, apply_of_length_eq length_eq]

/-- Erased cells are no placeholders. -/
theorem quiet_gap (n : Nat) :
    ∀ cell ∈ List.replicate n Memory.erased, cell ≠ (placeholder : Int) := by
  intro cell member
  rw [List.eq_of_mem_replicate member]
  decide

/-- **Run**: the search over ascending placements fills in the label of each. -/
theorem scan_render {labels : LabelTable} {size position : Nat} {ps : List Placement}
    {done : Array Int} (ascends : Ascending position ps) (shaped : ∀ p ∈ ps, p.Shaped)
    (quiet : ∀ p ∈ ps, placeholder ∉ p.fixed) (settles : ∀ p ∈ ps, p.Settles labels)
    (reached : done.size = position) :
    scan 0 (render Placement.stored size position ps) ⟨done, labels, references ps⟩ =
      .ok () ⟨done ++ render (Placement.linked labels) size position ps, labels, []⟩ := by
  induction ps generalizing position done with
  | nil =>
    -- erased cells up to the end
    have kept := scan_keep (quiet_gap (size - position)) [] ⟨done, labels, []⟩
    rw [List.append_nil] at kept
    exact kept
  | cons p rest ih =>
    have begins : position ≤ p.address := ascends.1
    have gap_reached :
        (done ++ List.replicate (p.address - position) Memory.erased).size = p.address := by
      rw [size_appendList, List.length_replicate]
      omega
    have shaped_p := shaped p List.mem_cons_self
    have settles_p := settles p List.mem_cons_self
    have next_reached : (done ++ List.replicate (p.address - position) Memory.erased
        ++ p.linked labels).size = p.stop := by
      rw [size_appendList, gap_reached, Placement.length_linked shaped_p settles_p]
      rfl
    have others := ih ascends.2
      (fun q member => shaped q (List.mem_cons_of_mem p member))
      (fun q member => quiet q (List.mem_cons_of_mem p member))
      (fun q member => settles q (List.mem_cons_of_mem p member)) next_reached
    -- over the gap, then over the instruction, then over the rest
    simp only [render]
    rw [scan_keep (quiet_gap (p.address - position))]
    show scan 0 _ ⟨done ++ List.replicate (p.address - position) Memory.erased, labels,
      references (p :: rest)⟩ = _
    rw [scan_placement shaped_p (quiet p List.mem_cons_self) settles_p gap_reached, others,
        appendList_append, appendList_append]

end Linking

/-! ## §5. Room for placeholders. -/

/-- The number of placeholders that a reference replaces. -/
def Reference.room (reference : Reference) : Nat :=
  match LinkKind.ofMnemonic? reference.mnemonic with
  | some kind => kind.width
  | none => 0

namespace Linking

/-- The number of placeholders that references replace. -/
def room (pending : List Reference) : Nat :=
  (pending.map Reference.room).sum

/-- All operations refer to labels in a way that linking knows. -/
def Known (pending : List Reference) : Prop :=
  ∀ reference ∈ pending, (LinkKind.ofMnemonic? reference.mnemonic).isSome = true

theorem Known.head {reference : Reference} {pending : List Reference}
    (known : Known (reference :: pending)) :
    ∃ kind, LinkKind.ofMnemonic? reference.mnemonic = some kind :=
  Option.isSome_iff_exists.1 (known reference List.mem_cons_self)

theorem Known.tail {reference : Reference} {pending : List Reference}
    (known : Known (reference :: pending)) : Known pending :=
  fun other member => known other (List.mem_cons_of_mem reference member)

theorem room_cons {reference : Reference} {kind : LinkKind}
    (known : LinkKind.ofMnemonic? reference.mnemonic = some kind) (pending : List Reference) :
    room (reference :: pending) = kind.width + room pending := by
  simp [room, Reference.room, known]

/-- **What one placeholder does to the search**: there is a reference left, its label is defined,
and the search goes on behind its patch. -/
theorem scan_placeholder_eq_ok {ahead : List Int} {linking final : Linking}
    (known : Known linking.pending)
    (h : scan 0 ((placeholder : Int) :: ahead) linking = .ok () final) :
    ∃ reference pending kind address, linking.pending = reference :: pending ∧
      LinkKind.ofMnemonic? reference.mnemonic = some kind ∧
      linking.labels.find? reference.label = some address ∧
      scan (kind.width - 1) ahead
        (linking.apply (kind.patch linking.done.size address) address pending) = .ok () final := by
  cases next : linking.pending with
  | nil =>
    rw [scan, if_neg (by simp), next] at h
    exact absurd h (by simp)
  | cons reference pending =>
    rw [next] at known
    obtain ⟨kind, known_kind⟩ := known.head
    cases found : linking.labels.find? reference.label with
    | none =>
      rw [scan, if_neg (by simp), next] at h
      simp only [known_kind, found] at h
      exact absurd h (by simp)
    | some address =>
      rw [scan_cons_placeholder linking next known_kind found] at h
      exact ⟨reference, pending, kind, address, rfl, known_kind, found, h⟩

/-- **A search that comes to its end has met no more placeholders than its references replace.** -/
theorem count_le_room {ahead : List Int} {covered : Nat} {linking final : Linking}
    (known : Known linking.pending) (h : scan covered ahead linking = .ok () final) :
    (ahead.drop covered).count (placeholder : Int) ≤ room linking.pending := by
  induction ahead generalizing covered linking with
  | nil => simp
  | cons cell rest ih =>
    cases covered with
    | succ covered => exact ih known h
    | zero =>
      by_cases here : cell = (placeholder : Int)
      · subst here
        obtain ⟨reference, pending, kind, address, next, known_kind, _, searched⟩ :=
          scan_placeholder_eq_ok known h
        have known_rest : Known pending := (next ▸ known : Known (reference :: pending)).tail
        have behind := ih (by exact known_rest) searched
        change (rest.drop (kind.width - 1)).count (placeholder : Int) ≤ room pending at behind
        -- at most `width - 1` of the others are under the patch
        have under : (rest.take (kind.width - 1)).count (placeholder : Int) ≤ kind.width - 1 :=
          Nat.le_trans List.count_le_length (List.length_take_le _ _)
        have parts : rest.count (placeholder : Int) =
            (rest.take (kind.width - 1)).count (placeholder : Int)
              + (rest.drop (kind.width - 1)).count (placeholder : Int) := by
          rw [← List.count_append, List.take_append_drop]
        have pos := kind.width_pos
        rw [next, room_cons known_kind, List.drop_zero, List.count_cons_self]
        omega
      · rw [scan, if_pos here] at h
        rw [List.drop_zero, List.count_cons_of_ne here]
        have behind := ih (by exact known) h
        exact behind

/-- All labels of the references are defined. -/
def Defined (linking : Linking) : Prop :=
  ∀ reference ∈ linking.pending, (linking.labels.find? reference.label).isSome = true

/-- A patch loses no label, not even if it moves some of them. -/
theorem Defined.apply {linking : Linking} {reference : Reference} {pending : List Reference}
    (defined : linking.Defined) (next : linking.pending = reference :: pending) (patch : Patch)
    (address : Int) : (linking.apply patch address pending).Defined := by
  intro other member
  have was := defined other (next ▸ List.mem_cons_of_mem reference member)
  show ((if patch.grows then linking.labels.shiftAbove address else linking.labels).find?
    other.label).isSome = true
  split
  · rw [LabelTable.find?_shiftAbove, Option.isSome_map]
    exact was
  · exact was

/-- A search whose labels are all defined stops only when the references are used up. -/
theorem stop_of_scan {ahead : List Int} {covered : Nat} {linking final : Linking} {stop : Stop}
    (known : Known linking.pending) (defined : linking.Defined)
    (h : scan covered ahead linking = .error stop final) :
    stop = .crashed .unmatchedPlaceholder := by
  induction ahead generalizing covered linking with
  | nil => exact absurd h (by simp [scan])
  | cons cell rest ih =>
    cases covered with
    | succ covered => exact ih known defined h
    | zero =>
      by_cases here : cell = (placeholder : Int)
      · subst here
        cases next : linking.pending with
        | nil =>
          rw [scan, if_neg (by simp), next] at h
          exact (EStateM.Result.error.inj h).1.symm
        | cons reference pending =>
          -- the label is defined, so the search goes on, and no label gets lost
          have known_next : Known (reference :: pending) := next ▸ known
          obtain ⟨kind, known_kind⟩ := known_next.head
          obtain ⟨address, found⟩ :=
            Option.isSome_iff_exists.1 (defined reference (next ▸ List.mem_cons_self))
          rw [scan_cons_placeholder linking next known_kind found] at h
          exact ih (by exact known_next.tail) (by exact defined.apply next _ address) h
      · rw [scan, if_pos here] at h
        exact ih (by exact known) (by exact defined) h

end Linking

/-! ## §6. The placeholders of placements. -/

namespace Layout

/-- The references of placements are of operations that linking knows. -/
theorem known_references {ps : List Placement} (shaped : ∀ p ∈ ps, p.Shaped) :
    Linking.Known (references ps) := by
  intro reference member
  obtain ⟨p, placed, noted⟩ := List.mem_filterMap.1 member
  obtain ⟨label, labelled, rfl⟩ := Option.map_eq_some_iff.1 noted
  exact (shaped p placed).linked label labelled

/-- The placeholders of a placement, and cells that only look like one. -/
theorem count_stored {p : Placement} (shaped : p.Shaped) :
    p.stored.count (placeholder : Int) = p.fixed.count placeholder + p.waiting := by
  rw [Placement.stored_eq shaped, List.count_append, List.count_replicate_self]
  congr 1
  unfold Assembler.asStored
  induction p.fixed with
  | nil => rfl
  | cons n rest ih =>
    have same : ((n : Int) = (placeholder : Int)) ↔ n = placeholder := by omega
    rw [List.map_cons, List.count_cons, List.count_cons, ih]
    simp only [beq_iff_eq, same]

/-- The references of placements have room for exactly their waiting cells. -/
theorem room_references {ps : List Placement} (shaped : ∀ p ∈ ps, p.Shaped) :
    Linking.room (references ps) = (ps.map Placement.waiting).sum := by
  induction ps with
  | nil => rfl
  | cons p rest ih =>
    have others := ih (fun q member => shaped q (List.mem_cons_of_mem p member))
    cases labelled : p.encoding.label with
    | none =>
      rw [references_cons_none labelled, others]
      simp [Placement.waiting, Encoding.waiting, labelled]
    | some label =>
      obtain ⟨kind, known⟩ := Option.isSome_iff_exists.1
        ((shaped p List.mem_cons_self).linked label labelled)
      rw [references_cons_some labelled, Linking.room_cons (by exact known), others]
      simp [Placement.waiting, Encoding.waiting, labelled, known]

/-- **The placeholders in memory**: the room of the references, and every cell that only looks like
a placeholder. -/
theorem count_render {size position : Nat} {ps : List Placement} (shaped : ∀ p ∈ ps, p.Shaped) :
    (render Placement.stored size position ps).count (placeholder : Int) =
      (ps.map fun p => p.fixed.count placeholder).sum + Linking.room (references ps) := by
  have gap : ∀ n, (List.replicate n Memory.erased).count (placeholder : Int) = 0 :=
    fun n => List.count_eq_zero.2 fun member => Linking.quiet_gap n _ member rfl
  rw [room_references shaped]
  induction ps generalizing position with
  | nil => simp [render, gap]
  | cons p rest ih =>
    have others := @ih p.stop (fun q member => shaped q (List.mem_cons_of_mem p member))
    simp only [render, List.count_append, gap, count_stored (shaped p List.mem_cons_self), others,
      List.map_cons, List.sum_cons]
    omega

/-- **A search that comes to its end has met no cell that only looks like a placeholder**, if it
belongs to the placements that are spelled out.  So it has no room to spare. -/
theorem quiet_of_scan {size : Nat} {ps : List Placement} (shaped : ∀ p ∈ ps, p.Shaped)
    {linking final : Linking} (references_eq : linking.pending = references ps)
    (h : Linking.scan 0 (render Placement.stored size 0 ps) linking = .ok () final) :
    (∀ p ∈ ps, placeholder ∉ p.fixed) ∧
      (render Placement.stored size 0 ps).count (placeholder : Int) =
        Linking.room (references ps) := by
  have known : Linking.Known linking.pending := references_eq ▸ known_references shaped
  have bound := Linking.count_le_room known h
  have total : (render Placement.stored size 0 ps).count (placeholder : Int) = _ :=
    count_render shaped
  rw [List.drop_zero, references_eq] at bound
  -- what looks like a placeholder would come on top of what the references need
  have no_stray : (ps.map fun p => p.fixed.count placeholder).sum = 0 := by omega
  refine ⟨?_, by omega⟩
  intro p member
  have absent : p.fixed.count placeholder = 0 :=
    List.sum_eq_zero_iff_forall_eq_nat.1 no_stray _ (List.mem_map_of_mem member)
  exact List.count_eq_zero.1 absent

end Layout

end Mcs51
