/-
  Mcs51.Proofs.SourceLayout — the layout of a program, read off its lines.

  An instruction is encoded from its own line alone.  So the address of a line can be computed from
  the lines before it: it is the last origin, plus the cells since then.  What placing a program
  leaves behind needs no other state than that: labels stand at the addresses of their lines,
  references are those of the lines, and a cell holds what the last instruction that covers it has
  stored there.

  Main definitions:
    * `Body.encoding?`, `Body.origin?`, `Body.label?`, `Body.reference?` : what a line contributes;
    * `Layout.address` : where a line stands;
    * `Layout.LaidOut` : the state that lines describe.

  Main statements:
    * `Layout.address_concat` : how one line moves the address;
    * `Layout.mem_timelineFrom_iff` : every line is carried out at its address;
    * `assemble_lays_out` : which programs are placed, and the state they leave.
-/
import Mathlib.Data.List.DropRight
import Mcs51.Proofs.Blocks

namespace Mcs51

/-! ## §1. What a line contributes. -/

namespace Body

/-- The code of the instruction on a line. -/
def encoding? : Body → Option Encoding
  | .label _ => none
  | .operation mnemonic operands =>
    if mnemonic = "ORG" then none
    else (Mnemonic.ofName? mnemonic).bind fun known => (known.encode operands).toOption

/-- The cells of the instruction on a line.  Other lines have none. -/
def cells (body : Body) : List Nat :=
  (body.encoding?.map Encoding.cells).getD []

/-- The label that the instruction on a line refers to, with its mnemonic. -/
def reference? : Body → Option Reference
  | .label _ => none
  | .operation mnemonic operands =>
    (Body.operation mnemonic operands).encoding?.bind fun encoding =>
      encoding.label.map fun label => ⟨mnemonic, label⟩

/-- The address that a line sets the counter to. -/
def origin? : Body → Option Nat
  | .label _ => none
  | .operation mnemonic operands => if mnemonic = "ORG" then (origin operands).toOption else none

/-- The label that a line defines. -/
def label? : Body → Option String
  | .label name => some name
  | .operation _ _ => none

/-- Is the line a label, an origin with an address, or an instruction that can be encoded? -/
def Understood (body : Body) : Prop :=
  body.label?.isSome = true ∨ body.origin?.isSome = true ∨ body.encoding?.isSome = true

instance (body : Body) : Decidable body.Understood :=
  inferInstanceAs (Decidable (_ ∨ _))

end Body

/-- What a line contributes to the program is what its action does. -/
inductive Action.Reads : Body → Action → Prop where
  | label (name : String) : Reads (.label name) (.define name)
  | origin {operands : List String} {address : Nat} (reached : origin operands = .ok address) :
      Reads (.operation "ORG" operands) (.goTo address)
  | instruction {mnemonic : String} {operands : List String} {encoding : Encoding}
      (other : mnemonic ≠ "ORG")
      (encoded : (Body.operation mnemonic operands).encoding? = some encoding) :
      Reads (.operation mnemonic operands) (.emit mnemonic encoding)

namespace Body

theorem reads_of_action? {body : Body} {action : Action} (h : body.action? = some action) :
    Action.Reads body action := by
  cases body with
  | label name =>
    obtain rfl := Option.some.inj h
    exact .label name
  | operation mnemonic operands =>
    rcases action?_operation h with
      ⟨rfl, address, reached, rfl⟩ | ⟨other, known, encoding, found, encoded, rfl⟩
    · exact .origin reached
    · refine .instruction other ?_
      simp [encoding?, other, found, encoded, Except.toOption]

/-- The lines that are understood are those that do something. -/
theorem action?_isSome_iff (body : Body) : body.action?.isSome = true ↔ body.Understood := by
  cases body with
  | label name => simp [action?, Understood, label?]
  | operation mnemonic operands =>
    by_cases isOrigin : mnemonic = "ORG"
    · simp [action?, Understood, label?, origin?, encoding?, isOrigin]
    · cases found : Mnemonic.ofName? mnemonic <;>
        simp [action?, Understood, label?, origin?, encoding?, isOrigin, found]

/-- An encoding of a line has one, two or three cells. -/
theorem length_of_encoding? {body : Body} {encoding : Encoding}
    (h : body.encoding? = some encoding) :
    1 ≤ encoding.cells.length ∧ encoding.cells.length ≤ 3 := by
  cases body with
  | label name => exact absurd h (by simp [encoding?])
  | operation mnemonic operands =>
    rw [encoding?] at h
    split at h
    · exact absurd h (by simp)
    · obtain ⟨known, _, encoded⟩ := Option.bind_eq_some_iff.1 h
      have shaped := Mnemonic.shaped_of_encode (Except.eq_ok_of_toOption encoded)
      exact ⟨List.length_pos_iff.2 shaped.nonempty, shaped.length_le⟩

end Body

/-! ## §2. Addresses of lines. -/

namespace Layout

/-- The lines before the end directive. -/
def beforeEnd (bodies : List Body) : List Body :=
  bodies.takeWhile (!·.isEnd)

/-- The address of the last origin, or zero. -/
def lastOrigin (lines : List Body) : Nat :=
  (lines.filterMap Body.origin?).getLast?.getD 0

/-- The lines behind the last origin. -/
def sinceOrigin (lines : List Body) : List Body :=
  lines.rtakeWhile (·.origin?.isNone)

/-- **The address behind lines**: the last origin, and the cells since then. -/
def address (lines : List Body) : Nat :=
  lastOrigin lines + ((sinceOrigin lines).flatMap Body.cells).length

/-- Does the instruction on a line cover the cell, if these lines stand before it? -/
def Covers (before : List Body) (body : Body) (i : Nat) : Prop :=
  address before ≤ i ∧ i < address before + body.cells.length

instance (before : List Body) (body : Body) (i : Nat) : Decidable (Covers before body i) :=
  inferInstanceAs (Decidable (_ ∧ _))

/-- Does every instruction lie in a memory of the given size? -/
def Fits (size : Nat) (lines : List Body) : Prop :=
  ∀ before body after, lines = before ++ body :: after →
    body.cells ≠ [] → address before + body.cells.length ≤ size

/-- **Step**: an origin sets the address, and an instruction adds its cells to it. -/
theorem address_concat (lines : List Body) (body : Body) :
    address (lines ++ [body]) = body.origin?.getD (address lines + body.cells.length) := by
  unfold address lastOrigin sinceOrigin
  rw [List.filterMap_append]
  cases found : body.origin? with
  | none =>
    rw [List.rtakeWhile_concat_pos _ _ _ (by simp [found])]
    simp [found]
    omega
  | some origin =>
    -- an origin has no cells of its own
    rw [List.rtakeWhile_concat_neg _ _ _ (by simp [found])]
    simp [found]

theorem address_concat_of_reads {body : Body} {action : Action} (reads : action.Reads body)
    (lines : List Body) : address (lines ++ [body]) = action.next (address lines) := by
  rw [address_concat]
  cases reads with
  | label name => simp [Body.origin?, Body.cells, Body.encoding?, Action.next]
  | origin reached => simp [Body.origin?, reached, Except.toOption, Action.next]
  | instruction other encoded => simp [Body.origin?, other, Body.cells, encoded, Action.next]

/-! ## §3. Lines on the timeline. -/

section Lines

variable {earlier lines : List Body}

/-- Lines that follow each other are carried out one after the other. -/
theorem timelineFrom_cons_line {body : Body} {action : Action} (h : body.action? = some action)
    (earlier lines : List Body) :
    timelineFrom (address earlier) ((body :: lines).filterMap Body.action?) =
      (address earlier, action) ::
        timelineFrom (address (earlier ++ [body])) (lines.filterMap Body.action?) := by
  rw [List.filterMap_cons, h, timelineFrom, address_concat_of_reads (Body.reads_of_action? h)]

/-- **Run**: the counter behind lines is their address. -/
theorem counterAfter_address (earlier : List Body)
    (understood : ∀ body ∈ lines, body.Understood) :
    counterAfter (address earlier) (lines.filterMap Body.action?) = address (earlier ++ lines) := by
  induction lines generalizing earlier with
  | nil =>
    rw [List.append_nil]
    rfl
  | cons body rest ih =>
    obtain ⟨action, performs⟩ := Option.isSome_iff_exists.1
      ((Body.action?_isSome_iff body).2 (understood body List.mem_cons_self))
    have later := ih (earlier ++ [body])
      fun other member => understood other (List.mem_cons_of_mem body member)
    rw [List.append_assoc, List.singleton_append] at later
    rw [← later, List.filterMap_cons, performs,
        address_concat_of_reads (Body.reads_of_action? performs)]
    rfl

/-- The timeline in front of a line, at the line, and behind it. -/
theorem timelineFrom_split (earlier after : List Body) {before : List Body} {body : Body}
    {action : Action} (understood : ∀ other ∈ before, other.Understood)
    (h : body.action? = some action) :
    timelineFrom (address earlier) ((before ++ body :: after).filterMap Body.action?) =
      timelineFrom (address earlier) (before.filterMap Body.action?) ++
        (address (earlier ++ before), action) ::
          timelineFrom (address (earlier ++ before ++ [body])) (after.filterMap Body.action?) := by
  rw [List.filterMap_append, timelineFrom_append, counterAfter_address earlier understood,
      timelineFrom_cons_line h]

/-- **Every line is carried out at its address**, and nothing else is. -/
theorem mem_timelineFrom_iff (understood : ∀ body ∈ lines, body.Understood)
    {moment : Nat × Action} :
    moment ∈ timelineFrom (address earlier) (lines.filterMap Body.action?) ↔
      ∃ before body after, lines = before ++ body :: after ∧
        moment.1 = address (earlier ++ before) ∧ body.action? = some moment.2 := by
  obtain ⟨counter, action⟩ := moment
  constructor
  · intro member
    induction lines generalizing earlier with
    | nil => exact absurd member List.not_mem_nil
    | cons body rest ih =>
      obtain ⟨first, performs⟩ := Option.isSome_iff_exists.1
        ((Body.action?_isSome_iff body).2 (understood body List.mem_cons_self))
      rw [timelineFrom_cons_line performs] at member
      rcases List.mem_cons.1 member with here | later
      · obtain ⟨rfl, rfl⟩ := Prod.mk.inj here
        exact ⟨[], body, rest, rfl, by rw [List.append_nil], performs⟩
      · obtain ⟨before, other, after, rfl, counter_eq, does⟩ :=
          ih (fun other member => understood other (List.mem_cons_of_mem body member)) later
        rw [List.append_assoc] at counter_eq
        exact ⟨body :: before, other, after, rfl, counter_eq, does⟩
  · rintro ⟨before, body, after, rfl, counter_eq, performs⟩
    obtain rfl : counter = address (earlier ++ before) := counter_eq
    have understood_before : ∀ other ∈ before, other.Understood :=
      fun other member => understood other (List.mem_append_left _ member)
    rw [timelineFrom_split earlier after understood_before performs]
    exact List.mem_append_right _ List.mem_cons_self

/-- What is read off the timeline without looking at the counter is read off the lines. -/
theorem filterMap_timelineFrom {α : Type} {f : Nat × Action → Option α} {g : Body → Option α}
    (same : ∀ {body action}, Action.Reads body action → ∀ counter, f (counter, action) = g body)
    (understood : ∀ body ∈ lines, body.Understood) :
    (timelineFrom (address earlier) (lines.filterMap Body.action?)).filterMap f =
      lines.filterMap g := by
  induction lines generalizing earlier with
  | nil => rfl
  | cons body rest ih =>
    obtain ⟨action, performs⟩ := Option.isSome_iff_exists.1
      ((Body.action?_isSome_iff body).2 (understood body List.mem_cons_self))
    rw [timelineFrom_cons_line performs, List.filterMap_cons, List.filterMap_cons,
        same (Body.reads_of_action? performs),
        ih fun other member => understood other (List.mem_cons_of_mem body member)]

/-- A placement comes from a line: it has the cells of the line, at the address of the line. -/
theorem line_of_mem_placed (understood : ∀ body ∈ lines, body.Understood) {p : Placement}
    (member : p ∈
      (timelineFrom (address earlier) (lines.filterMap Body.action?)).filterMap placed?) :
    ∃ before body after, lines = before ++ body :: after ∧ p.address = address (earlier ++ before) ∧
      p.encoding.cells = body.cells := by
  obtain ⟨⟨counter, action⟩, moment, placed⟩ := List.mem_filterMap.1 member
  obtain ⟨before, body, after, split, rfl, performs⟩ := (mem_timelineFrom_iff understood).1 moment
  refine ⟨before, body, after, split, ?_⟩
  cases Body.reads_of_action? performs with
  | label name => exact absurd placed (by simp [placed?])
  | origin reached => exact absurd placed (by simp [placed?])
  | instruction other encoded =>
    obtain rfl := Option.some.inj placed
    exact ⟨rfl, by simp [Body.cells, encoded]⟩

end Lines

/-- A line with cells places an instruction. -/
theorem action?_of_cells {body : Body} (understood : body.Understood) (nonempty : body.cells ≠ []) :
    ∃ mnemonic encoding, body.action? = some (.emit mnemonic encoding) ∧
      encoding.cells = body.cells := by
  obtain ⟨action, performs⟩ :=
    Option.isSome_iff_exists.1 ((Body.action?_isSome_iff body).2 understood)
  rw [performs]
  cases Body.reads_of_action? performs with
  | label name => exact absurd rfl nonempty
  | origin reached => exact absurd rfl nonempty
  | instruction other encoded => exact ⟨_, _, rfl, by simp [Body.cells, encoded]⟩

/-- The instructions in front of a line with cells, its own one, and those behind it. -/
theorem placed_split {before after : List Body} {body : Body}
    (understood : ∀ other ∈ before ++ body :: after, other.Understood)
    (nonempty : body.cells ≠ []) :
    ∃ ps p, (timelineFrom (address []) ((before ++ body :: after).filterMap Body.action?)).filterMap
        placed? = ps ++ p ::
          (timelineFrom (address (before ++ [body]))
            (after.filterMap Body.action?)).filterMap placed? ∧
      p.address = address before ∧ p.encoding.cells = body.cells := by
  obtain ⟨mnemonic, encoding, performs, cells_eq⟩ :=
    action?_of_cells (understood body (by simp)) nonempty
  refine ⟨(timelineFrom (address []) (before.filterMap Body.action?)).filterMap placed?,
    ⟨address before, mnemonic, encoding⟩, ?_, rfl, cells_eq⟩
  rw [timelineFrom_split [] after
        (fun other member => understood other (List.mem_append_left _ member)) performs,
      List.filterMap_append]
  rfl

/-! ## §4. Cells that are stored more than once. -/

/-- **A cell holds what the last instruction that covers it has stored.** -/
theorem getElem?_writeAll_of_last {memory : Memory} {ps qs : List Placement} {p : Placement}
    (fits : ∀ q ∈ ps ++ p :: qs, q.stop ≤ memory.cells.size) {i : Nat} (covers : p.Covers i)
    (last : ∀ q ∈ qs, ¬q.Covers i) :
    (writeAll memory (ps ++ p :: qs)).cells[i]? = p.stored[i - p.address]? := by
  have written : writeAll memory (ps ++ p :: qs)
      = writeAll ((writeAll memory ps).write p.address p.stored) qs := List.foldl_append
  have fits_p : p.stop ≤ (writeAll memory ps).cells.size := by
    rw [size_writeAll]
    exact fits p (by simp)
  have fits_qs : ∀ q ∈ qs, q.stop ≤ ((writeAll memory ps).write p.address p.stored).cells.size := by
    intro q member
    rw [Memory.size_write, size_writeAll]
    exact fits q (by simp [member])
  rw [written, getElem?_writeAll_of_uncovered fits_qs last, getElem?_write_placement fits_p,
      if_pos covers]

/-! ## §5. Labels that are defined once. -/

/-- Actions that succeed define labels that are new and distinct. -/
theorem distinct_of_performAll {actions : List Action} {s t : Assembler} {counter : Nat}
    (at_counter : s.counter = counter) (shaped : ∀ action ∈ actions, action.Shaped)
    (h : Action.performAll actions s = .ok () t) :
    (((timelineFrom counter actions).filterMap defined?).map Prod.fst).Nodup ∧
      ∀ label ∈ ((timelineFrom counter actions).filterMap defined?).map Prod.fst,
        s.labels.find? label = none := by
  induction actions generalizing s counter with
  | nil => exact ⟨List.nodup_nil, fun _ member => absurd member List.not_mem_nil⟩
  | cons action rest ih =>
    obtain ⟨_, u, first, others⟩ := Assembler.bind_eq_ok h
    obtain ⟨admissible, rfl⟩ :=
      Action.perform_eq_ok at_counter (shaped action List.mem_cons_self) first
    obtain ⟨distinct, new⟩ := ih (Action.counter_apply at_counter action)
      (fun later member => shaped later (List.mem_cons_of_mem action member)) others
    cases action with
    | goTo address => exact ⟨distinct, new⟩
    | emit mnemonic encoding => exact ⟨distinct, new⟩
    | define label =>
      -- behind the definition the label is found, so it is not defined again
      have both : ∀ other ∈ ((timelineFrom counter rest).filterMap defined?).map Prod.fst,
          other ≠ label ∧ s.labels.find? other = none := by
        intro other member
        have absent := new other member
        simp only [Action.apply, LabelTable.find?_insert] at absent
        split at absent
        · exact absurd absent (by simp)
        next differs => exact ⟨differs, absent⟩
      refine ⟨List.nodup_cons.2 ⟨fun member => (both label member).1 rfl, distinct⟩, ?_⟩
      intro other member
      rcases List.mem_cons.1 member with rfl | later
      · exact admissible
      · exact (both other later).2

/-! ## §6. Programs. -/

/-- **The state that lines describe**, if they begin with an empty memory.  Each part speaks about
the lines alone. -/
structure LaidOut (size : Nat) (lines : List Body) (s : Assembler) : Prop where
  /-- No label is defined twice. -/
  distinct : (lines.filterMap Body.label?).Nodup
  /-- The labels that are found are those of the lines, at the addresses of the lines. -/
  labels : ∀ label place, s.labels.find? label = some place ↔
    ∃ before after, lines = before ++ .label label :: after ∧ place = address before
  /-- The references are those of the lines, in order. -/
  references : s.references = lines.filterMap Body.reference?
  /-- The memory is as large as before. -/
  size_eq : s.memory.cells.size = size
  /-- A cell is that of the last instruction which covers it. -/
  covered : ∀ before body after i, lines = before ++ body :: after → Covers before body i →
    (∀ between later rest, after = between ++ later :: rest →
      ¬Covers (before ++ body :: between) later i) →
    s.memory.cells[i]? = (Assembler.asStored body.cells)[i - address before]?
  /-- A cell that no instruction covers is erased. -/
  uncovered : ∀ i < size, (∀ before body after, lines = before ++ body :: after →
      ¬Covers before body i) → s.memory.cells[i]? = some Memory.erased
  /-- The counter is behind the last line. -/
  counter_eq : s.counter = address lines

variable {size : Nat} {bodies : List Body} {s : Assembler}

theorem accepted_iff : Accepted bodies ↔ ∀ body ∈ beforeEnd bodies, body.Understood :=
  forall₂_congr fun body _ => Body.action?_isSome_iff body

/-- Lines fit into a memory exactly if their placements do. -/
theorem fits_iff (understood : ∀ body ∈ beforeEnd bodies, body.Understood) :
    Fits size (beforeEnd bodies) ↔ ∀ p ∈ placements bodies, p.stop ≤ size := by
  constructor
  · intro fits p member
    have shaped := shaped_of_mem_placements member
    obtain ⟨before, body, after, split, address_eq, cells_eq⟩ :=
      line_of_mem_placed (show ∀ body ∈ beforeEnd bodies, _ from understood)
        (show p ∈ (timelineFrom (address []) _).filterMap placed? from member)
    rw [Placement.stop, address_eq, cells_eq]
    exact fits before body after split (cells_eq ▸ shaped.nonempty)
  · intro fits before body after split nonempty
    rw [split] at understood
    obtain ⟨ps, p, placed, address_eq, cells_eq⟩ := placed_split understood nonempty
    have member : p ∈ placements bodies := by
      show p ∈ (timelineFrom (address []) ((beforeEnd bodies).filterMap _)).filterMap placed?
      rw [split, placed]
      exact List.mem_append_right _ List.mem_cons_self
    rw [← address_eq, ← cells_eq]
    exact fits p member

/-- The labels that are defined, in the order of their lines. -/
theorem map_fst_definitions (understood : ∀ body ∈ beforeEnd bodies, body.Understood) :
    (definitions bodies).map Prod.fst = (beforeEnd bodies).filterMap Body.label? := by
  show ((timelineFrom (address []) _).filterMap defined?).map Prod.fst = _
  rw [List.map_filterMap]
  refine filterMap_timelineFrom ?_ understood
  intro body action reads counter
  cases reads <;> rfl

/-- A label is defined at the address of its line. -/
theorem mem_definitions_iff (understood : ∀ body ∈ beforeEnd bodies, body.Understood)
    {label : String} {n : Nat} :
    (label, n) ∈ definitions bodies ↔
      ∃ before after, beforeEnd bodies = before ++ .label label :: after ∧ n = address before := by
  constructor
  · intro member
    obtain ⟨⟨counter, action⟩, moment, defined⟩ := List.mem_filterMap.1 member
    obtain ⟨before, body, after, split, rfl, performs⟩ :=
      (mem_timelineFrom_iff (show ∀ body ∈ beforeEnd bodies, _ from understood)).1
        (show _ ∈ timelineFrom (address []) _ from moment)
    cases Body.reads_of_action? performs with
    | label name =>
      obtain ⟨rfl, rfl⟩ := Prod.mk.inj (Option.some.inj defined)
      exact ⟨before, after, split, rfl⟩
    | origin reached => exact absurd defined (by simp [defined?])
    | instruction other encoded => exact absurd defined (by simp [defined?])
  · rintro ⟨before, after, split, rfl⟩
    have moment : (address before, Action.define label)
        ∈ timelineFrom (address []) ((beforeEnd bodies).filterMap Body.action?) :=
      (mem_timelineFrom_iff understood).2 ⟨before, .label label, after, split, rfl, rfl⟩
    exact List.mem_filterMap.2 ⟨_, moment, rfl⟩

/-- The references that are noted, in the order of their lines. -/
theorem references_placements (understood : ∀ body ∈ beforeEnd bodies, body.Understood) :
    references (placements bodies) = (beforeEnd bodies).filterMap Body.reference? := by
  show ((timelineFrom (address []) _).filterMap placed?).filterMap Placement.reference? = _
  rw [List.filterMap_filterMap]
  refine filterMap_timelineFrom ?_ understood
  intro body action reads counter
  cases reads with
  | label name => rfl
  | origin reached => rfl
  | instruction other encoded => simp [placed?, Placement.reference?, Body.reference?, encoded]

namespace Leaves

theorem fits_blank (leaves : Leaves size bodies s) :
    ∀ p ∈ placements bodies, p.stop ≤ (Memory.blank size).cells.size := by
  intro p member
  have := leaves.fits p member
  simpa [Memory.blank] using this

theorem getElem?_of_last (leaves : Leaves size bodies s) {before after : List Body} {body : Body}
    {i : Nat} (split : beforeEnd bodies = before ++ body :: after) (covers : Covers before body i)
    (last : ∀ between later rest, after = between ++ later :: rest →
      ¬Covers (before ++ body :: between) later i) :
    s.memory.cells[i]? = (Assembler.asStored body.cells)[i - address before]? := by
  obtain ⟨begins, ends⟩ := covers
  have nonempty : body.cells ≠ [] := by
    intro empty
    rw [empty, List.length_nil] at ends
    omega
  have understood := accepted_iff.1 leaves.accepted
  rw [split] at understood
  obtain ⟨ps, p, placed, address_eq, cells_eq⟩ := placed_split understood nonempty
  have placements_eq : placements bodies = ps ++ p ::
      (timelineFrom (address (before ++ [body]))
        (after.filterMap Body.action?)).filterMap placed? := by
    rw [← placed, ← split]
    rfl
  have fits := leaves.fits_blank
  rw [placements_eq] at fits
  have covers_p : p.Covers i := by
    unfold Placement.Covers Placement.stop
    rw [address_eq, cells_eq]
    exact ⟨begins, ends⟩
  rw [leaves.memory, placements_eq, getElem?_writeAll_of_last fits covers_p, Placement.stored,
      address_eq, cells_eq]
  -- what is placed later comes from a later line
  intro q member covers_q
  obtain ⟨between, later, rest, rfl, later_eq, later_cells⟩ := line_of_mem_placed
    (fun other member => understood other (by simp [member])) member
  refine last between later rest rfl ?_
  unfold Placement.Covers Placement.stop at covers_q
  rw [later_eq, later_cells, List.append_assoc, List.singleton_append] at covers_q
  exact covers_q

theorem getElem?_of_uncovered (leaves : Leaves size bodies s) {i : Nat} (inside : i < size)
    (uncovered : ∀ before body after, beforeEnd bodies = before ++ body :: after →
      ¬Covers before body i) : s.memory.cells[i]? = some Memory.erased := by
  rw [leaves.memory, getElem?_writeAll_of_uncovered leaves.fits_blank]
  · simp [Memory.blank, inside]
  · intro p member covers
    obtain ⟨before, body, after, split, address_eq, cells_eq⟩ :=
      line_of_mem_placed (accepted_iff.1 leaves.accepted)
        (show p ∈ (timelineFrom (address []) _).filterMap placed? from member)
    refine uncovered before body after split ?_
    unfold Placement.Covers Placement.stop at covers
    rw [address_eq, cells_eq] at covers
    exact covers

/-- **What a program leaves behind is what its lines describe.** -/
theorem laidOut (leaves : Leaves size bodies s)
    (distinct : ((definitions bodies).map Prod.fst).Nodup) :
    LaidOut size (beforeEnd bodies) s := by
  have understood := accepted_iff.1 leaves.accepted
  refine ⟨?_, ?_, ?_, ?_, ?_, ?_, ?_⟩
  · rw [← map_fst_definitions understood]
    exact distinct
  · intro label place
    rw [leaves.labels]
    constructor
    · rintro ⟨n, member, rfl⟩
      obtain ⟨before, after, split, rfl⟩ := (mem_definitions_iff understood).1 member
      exact ⟨before, after, split, rfl⟩
    · rintro ⟨before, after, split, rfl⟩
      exact ⟨address before, (mem_definitions_iff understood).2 ⟨before, after, split, rfl⟩, rfl⟩
  · exact leaves.references.trans (references_placements understood)
  · rw [leaves.memory, size_writeAll]
    simp [Memory.blank]
  · intro before body after i split covers last
    exact leaves.getElem?_of_last split covers last
  · intro i inside uncovered
    exact leaves.getElem?_of_uncovered inside uncovered
  · exact leaves.counter_eq.trans (congrArg Int.ofNat (counterAfter_address [] understood))

end Leaves

/-- A program that is placed defines no label twice. -/
theorem distinct_of_assemble {program : List Statement}
    (assembled : Assembler.assemble program (Assembler.ofSize size) = .ok () s) :
    ((definitions (Statement.bodies program)).map Prod.fst).Nodup := by
  have performed := (performAll_of_assemble assembled).2
  exact (distinct_of_performAll rfl (fun _ => shaped_of_mem_actions) performed).1

end Layout

/-- **The layout of a program is that of its lines.**  Each instruction is encoded from its own
line, in one to three cells.  A program is placed exactly if every line before the end directive is
understood, no label is defined twice and every instruction lies in the memory; then the state is
the one that these lines describe.  Origins may go back, so that instructions overwrite others. -/
theorem assemble_lays_out (size : Nat) (program : List Statement) :
    (∀ body : Body, ∀ encoding, body.encoding? = some encoding →
      1 ≤ encoding.cells.length ∧ encoding.cells.length ≤ 3) ∧
    (size ≤ Memory.maxAddress →
      ((∃ s, Assembler.assemble program (Assembler.ofSize size) = .ok () s) ↔
        (∀ body ∈ Layout.beforeEnd (Statement.bodies program), body.Understood) ∧
        ((Layout.beforeEnd (Statement.bodies program)).filterMap Body.label?).Nodup ∧
        Layout.Fits size (Layout.beforeEnd (Statement.bodies program)))) ∧
    ∀ s, Assembler.assemble program (Assembler.ofSize size) = .ok () s →
      Layout.LaidOut size (Layout.beforeEnd (Statement.bodies program)) s := by
  refine ⟨fun body encoding => Body.length_of_encoding?, ?_, ?_⟩
  · intro reachable
    constructor
    · rintro ⟨s, assembled⟩
      have leaves := Layout.leaves_of_assemble assembled
      have understood := Layout.accepted_iff.1 leaves.accepted
      have laidOut := leaves.laidOut (Layout.distinct_of_assemble assembled)
      exact ⟨understood, laidOut.distinct, (Layout.fits_iff understood).2 leaves.fits⟩
    · rintro ⟨understood, distinct, fits⟩
      rw [← Layout.map_fst_definitions understood] at distinct
      exact Layout.assemble_of_accepted reachable (Layout.accepted_iff.2 understood)
        ((Layout.fits_iff understood).1 fits) distinct
  · intro s assembled
    exact (Layout.leaves_of_assemble assembled).laidOut (Layout.distinct_of_assemble assembled)

/-- A program that goes back and overwrites the first cell of an instruction. -/
def patchingProgram : List Statement :=
  [⟨1, .operation "NOP" [""]⟩, ⟨2, .label "LOAD"⟩, ⟨3, .operation "MOV" ["A", "#5"]⟩,
   ⟨4, .operation "ORG" ["1"]⟩, ⟨5, .label "BACK"⟩, ⟨6, .operation "RET" [""]⟩,
   ⟨7, .operation "END" [""]⟩, ⟨8, .label "BACK"⟩]

/-- The state that it leaves in a memory of four cells. -/
def patchedState : Assembler :=
  ⟨⟨#[0x01, 0x22, 0x05, Memory.erased]⟩, 2, ⟨[("BACK", 1), ("LOAD", 1)]⟩, []⟩

/-- The cell that is covered twice is that of the later instruction. -/
theorem assemble_lays_out_patched :
    Assembler.assemble patchingProgram (Assembler.ofSize 4) = .ok () patchedState ∧
      patchedState.labels.find? "BACK" = some 1 ∧ patchedState.memory.cells[1]? = some 0x22 ∧
      patchedState.counter = 2 := by
  have assembled : Assembler.assemble patchingProgram (Assembler.ofSize 4) =
      .ok () patchedState := by
    decide +kernel
  have laidOut := (assemble_lays_out 4 patchingProgram).2.2 patchedState assembled
  have lines_eq : Layout.beforeEnd (Statement.bodies patchingProgram)
      = Statement.bodies (patchingProgram.take 6) := by decide +kernel
  rw [lines_eq] at laidOut
  have labelled := (laidOut.labels "BACK" 1).2
    ⟨Statement.bodies (patchingProgram.take 4), [.operation "RET" [""]], rfl, by decide +kernel⟩
  have covered :=
    laidOut.covered (Statement.bodies (patchingProgram.take 5)) (.operation "RET" [""])
    [] 1 rfl (by decide +kernel) (fun between later rest none => absurd none (by simp))
  refine ⟨assembled, labelled, covered.trans ?_, laidOut.counter_eq.trans ?_⟩ <;> decide +kernel

end Mcs51
