/-
  Mcs51.Proofs.Reachable — what holds at every point of a run.

  A run passes through many states: one behind every move while the program is placed, and one
  behind every cell that the search for placeholders has dealt with.  In none of them is the
  counter, the address of a label or a programmed cell negative.  So a cell is never stored at an
  address that counts from the end of the memory, a programmed cell never looks like an erased one,
  and every record has a line.

  Main definitions:
    * `Assembler.Sound` : nothing in the state is negative but erased cells;
    * `Move.written` : the addresses at which moves store cells;
    * `Linking.Point`, `Linking.Point.Step` : how far the search has come, and one step of it;
    * `Assembler.Visits` : the states of a run.

  Main statements:
    * `Move.sound`, `Linking.Point.Step.sound` : what one step keeps;
    * `Assembler.Visits.sound` : what holds in all states of a run;
    * `run_stays_sound` : this, and when a run ends with status 0.
-/
import Mathlib.Logic.Relation
import Mcs51.Program
import Mcs51.Proofs.HexListing
import Mcs51.Proofs.Moves
import Mcs51.Proofs.Resolution
import Mcs51.Proofs.SourceLines

namespace Mcs51

/-! ## §1. Sound states. -/

/-- A cell is erased or not negative. -/
def Memory.Proper (cell : Int) : Prop :=
  cell = Memory.erased ∨ 0 ≤ cell

/-- **Nothing in the state is negative but erased cells.** -/
structure Assembler.Sound (s : Assembler) : Prop where
  counter_nonneg : 0 ≤ s.counter
  labels_nonneg : ∀ entry ∈ s.labels.entries, 0 ≤ entry.2
  cells_proper : ∀ cell ∈ s.memory.cells, Memory.Proper cell

theorem Assembler.sound_ofSize (size : Nat) : (Assembler.ofSize size).Sound where
  counter_nonneg := Int.le_refl 0
  labels_nonneg := by
    intro entry member
    exact absurd member List.not_mem_nil
  cells_proper := by
    intro cell member
    exact .inl (Array.eq_of_mem_replicate member)

/-- An address that is not negative is its own place. -/
theorem Memory.slot_eq_of_nonneg {memory : Memory} {address : Int} {slot : Nat}
    (nonneg : 0 ≤ address)
    (h : memory.slot? address = .ok slot) : (slot : Int) = address := by
  unfold Memory.slot? at h
  split at h
  · exact absurd h (by simp)
  · split at h
    · obtain rfl := Except.ok.inj h
      omega
    · rw [if_neg (by omega)] at h
      exact absurd h (by simp)

namespace Move

/-- **A move keeps a state sound.** -/
theorem sound {move : Move} {s t : Assembler} (h : move.perform s = .ok () t) (sound : s.Sound) :
    t.Sound := by
  obtain ⟨counter_nonneg, labels_nonneg, cells_proper⟩ := sound
  have does := perform_eq_ok h
  cases move with
  | goTo address =>
    obtain rfl : t = _ := does
    exact ⟨Int.natCast_nonneg address, labels_nonneg, cells_proper⟩
  | store cell =>
    obtain ⟨slot, _, rfl⟩ := does
    refine ⟨?_, labels_nonneg, ?_⟩
    · show 0 ≤ s.counter + 1
      omega
    · -- what is stored is a natural number
      intro other member
      rcases Array.mem_or_eq_of_mem_setIfInBounds member with kept | rfl
      · exact cells_proper other kept
      · exact .inr (Int.natCast_nonneg cell)
  | define label =>
    obtain ⟨_, rfl⟩ := does
    refine ⟨counter_nonneg, ?_, cells_proper⟩
    intro entry member
    -- the new label stands at the counter
    rcases List.mem_cons.1 member with rfl | kept
    · exact counter_nonneg
    · exact labels_nonneg entry (List.mem_filter.1 kept).1
  | note mnemonic label =>
    obtain rfl : t = _ := does
    exact ⟨counter_nonneg, labels_nonneg, cells_proper⟩
  | halt stop => exact absurd does id

/-! ## §2. Programmed cells. -/

/-- The addresses at which moves store cells, if they begin with the given counter. -/
def written (counter : Nat) : List Move → List Nat
  | [] => []
  | .goTo address :: rest => written address rest
  | .store _ :: rest => counter :: written (counter + 1) rest
  | .define _ :: rest => written counter rest
  | .note _ _ :: rest => written counter rest
  | .halt _ :: rest => written counter rest

/-- **The cells that moves have stored are those that are not erased any more.** -/
theorem getElem?_eq_erased_iff {moves : List Move} {s t : Assembler} {counter : Nat}
    (at_counter : s.counter = counter) (h : performAll moves s = .ok () t) (i : Nat) :
    t.memory.cells[i]? = some Memory.erased ↔
      s.memory.cells[i]? = some Memory.erased ∧ i ∉ written counter moves := by
  induction moves generalizing s counter with
  | nil =>
    obtain rfl : s = t := (EStateM.Result.ok.inj h).2
    simp [written]
  | cons move rest ih =>
    obtain ⟨_, u, performed, others⟩ := Assembler.bind_eq_ok h
    have does := perform_eq_ok performed
    cases move with
    | goTo address =>
      obtain rfl : u = _ := does
      have later := @ih _ address rfl others
      exact later
    | store cell =>
      obtain ⟨slot, found, rfl⟩ := does
      -- the counter is not negative, so the cell is stored right there
      have slot_eq := Memory.slot_eq_of_nonneg (by omega) found
      obtain rfl : slot = counter := by omega
      have next : s.counter + 1 = ((slot + 1 : Nat) : Int) := by omega
      rw [ih next others]
      simp only [written, List.mem_cons, Memory.put, Array.getElem?_setIfInBounds]
      by_cases here : slot = i
      · -- what is stored is not negative
        simp [here, Memory.erased]
      · have there : i ≠ slot := Ne.symm here
        simp [here, there]
    | define label =>
      obtain ⟨_, rfl⟩ := does
      have later := @ih _ counter (by exact at_counter) others
      exact later
    | note mnemonic label =>
      obtain rfl : u = _ := does
      have later := @ih _ counter (by exact at_counter) others
      exact later
    | halt stop => exact absurd does id

end Move

/-! ## §3. The search, step by step. -/

namespace Linking

/-- How far the search for placeholders has come. -/
structure Point where
  /-- How many of the cells ahead are covered by a patch. -/
  covered : Nat
  /-- The cells ahead. -/
  ahead : List Int
  /-- The cells behind, the labels and the references. -/
  linking : Linking

namespace Point

/-- The point where the search begins. -/
def start (s : Assembler) : Point :=
  ⟨0, s.memory.cells.toList, ⟨#[], s.labels, s.references⟩⟩

/-- The memory and the labels at a point: the cells ahead that are not covered still belong to the
memory. -/
def whole (p : Point) : Linking :=
  p.linking.keep (p.ahead.drop p.covered)

/-- The rest of the search. -/
def scan (p : Point) : EStateM.Result Stop Linking Unit :=
  Linking.scan p.covered p.ahead p.linking

/-- One step of the search. -/
inductive Step : Point → Point → Prop where
  /-- A cell that a patch covers is left out. -/
  | skip {covered : Nat} {cell : Int} {ahead : List Int} {linking : Linking} :
      Step ⟨covered + 1, cell :: ahead, linking⟩ ⟨covered, ahead, linking⟩
  /-- A cell that is no placeholder stays. -/
  | keep {cell : Int} {ahead : List Int} {linking : Linking} (other : cell ≠ (placeholder : Int)) :
      Step ⟨0, cell :: ahead, linking⟩ ⟨0, ahead, linking.keep [cell]⟩
  /-- A placeholder stays if the next operation has no way to refer to labels. -/
  | pass {ahead : List Int} {linking : Linking} {reference : Reference} {pending : List Reference}
      (next : linking.pending = reference :: pending)
      (unknown : LinkKind.ofMnemonic? reference.mnemonic = none) :
      Step ⟨0, (placeholder : Int) :: ahead, linking⟩ ⟨0, ahead, linking.keep [(placeholder : Int)]⟩
  /-- A placeholder is patched if the label of the next reference is found. -/
  | patch {ahead : List Int} {linking : Linking} {reference : Reference} {pending : List Reference}
      {kind : LinkKind} {address : Int} (next : linking.pending = reference :: pending)
      (known : LinkKind.ofMnemonic? reference.mnemonic = some kind)
      (found : linking.labels.find? reference.label = some address) :
      Step ⟨0, (placeholder : Int) :: ahead, linking⟩
        ⟨(kind.patch linking.done.size address).covers - 1, ahead,
          linking.apply (kind.patch linking.done.size address) address pending⟩

/-- A step does not change how the search ends. -/
theorem Step.scan_eq {p q : Point} (step : Step p q) : p.scan = q.scan := by
  cases step with
  | skip => rfl
  | keep other =>
    unfold scan
    rw [Linking.scan, if_pos other]
  | pass next unknown =>
    unfold scan
    rw [Linking.scan, if_neg (by simp)]
    simp only [next, unknown]
  | patch next known found =>
    unfold scan
    rw [Linking.scan, if_neg (by simp)]
    simp only [next, known, found]

/-- Where there is no step, the search ends or stops, and the memory is what it is. -/
theorem step_or_ends (p : Point) :
    (∃ q, Step p q) ∨ p.scan = .ok () p.whole ∨ ∃ stop, p.scan = .error stop p.whole := by
  obtain ⟨covered, ahead, linking⟩ := p
  cases ahead with
  | nil =>
    refine .inr (.inl ?_)
    unfold scan whole
    rw [List.drop_nil, keep_nil, Linking.scan]
  | cons cell ahead =>
    cases covered with
    | succ covered => exact .inl ⟨_, .skip⟩
    | zero =>
      by_cases here : cell = (placeholder : Int)
      · -- the next reference decides, if there is one
        subst here
        cases next : linking.pending with
        | nil =>
          refine .inr (.inr ⟨.crashed .unmatchedPlaceholder, ?_⟩)
          unfold scan
          rw [Linking.scan, if_neg (by simp)]
          simp only [next]
          rfl
        | cons reference pending =>
          cases known : LinkKind.ofMnemonic? reference.mnemonic with
          | none => exact .inl ⟨_, .pass next known⟩
          | some kind =>
            cases found : linking.labels.find? reference.label with
            | some address => exact .inl ⟨_, .patch next known found⟩
            | none =>
              refine .inr (.inr ⟨.reported (.undefinedLabel reference.label), ?_⟩)
              unfold scan
              rw [Linking.scan, if_neg (by simp)]
              simp only [next, known, found]
              rfl
      · exact .inl ⟨_, .keep here⟩

theorem Step.length_ahead {p q : Point} (step : Step p q) :
    q.ahead.length + 1 = p.ahead.length := by
  cases step <;> rfl

/-- **The search ends at a point that it reaches step by step**, and what it leaves is the memory
there, also if it stops. -/
theorem exists_last (p : Point) :
    ∃ q, Relation.ReflTransGen Step p q ∧
      (p.scan = .ok () q.whole ∨ ∃ stop, p.scan = .error stop q.whole) := by
  -- every step leaves one cell less ahead
  induction length : p.ahead.length generalizing p with
  | zero =>
    rcases step_or_ends p with ⟨q, step⟩ | ends
    · have := step.length_ahead
      omega
    · exact ⟨p, .refl, ends⟩
  | succ n ih =>
    rcases step_or_ends p with ⟨q, step⟩ | ends
    · have shorter := step.length_ahead
      obtain ⟨r, reached, ends⟩ := ih q (by omega)
      exact ⟨r, .head step reached, step.scan_eq ▸ ends⟩
    · exact ⟨p, .refl, ends⟩

end Point

end Linking

/-! ## §4. What the search writes. -/

theorem Digits.signedValue_nonneg {base : Nat} {digits : List Char}
    (plain : ∀ c ∈ digits, isHex c = true) : 0 ≤ signedValue base digits := by
  rw [signedValue_of_isHex plain]
  exact Int.natCast_nonneg _

/-- An address that is not negative is written without a sign. -/
theorem Digits.isHex_of_mem_address {width : Nat} {address : Int} (nonneg : 0 ≤ address) {c : Char}
    (member : c ∈ padded 2 width address) : isHex c = true := by
  obtain ⟨n, rfl⟩ := Int.eq_ofNat_of_zero_le nonneg
  exact isHex_of_mem_padded (by decide) (by decide) member

theorem offsetCell_nonneg (distance : Int) : 0 ≤ offsetCell distance := by
  unfold offsetCell
  split
  · assumption
  · exact Int.natCast_nonneg _

theorem absoluteCells_nonneg {selector : List Char} (plain : ∀ c ∈ selector, Digits.isHex c = true)
    {address : Int} (nonneg : 0 ≤ address) : ∀ cell ∈ absoluteCells selector address, 0 ≤ cell := by
  intro cell member
  simp only [absoluteCells, List.mem_cons, List.not_mem_nil, or_false] at member
  rcases member with rfl | rfl
  · refine Digits.signedValue_nonneg fun c among => ?_
    rcases List.mem_append.1 among with digit | mark
    · exact Digits.isHex_of_mem_address nonneg (List.mem_of_mem_take digit)
    · exact plain c mark
  · exact Digits.signedValue_nonneg fun c digit =>
      Digits.isHex_of_mem_address nonneg (List.mem_of_mem_drop digit)

theorem longCells_nonneg {opcode address : Int} (code : 0 ≤ opcode) (nonneg : 0 ≤ address) :
    ∀ cell ∈ longCells opcode address, 0 ≤ cell := by
  intro cell member
  simp only [longCells, List.mem_cons, List.not_mem_nil, or_false] at member
  rcases member with rfl | rfl | rfl
  · exact code
  · exact Digits.signedValue_nonneg fun c digit =>
      Digits.isHex_of_mem_address nonneg (List.mem_of_mem_take digit)
  · exact Digits.signedValue_nonneg fun c digit =>
      Digits.isHex_of_mem_address nonneg (List.mem_of_mem_drop digit)

/-- The ways to refer to labels that operations have. -/
theorem LinkKind.mem_of_ofMnemonic? {mnemonic : String} {kind : LinkKind}
    (known : ofMnemonic? mnemonic = some kind) :
    kind ∈ [relative, absolute jumpSelector, absolute callSelector, long 0x02, long 0x12,
      flexible] := by
  unfold ofMnemonic? at known
  split at known <;> simp_all

/-- **No patch holds a negative cell**, however far away its label is. -/
theorem LinkKind.patch_nonneg {mnemonic : String} {kind : LinkKind}
    (known : ofMnemonic? mnemonic = some kind) {address : Int} (nonneg : 0 ≤ address)
    (position : Nat) :
    ∀ cell ∈ (kind.patch position address).cells, 0 ≤ cell := by
  -- an address without a sign has none in any part that is cut out of it
  have jump : ∀ c ∈ jumpSelector, Digits.isHex c = true := List.all_eq_true.1 rfl
  have call : ∀ c ∈ callSelector, Digits.isHex c = true := List.all_eq_true.1 rfl
  have kinds := mem_of_ofMnemonic? known
  simp only [List.mem_cons, List.not_mem_nil, or_false] at kinds
  rcases kinds with rfl | rfl | rfl | rfl | rfl | rfl
  · intro cell member
    obtain rfl := List.mem_singleton.1 member
    exact offsetCell_nonneg _
  · exact absoluteCells_nonneg jump nonneg
  · exact absoluteCells_nonneg call nonneg
  · exact longCells_nonneg (by decide) nonneg
  · exact longCells_nonneg (by decide) nonneg
  · show ∀ cell ∈ (if sameBlock position address then (⟨_, 2⟩ : Patch) else ⟨_, 2⟩).cells, 0 ≤ cell
    split
    · exact absoluteCells_nonneg jump nonneg
    · exact longCells_nonneg (by decide) nonneg

theorem LabelTable.find?_nonneg {labels : LabelTable}
    (nonneg : ∀ entry ∈ labels.entries, 0 ≤ entry.2)
    {label : String} {address : Int} (found : labels.find? label = some address) : 0 ≤ address := by
  obtain ⟨before, after, split, _⟩ := List.lookup_eq_some_iff.1 found
  exact nonneg (label, address) (by simp [split])

namespace Linking.Point

theorem mem_appendList {done : Array Int} {cells : List Int} {cell : Int} :
    cell ∈ done ++ cells ↔ cell ∈ done ∨ cell ∈ cells := by
  rw [← Array.mem_toList_iff, Array.toList_appendList, List.mem_append, Array.mem_toList_iff]

/-- **Nothing at a point of the search is negative but erased cells.** -/
structure Sound (p : Point) : Prop where
  labels_nonneg : ∀ entry ∈ p.linking.labels.entries, 0 ≤ entry.2
  done_proper : ∀ cell ∈ p.linking.done, Memory.Proper cell
  ahead_proper : ∀ cell ∈ p.ahead, Memory.Proper cell

theorem sound_start {s : Assembler} (sound : s.Sound) : (start s).Sound where
  labels_nonneg := sound.labels_nonneg
  done_proper := by
    intro cell member
    exact absurd member (Array.not_mem_empty cell)
  ahead_proper := by
    intro cell member
    exact sound.cells_proper cell (Array.mem_toList_iff.1 member)

/-- The memory at a sound point makes a sound state. -/
theorem Sound.withLinking {p : Point} (sound : p.Sound) {s : Assembler} (nonneg : 0 ≤ s.counter) :
    (s.withLinking p.whole).Sound where
  counter_nonneg := nonneg
  labels_nonneg := sound.labels_nonneg
  cells_proper := by
    intro cell member
    rcases mem_appendList.1 member with behind | ahead
    · exact sound.done_proper cell behind
    · exact sound.ahead_proper cell (List.mem_of_mem_drop ahead)

/-- A cell that stays is as proper behind the search as it was ahead of it. -/
theorem Sound.keep {cell : Int} {ahead : List Int} {linking : Linking}
    (sound : Sound ⟨0, cell :: ahead, linking⟩) : Sound ⟨0, ahead, linking.keep [cell]⟩ := by
  obtain ⟨cell_proper, rest_proper⟩ := List.forall_mem_cons.1 sound.ahead_proper
  refine ⟨sound.labels_nonneg, ?_, rest_proper⟩
  intro other member
  rcases mem_appendList.1 member with behind | here
  · exact sound.done_proper other behind
  · exact List.mem_singleton.1 here ▸ cell_proper

/-- **A step of the search keeps a point sound.** -/
theorem Step.sound {p q : Point} (step : Step p q) (sound : p.Sound) : q.Sound := by
  cases step with
  | skip =>
    exact ⟨sound.labels_nonneg, sound.done_proper, (List.forall_mem_cons.1 sound.ahead_proper).2⟩
  | keep other => exact sound.keep
  | pass next unknown => exact sound.keep
  | patch next known found =>
    obtain ⟨labels_nonneg, done_proper, ahead_proper⟩ := sound
    have address_nonneg := LabelTable.find?_nonneg labels_nonneg found
    refine ⟨?_, ?_, (List.forall_mem_cons.1 ahead_proper).2⟩
    · -- labels move up or stay
      unfold apply
      dsimp only
      split
      · intro entry member
        obtain ⟨before, among, rfl⟩ := List.mem_map.1 member
        have := labels_nonneg before among
        show 0 ≤ LabelTable.shifted _ before.2
        unfold LabelTable.shifted
        split <;> omega
      · exact labels_nonneg
    · intro cell member
      rcases mem_appendList.1 member with behind | new
      · exact done_proper cell behind
      · exact .inr (LinkKind.patch_nonneg known address_nonneg _ cell new)

/-- Some cells of the memory at a point are replaced by cells that are not negative, and the others
stay as they are. -/
def Rewrites (p q : Point) : Prop :=
  ∃ front gone new back, p.whole.done.toList = front ++ gone ++ back ∧
    q.whole.done.toList = front ++ new ++ back ∧ ∀ cell ∈ new, 0 ≤ cell

/-- **A step of the search stores no negative cell.** -/
theorem Step.rewrites {p q : Point} (step : Step p q) (sound : p.Sound) : Rewrites p q := by
  cases step with
  | @skip covered cell ahead linking =>
    exact ⟨linking.done.toList, [], [], ahead.drop covered, by simp [whole, Linking.keep],
      by simp [whole, Linking.keep], by simp⟩
  | @keep cell ahead linking other =>
    exact ⟨linking.done.toList, [], [], cell :: ahead, by simp [whole, Linking.keep],
      by simp [whole, Linking.keep], by simp⟩
  | @pass ahead linking reference pending next unknown =>
    exact ⟨linking.done.toList, [], [], (placeholder : Int) :: ahead, by simp [whole, Linking.keep],
      by simp [whole, Linking.keep], by simp⟩
  | @patch ahead linking reference pending kind address next known found =>
    -- the patch takes the place of the placeholder and of the cells that it covers
    refine ⟨linking.done.toList,
      (placeholder : Int) :: ahead.take ((kind.patch linking.done.size address).covers - 1),
      (kind.patch linking.done.size address).cells,
      ahead.drop ((kind.patch linking.done.size address).covers - 1), ?_, ?_, ?_⟩
    · simp [whole, Linking.keep]
    · simp [whole, Linking.keep, Linking.apply]
    · exact LinkKind.patch_nonneg known (LabelTable.find?_nonneg sound.labels_nonneg found) _

/-- **Run**: every point that the search reaches is sound. -/
theorem sound_of_reaches {p q : Point} (reached : Relation.ReflTransGen Step p q)
    (sound : p.Sound) :
    q.Sound := by
  induction reached with
  | refl => exact sound
  | tail _ step ih => exact step.sound ih

end Linking.Point

/-! ## §5. Runs. -/

theorem Stop.ending_ne (stop : Stop) : stop.outcome.ending ≠ .exited 0 := by
  cases stop with
  | reported diagnostic => exact fun same => absurd (Ending.exited.inj same) (by decide)
  | crashed crash => exact Ending.noConfusion

namespace Assembler

/-- **The states of a run**: those behind the first moves of the program and, if it has been placed,
those at the points that the search reaches. -/
inductive Visits (program : List Statement) (s : Assembler) : Assembler → Prop where
  | placing {t : Assembler} (passes : Passes program s t) : Visits program s t
  | linking {placed : Assembler} {p : Linking.Point}
      (assembled : assemble program s = .ok () placed)
      (reached : Relation.ReflTransGen Linking.Point.Step (.start placed) p) :
      Visits program s (placed.withLinking p.whole)

variable {program : List Statement} {s t : Assembler}

theorem Passes.sound (passes : Passes program s t) (sound : s.Sound) : t.Sound := by
  obtain ⟨done, rest, _, performed⟩ := passes
  exact Move.performAll_keeps (fun _ _ => Move.sound) performed sound

/-- **Every state of a run is sound.** -/
theorem Visits.sound (visits : Visits program s t) (sound : s.Sound) : t.Sound := by
  cases visits with
  | placing passes => exact passes.sound sound
  | linking assembled reached =>
    have placed_sound := (passes_of_assemble (.inl assembled)).sound sound
    have point_sound :=
      Linking.Point.sound_of_reaches reached (Linking.Point.sound_start placed_sound)
    exact point_sound.withLinking placed_sound.counter_nonneg

/-- Linking ends as the search does. -/
theorem link_of_scan {linking : Linking}
    (ends : (Linking.Point.start s).scan = .ok () linking ∨
      ∃ stop, (Linking.Point.start s).scan = .error stop linking) :
    link s = .ok () (s.withLinking linking) ∨
      ∃ stop, link s = .error stop (s.withLinking linking) := by
  unfold link
  rcases ends with ok | ⟨stop, stops⟩
  · have searched : Linking.scan 0 s.memory.cells.toList ⟨#[], s.labels, s.references⟩ =
        .ok () linking := ok
    left
    rw [searched]
  · have searched : Linking.scan 0 s.memory.cells.toList ⟨#[], s.labels, s.references⟩ =
        .error stop linking := stops
    right
    refine ⟨stop, ?_⟩
    rw [searched]

/-- What linking leaves is the state at a point that the search reaches, also if it stops. -/
theorem exists_link (s : Assembler) :
    ∃ p, Relation.ReflTransGen Linking.Point.Step (.start s) p ∧
      (link s = .ok () (s.withLinking p.whole) ∨
        ∃ stop, link s = .error stop (s.withLinking p.whole)) := by
  obtain ⟨p, reached, ends⟩ := Linking.Point.exists_last (.start s)
  exact ⟨p, reached, link_of_scan ends⟩

/-- A run that stops while the program is placed leaves what has been placed. -/
theorem build_of_stops {text : String} {stop : Stop}
    (parsed : Statement.parse (Source.lines text) = .ok program)
    (stops : assemble program s = .error stop t) : build text s = .error stop t := by
  rw [build_of_parse parsed]
  show EStateM.bind (assemble program) (fun _ => link) s = _
  unfold EStateM.bind
  rw [stops]

/-- **A run ends in a state that it visits**, also if it stops. -/
theorem visits_run {text : String} (parsed : Statement.parse (Source.lines text) = .ok program) :
    Visits program s (s.run text).state := by
  unfold run
  cases assembled : assemble program s with
  | error stop placed =>
    rw [build_of_stops parsed assembled]
    exact .placing (passes_of_assemble (.inr ⟨stop, assembled⟩))
  | ok _ placed =>
    rw [build_eq_link parsed assembled]
    obtain ⟨p, reached, ok | ⟨stop, stops⟩⟩ := exists_link placed
    · rw [ok]
      exact .linking assembled reached
    · rw [stops]
      exact .linking assembled reached

/-- Every record of a sound state has a line. -/
theorem Sound.crash_listing (sound : s.Sound) : s.memory.listing.crash = none := by
  refine Listing.crash_ofRecords fun record member => ?_
  refine (HexRecord.lists_collect 0 s.memory.cells.toList).natural (fun cell among => ?_) member
  exact sound.cells_proper cell (Array.mem_toList_iff.1 among)

/-- **A run ends with status 0 exactly when the program is placed and linked.** -/
theorem ending_run_iff {text : String} (parsed : Statement.parse (Source.lines text) = .ok program)
    (sound : s.Sound) :
    (s.run text).outcome.ending = .exited 0 ↔
      ∃ placed linked, assemble program s = .ok () placed ∧ link placed = .ok () linked := by
  have final_sound : (s.run text).state.Sound := (visits_run parsed).sound sound
  unfold run at final_sound ⊢
  cases built : build text s with
  | ok _ final =>
    obtain ⟨_, placed, parsed', assembled, links⟩ := build_eq_ok built
    obtain rfl := Except.ok.inj (parsed.symm.trans parsed')
    rw [built] at final_sound
    have printed : final.memory.listing.outcome.ending = .exited 0 := by
      unfold Listing.outcome
      rw [final_sound.crash_listing]
    exact ⟨fun _ => ⟨placed, final, assembled, links⟩, fun _ => printed⟩
  | error stop final =>
    -- a stage that stops never ends with status 0
    refine ⟨fun zero => absurd zero (Stop.ending_ne stop), ?_⟩
    rintro ⟨placed, linked, assembled, links⟩
    rw [build_eq_link parsed assembled, links] at built
    exact absurd built (by simp)

end Assembler

open Assembler in
/-- **No run goes below zero.**  In every state of a run on a blank memory the counter and the
addresses of labels are not negative, and neither is any cell but erased ones.  So the next cell is
stored at the counter itself, the erased cells of the memory are those where nothing has been
stored, and the search for placeholders stores no negative cell either.  The run ends in such a
state, and it ends with status 0 exactly when the program is placed and linked: printing never
fails. -/
theorem run_stays_sound (size : Nat) (text : String) :
    ∃ program, Statement.parse (Source.lines text) = .ok program ∧
      (∀ t, Visits program (ofSize size) t → t.Sound) ∧
      Visits program (ofSize size) ((ofSize size).run text).state ∧
      (∀ done rest t, moves program = done ++ rest →
        Move.performAll done (ofSize size) = .ok () t →
          (∀ slot, t.memory.slot? t.counter = .ok slot → (slot : Int) = t.counter) ∧
          ∀ i : Nat, t.memory.cells[i]? = some Memory.erased ↔ i < size ∧ i ∉ Move.written 0 done) ∧
      (∀ placed p q, assemble program (ofSize size) = .ok () placed →
        Relation.ReflTransGen Linking.Point.Step (.start placed) p →
          Linking.Point.Step p q → Linking.Point.Rewrites p q) ∧
      (((ofSize size).run text).outcome.ending = .exited 0 ↔
        ∃ placed linked, assemble program (ofSize size) = .ok () placed ∧
          link placed = .ok () linked) := by
  obtain ⟨program, parsed⟩ := Statement.exists_parse text
  have sound := sound_ofSize size
  refine ⟨program, parsed, fun t visits => visits.sound sound, visits_run parsed, ?_, ?_,
    ending_run_iff parsed sound⟩
  · intro done rest t split performed
    refine ⟨fun slot found => Memory.slot_eq_of_nonneg ?_ found, fun i => ?_⟩
    · have passes : Passes program (ofSize size) t := ⟨done, rest, split, performed⟩
      exact (passes.sound sound).counter_nonneg
    · rw [@Move.getElem?_eq_erased_iff _ _ _ 0 rfl performed i]
      have blank : (ofSize size).memory.cells[i]? = some Memory.erased ↔ i < size := by
        simp [ofSize, Memory.blank, Array.getElem?_replicate]
      rw [blank]
  · intro placed p q assembled reached step
    have placed_sound := (passes_of_assemble (.inl assembled)).sound sound
    exact step.rewrites
      (Linking.Point.sound_of_reaches reached (Linking.Point.sound_start placed_sound))

end Mcs51
