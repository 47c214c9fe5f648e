/-
  Mcs51.Proofs.Sweep — the search for placeholders as a loop in place.

  The search can also be told as a loop that walks through the memory and changes it where it
  stands.  Its bound is the size of the memory, which is asked for anew in every turn, while a jump
  that grows inserts a cell and a patch at the end can reach past it.  Still every turn leaves fewer
  cells ahead.  So the loop ends, and the memory has grown by the jumps that grew and by what the
  last patch adds at the end.

  Main definitions:
    * `Sweep`, `Sweep.turn` : where the loop stands, and one turn of it;
    * `Sweep.run` : the whole loop, with the references that it resolves.

  Main statements:
    * `Sweep.remaining_lt` : every turn leaves fewer cells ahead;
    * `Sweep.result_run` : the loop does what the search does;
    * `Sweep.length_run` : how much the memory grows;
    * `link_ends_and_grows` : both for linking.
-/
import Mcs51.Proofs.BranchRange
import Mcs51.Proofs.Growth

namespace Mcs51

/-! ## §1. One turn. -/

/-- A reference that has been resolved. -/
structure Filling where
  reference : Reference
  /-- The address of the first cell that was written. -/
  position : Nat
  /-- The cells that were written. -/
  cells : List Int
  /-- The size of the memory that they were written to. -/
  size : Nat
  deriving Repr, DecidableEq

/-- Is this a flexible jump that has grown to three cells? -/
def Filling.grown (filling : Filling) : Bool :=
  filling.reference.mnemonic == "JMP" && filling.cells.length == 3

/-- Where the loop stands. -/
structure Sweep where
  memory : List Int
  position : Nat
  labels : LabelTable
  pending : List Reference
  deriving Repr, DecidableEq

/-- What one turn comes to. -/
inductive Turn where
  /-- The end of the memory is reached. -/
  | finished
  /-- The loop is given up. -/
  | stopped (stop : Stop)
  /-- The loop goes on, and a reference may have been resolved. -/
  | onward (filling : Option Filling) (next : Sweep)
  deriving Repr, DecidableEq

namespace Sweep

/-- Inserts a cell in front of a position, or at the end if the position lies behind it. -/
def insertAt (memory : List Int) (position : Nat) (cell : Int) : List Int :=
  memory.take position ++ cell :: memory.drop position

/-- Writes cells over those from a position on.  The memory gets longer if too few are left
there. -/
def overwrite (memory : List Int) (position : Nat) (cells : List Int) : List Int :=
  memory.take position ++ (cells ++ memory.drop (position + cells.length))

/-- Goes on to the next cell. -/
def advance (sweep : Sweep) : Sweep :=
  { sweep with position := sweep.position + 1 }

/-- The memory that a patch is written to.  A patch that grows gets one more placeholder first. -/
def opened (sweep : Sweep) (patch : Patch) : List Int :=
  if patch.grows then insertAt sweep.memory (sweep.position + patch.covers) (placeholder : Int)
  else sweep.memory

/-- Writes a patch and goes on behind it. -/
def fill (sweep : Sweep) (patch : Patch) (address : Int) (pending : List Reference) : Sweep where
  memory := overwrite (sweep.opened patch) sweep.position patch.cells
  position := sweep.position + patch.cells.length
  labels := if patch.grows then sweep.labels.shiftAbove address else sweep.labels
  pending := pending

/-- **One turn of the loop**, which begins with a look at the size of the memory. -/
def turn (sweep : Sweep) : Turn :=
  match sweep.memory[sweep.position]? with
  | none => .finished
  | some cell =>
    if cell ≠ (placeholder : Int) then .onward none sweep.advance
    else
      match sweep.pending with
      | [] => .stopped (.crashed .unmatchedPlaceholder)
      | reference :: pending =>
        match LinkKind.ofMnemonic? reference.mnemonic with
        | none => .onward none sweep.advance
        | some kind =>
          match sweep.labels.find? reference.label with
          | none => .stopped (.reported (.undefinedLabel reference.label))
          | some address =>
            let patch := kind.patch sweep.position address
            .onward (some ⟨reference, sweep.position, patch.cells, (sweep.opened patch).length⟩)
              (sweep.fill patch address pending)

/-- The number of cells ahead. -/
def remaining (sweep : Sweep) : Nat :=
  sweep.memory.length - sweep.position

section Turn

variable {sweep next : Sweep} {filling : Option Filling} {stop : Stop}

theorem turn_of_le (ended : sweep.memory.length ≤ sweep.position) : sweep.turn = .finished := by
  unfold turn
  rw [List.getElem?_eq_none ended]

section Cell

variable {cell : Int} {reference : Reference} {pending : List Reference} {kind : LinkKind}
  {address : Int}

theorem turn_of_other (here : sweep.memory[sweep.position]? = some cell)
    (other : cell ≠ (placeholder : Int)) : sweep.turn = .onward none sweep.advance := by
  simp [turn, here, other]

theorem turn_of_unmatched (here : sweep.memory[sweep.position]? = some (placeholder : Int))
    (used_up : sweep.pending = []) : sweep.turn = .stopped (.crashed .unmatchedPlaceholder) := by
  simp [turn, here, used_up]

theorem turn_of_unknown (here : sweep.memory[sweep.position]? = some (placeholder : Int))
    (next : sweep.pending = reference :: pending)
    (unknown : LinkKind.ofMnemonic? reference.mnemonic = none) :
    sweep.turn = .onward none sweep.advance := by
  simp [turn, here, next, unknown]

theorem turn_of_undefined (here : sweep.memory[sweep.position]? = some (placeholder : Int))
    (next : sweep.pending = reference :: pending)
    (known : LinkKind.ofMnemonic? reference.mnemonic = some kind)
    (undefined : sweep.labels.find? reference.label = none) :
    sweep.turn = .stopped (.reported (.undefinedLabel reference.label)) := by
  simp [turn, here, next, known, undefined]

theorem turn_of_found (here : sweep.memory[sweep.position]? = some (placeholder : Int))
    (next : sweep.pending = reference :: pending)
    (known : LinkKind.ofMnemonic? reference.mnemonic = some kind)
    (found : sweep.labels.find? reference.label = some address) :
    sweep.turn =
      .onward (some ⟨reference, sweep.position, (kind.patch sweep.position address).cells,
          (sweep.opened (kind.patch sweep.position address)).length⟩)
        (sweep.fill (kind.patch sweep.position address) address pending) := by
  simp [turn, here, next, known, found]

end Cell

/-- **What a turn can do.**  At the end of the memory there is none.  Where the loop stands at a
cell, the turn goes on to the next one, resolves the next reference or gives up. -/
theorem turn_cases (sweep : Sweep) :
    sweep.turn = .finished ∨
    (sweep.position < sweep.memory.length ∧ sweep.turn = .onward none sweep.advance) ∨
    (∃ reference pending kind address, sweep.position < sweep.memory.length ∧
      sweep.pending = reference :: pending ∧
      LinkKind.ofMnemonic? reference.mnemonic = some kind ∧
      sweep.labels.find? reference.label = some address ∧
      sweep.turn = .onward (some ⟨reference, sweep.position,
        (kind.patch sweep.position address).cells,
          (sweep.opened (kind.patch sweep.position address)).length⟩)
        (sweep.fill (kind.patch sweep.position address) address pending)) ∨
    (sweep.pending = [] ∧ sweep.turn = .stopped (.crashed .unmatchedPlaceholder)) ∨
    ∃ reference pending, sweep.pending = reference :: pending ∧
      sweep.labels.find? reference.label = none ∧
      sweep.turn = .stopped (.reported (.undefinedLabel reference.label)) := by
  by_cases inside : sweep.position < sweep.memory.length
  · have here := List.getElem?_eq_getElem inside
    by_cases open_here : sweep.memory[sweep.position] = (placeholder : Int)
    · rw [open_here] at here
      -- the next reference decides, if there is one
      cases next : sweep.pending with
      | nil => exact .inr (.inr (.inr (.inl ⟨rfl, turn_of_unmatched here next⟩)))
      | cons reference pending =>
        cases known : LinkKind.ofMnemonic? reference.mnemonic with
        | none => exact .inr (.inl ⟨inside, turn_of_unknown here next known⟩)
        | some kind =>
          cases found : sweep.labels.find? reference.label with
          | none =>
            exact .inr (.inr (.inr (.inr ⟨reference, pending, rfl, found,
              turn_of_undefined here next known found⟩)))
          | some address =>
            exact .inr (.inr (.inl ⟨reference, pending, kind, address, inside, rfl, known, found,
              turn_of_found here next known found⟩))
    · exact .inr (.inl ⟨inside, turn_of_other here open_here⟩)
  · exact .inl (turn_of_le (by omega))

theorem turn_onward (h : sweep.turn = .onward filling next) :
    sweep.position < sweep.memory.length ∧
      ((filling = none ∧ next = sweep.advance) ∨
        ∃ reference pending kind address, sweep.pending = reference :: pending ∧
          LinkKind.ofMnemonic? reference.mnemonic = some kind ∧
          sweep.labels.find? reference.label = some address ∧
          filling = some ⟨reference, sweep.position, (kind.patch sweep.position address).cells,
            (sweep.opened (kind.patch sweep.position address)).length⟩ ∧
          next = sweep.fill (kind.patch sweep.position address) address pending) := by
  rcases sweep.turn_cases with eq | ⟨inside, eq⟩ |
    ⟨reference, pending, kind, address, inside, pending_eq, known, found, eq⟩ | ⟨_, eq⟩ |
      ⟨_, _, _, _, eq⟩
  · exact absurd (eq.symm.trans h) (by simp)
  · obtain ⟨rfl, rfl⟩ := Turn.onward.inj (eq.symm.trans h)
    exact ⟨inside, .inl ⟨rfl, rfl⟩⟩
  · obtain ⟨rfl, rfl⟩ := Turn.onward.inj (eq.symm.trans h)
    exact ⟨inside, .inr ⟨reference, pending, kind, address, pending_eq, known, found, rfl, rfl⟩⟩
  · exact absurd (eq.symm.trans h) (by simp)
  · exact absurd (eq.symm.trans h) (by simp)

theorem turn_stopped (h : sweep.turn = .stopped stop) :
    (sweep.pending = [] ∧ stop = .crashed .unmatchedPlaceholder) ∨
      ∃ reference pending, sweep.pending = reference :: pending ∧
        sweep.labels.find? reference.label = none ∧
        stop = .reported (.undefinedLabel reference.label) := by
  rcases sweep.turn_cases with eq | ⟨_, eq⟩ | ⟨_, _, _, _, _, _, _, _, eq⟩ | ⟨used_up, eq⟩ |
    ⟨reference, pending, pending_eq, undefined, eq⟩
  · exact absurd (eq.symm.trans h) (by simp)
  · exact absurd (eq.symm.trans h) (by simp)
  · exact absurd (eq.symm.trans h) (by simp)
  · exact .inl ⟨used_up, Turn.stopped.inj (h.symm.trans eq)⟩
  · exact .inr ⟨reference, pending, pending_eq, undefined, Turn.stopped.inj (h.symm.trans eq)⟩

theorem length_opened (sweep : Sweep) (patch : Patch) :
    (sweep.opened patch).length = sweep.memory.length + if patch.grows = true then 1 else 0 := by
  unfold opened insertAt
  split
  · simp only [List.length_append, List.length_take, List.length_cons, List.length_drop]
    omega
  · rfl

/-- Writing cells adds those that do not fit. -/
theorem length_overwrite {memory : List Int} {position : Nat} (inside : position ≤ memory.length)
    (cells : List Int) :
    (overwrite memory position cells).length = max memory.length (position + cells.length) := by
  unfold overwrite
  simp only [List.length_append, List.length_take, List.length_drop]
  omega

/-- A patch makes room for what it needs beyond the placeholders of its operation, and adds what
does not fit at the end. -/
theorem length_fill (inside : sweep.position < sweep.memory.length) (kind : LinkKind)
    (address : Int) (pending : List Reference) :
    (sweep.fill (kind.patch sweep.position address) address pending).memory.length =
      sweep.memory.length + (if (kind.patch sweep.position address).grows = true then 1 else 0) +
        (sweep.position + kind.width - sweep.memory.length) := by
  have opened_eq := sweep.length_opened (kind.patch sweep.position address)
  have length_eq := kind.length_cells_patch sweep.position address
  unfold fill
  rw [length_overwrite (by omega), opened_eq, length_eq]
  omega

/-- **Every turn leaves fewer cells ahead**, also if it makes the memory longer. -/
theorem remaining_lt (h : sweep.turn = .onward filling next) :
    next.remaining < sweep.remaining := by
  obtain ⟨inside, ⟨_, rfl⟩ | ⟨reference, pending, kind, address, _, _, _, _, rfl⟩⟩ := turn_onward h
  · show sweep.memory.length - (sweep.position + 1) < sweep.memory.length - sweep.position
    omega
  · have longer := length_fill inside kind address pending
    have length_eq := kind.length_cells_patch sweep.position address
    have positive := kind.width_pos
    unfold remaining
    rw [longer]
    show _ - (sweep.position + (kind.patch sweep.position address).cells.length) < _
    rw [length_eq]
    split <;> omega

end Turn

/-! ## §2. The loop. -/

/-- How the loop ends. -/
structure Finish where
  /-- The references that were resolved, in this order. -/
  fillings : List Filling
  /-- Why it was given up, if it was. -/
  stop? : Option Stop
  /-- Where it stood in the end. -/
  last : Sweep
  deriving Repr, DecidableEq

/-- **The loop**: turns are made until the end of the memory is reached or a turn gives up. -/
def run (sweep : Sweep) : Finish :=
  match _same : sweep.turn with
  | .finished => ⟨[], none, sweep⟩
  | .stopped stop => ⟨[], some stop, sweep⟩
  | .onward filling next =>
    let finish := run next
    ⟨filling.toList ++ finish.fillings, finish.stop?, finish.last⟩
termination_by sweep.remaining
decreasing_by exact remaining_lt _same

section Run

variable {sweep next : Sweep} {filling : Option Filling} {stop : Stop}

theorem run_of_finished (h : sweep.turn = .finished) : sweep.run = ⟨[], none, sweep⟩ := by
  rw [run]
  split
  · rfl
  next stopped => exact absurd (h.symm.trans stopped) (by simp)
  next onward => exact absurd (h.symm.trans onward) (by simp)

theorem run_of_stopped (h : sweep.turn = .stopped stop) : sweep.run = ⟨[], some stop, sweep⟩ := by
  rw [run]
  split
  next finished => exact absurd (h.symm.trans finished) (by simp)
  next stopped =>
    obtain rfl := Turn.stopped.inj (h.symm.trans stopped)
    rfl
  next onward => exact absurd (h.symm.trans onward) (by simp)

theorem run_of_onward (h : sweep.turn = .onward filling next) :
    sweep.run = ⟨filling.toList ++ next.run.fillings, next.run.stop?, next.run.last⟩ := by
  rw [run]
  split
  next finished => exact absurd (h.symm.trans finished) (by simp)
  next stopped => exact absurd (h.symm.trans stopped) (by simp)
  next onward =>
    obtain ⟨rfl, rfl⟩ := Turn.onward.inj (h.symm.trans onward)
    rfl

end Run

/-! ## §3. The loop and the search. -/

/-- The memory, the labels and the references where the loop stands. -/
def linking (sweep : Sweep) : Linking :=
  ⟨sweep.memory.toArray, sweep.labels, sweep.pending⟩

/-- The end of the loop as the end of a search. -/
def Finish.result (finish : Finish) : EStateM.Result Stop Linking Unit :=
  match finish.stop? with
  | none => .ok () finish.last.linking
  | some stop => .error stop finish.last.linking

/-- Where the loop stands when the search has come so far. -/
def ofSearch (covered : Nat) (ahead : List Int) (linking : Linking) : Sweep :=
  ⟨linking.done.toList ++ ahead.drop covered, linking.done.size, linking.labels, linking.pending⟩

section Search

variable {cell : Int} {ahead : List Int} {linking : Linking}

theorem getElem?_ofSearch :
    (ofSearch 0 (cell :: ahead) linking).memory[(ofSearch 0 (cell :: ahead) linking).position]? =
      some cell := by
  show (linking.done.toList ++ cell :: ahead)[linking.done.size]? = some cell
  rw [List.getElem?_append_right (by simp)]
  simp

theorem linking_ofSearch (covered : Nat) (ahead : List Int) (linking : Linking) :
    (ofSearch covered ahead linking).linking = linking.keep (ahead.drop covered) := by
  simp [Sweep.linking, ofSearch, Linking.keep, ← Array.toList_inj]

/-- Going on to the next cell leaves the cell behind the search. -/
theorem advance_ofSearch :
    (ofSearch 0 (cell :: ahead) linking).advance = ofSearch 0 ahead (linking.keep [cell]) := by
  simp [advance, ofSearch, Linking.keep]

/-- The memory behind a patch: what the patch covers is gone, whether a placeholder was inserted or
not. -/
theorem overwrite_patch (front rest : List Int) (kind : LinkKind) (position : Nat) (address : Int)
    (labels : LabelTable) (pending : List Reference) :
    overwrite
      ((⟨front ++ rest, front.length, labels, pending⟩ : Sweep).opened
        (kind.patch position address))
      front.length (kind.patch position address).cells =
    front ++
      ((kind.patch position address).cells ++ rest.drop (kind.patch position address).covers) := by
  have length_eq := kind.length_cells_patch position address
  unfold overwrite opened
  rw [LinkKind.covers_patch]
  by_cases grows : (kind.patch position address).grows = true
  · simp only [grows, if_true] at length_eq ⊢
    -- the inserted placeholder stands right behind the cells that are covered, or at the end
    have opened : insertAt (front ++ rest) (front.length + kind.width) (placeholder : Int) =
        front ++ (rest.take kind.width ++ (placeholder : Int) :: rest.drop kind.width) := by
      unfold insertAt
      rw [List.take_length_add_append, List.drop_length_add_append, List.append_assoc]
    have covered : (rest.take kind.width ++ (placeholder : Int) :: rest.drop kind.width).drop
        (kind.width + 1) = rest.drop kind.width := by
      by_cases enough : kind.width ≤ rest.length
      · rw [List.drop_append, List.drop_eq_nil_of_le (by rw [List.length_take]; omega),
          List.length_take, Nat.min_eq_left enough, Nat.add_sub_cancel_left]
        rfl
      · rw [List.drop_eq_nil_of_le (by simp; omega), List.drop_eq_nil_of_le (by omega)]
    rw [opened, List.take_left, length_eq, List.drop_length_add_append, covered]
  · simp only [grows, Bool.false_eq_true, if_false, Nat.add_zero] at length_eq ⊢
    rw [List.take_left, length_eq, List.drop_length_add_append]

/-- Writing a patch in place is putting it behind the search, with the cells ahead covered. -/
theorem fill_ofSearch (kind : LinkKind) (address : Int) (pending : List Reference) :
    (ofSearch 0 (cell :: ahead) linking).fill
        (kind.patch linking.done.size address) address pending =
      ofSearch ((kind.patch linking.done.size address).covers - 1) ahead
        (linking.apply (kind.patch linking.done.size address) address pending) := by
  have memory_eq := overwrite_patch linking.done.toList (cell :: ahead) kind
    linking.done.size address linking.labels linking.pending
  have positive := kind.width_pos
  obtain ⟨more, width_eq⟩ : ∃ more, kind.width = more + 1 := ⟨kind.width - 1, by omega⟩
  rw [LinkKind.covers_patch, width_eq] at memory_eq
  simp only [Array.length_toList, List.drop_succ_cons] at memory_eq
  unfold fill ofSearch Linking.apply
  simp only [List.drop_zero, LinkKind.covers_patch, width_eq, memory_eq, Nat.add_sub_cancel,
    Linking.size_appendList, Array.toList_appendList, List.append_assoc]

/-- **The loop does what the search does.** -/
theorem result_run (covered : Nat) (ahead : List Int) (linking : Linking) :
    (ofSearch covered ahead linking).run.result = Linking.scan covered ahead linking := by
  induction ahead generalizing covered linking with
  | nil =>
    have ended : (ofSearch covered [] linking).turn = .finished := turn_of_le (by simp [ofSearch])
    rw [run_of_finished ended, Linking.scan]
    show EStateM.Result.ok () (ofSearch covered [] linking).linking = _
    rw [linking_ofSearch, List.drop_nil, Linking.keep_nil]
  | cons cell ahead ih =>
    cases covered with
    | succ covered => exact ih covered linking
    | zero =>
      -- a turn that goes on leads to where the search goes on, and one that gives up ends both
      have onward : ∀ {filling : Option Filling} {next : Sweep},
          (ofSearch 0 (cell :: ahead) linking).turn = .onward filling next →
            (ofSearch 0 (cell :: ahead) linking).run.result = next.run.result := by
        intro filling next goes_on
        rw [run_of_onward goes_on]
        rfl
      have stopped : ∀ {stop : Stop}, (ofSearch 0 (cell :: ahead) linking).turn = .stopped stop →
          (ofSearch 0 (cell :: ahead) linking).run.result =
            .error stop (linking.keep (cell :: ahead)) := by
        intro stop gives_up
        rw [run_of_stopped gives_up]
        show EStateM.Result.error stop (ofSearch 0 (cell :: ahead) linking).linking = _
        rw [linking_ofSearch, List.drop_zero]
      rw [Linking.scan]
      by_cases here : cell = (placeholder : Int)
      · subst here
        rw [if_neg (by simp)]
        cases next : linking.pending with
        | nil => exact stopped (turn_of_unmatched getElem?_ofSearch next)
        | cons reference pending =>
          dsimp only
          cases known : LinkKind.ofMnemonic? reference.mnemonic with
          | none =>
            dsimp only
            rw [← ih 0, ← advance_ofSearch]
            exact onward (turn_of_unknown getElem?_ofSearch next known)
          | some kind =>
            dsimp only
            cases found : linking.labels.find? reference.label with
            | none => exact stopped (turn_of_undefined getElem?_ofSearch next known found)
            | some address =>
              dsimp only
              rw [← ih, ← fill_ofSearch]
              exact onward (turn_of_found getElem?_ofSearch next known found)
      · rw [if_pos here, ← ih 0, ← advance_ofSearch]
        exact onward (turn_of_other getElem?_ofSearch here)

end Search

/-! ## §4. How the loop ends. -/

/-- **How far the loop comes**: it has resolved the first references, in their order, no label has
got lost, and where it stands there is no further turn. -/
structure Ends (sweep : Sweep) (finish : Finish) : Prop where
  pending_eq : sweep.pending = finish.fillings.map Filling.reference ++ finish.last.pending
  defined_eq : ∀ label, (finish.last.labels.find? label).isSome = (sweep.labels.find? label).isSome
  turn_eq : finish.last.turn = (finish.stop?.map Turn.stopped).getD .finished

/-- **Step**: a turn resolves the next reference or none, and loses no label. -/
theorem Ends.of_onward {sweep next : Sweep} {filling : Option Filling} {finish : Finish}
    (h : sweep.turn = .onward filling next) (ends : Ends next finish) :
    Ends sweep ⟨filling.toList ++ finish.fillings, finish.stop?, finish.last⟩ := by
  obtain ⟨_, ⟨rfl, rfl⟩ | ⟨reference, pending, kind, address, pending_eq, _, _, rfl, rfl⟩⟩ :=
    turn_onward h
  · exact ⟨ends.pending_eq, ends.defined_eq, ends.turn_eq⟩
  · refine ⟨?_, ?_, ends.turn_eq⟩
    · have rest : pending = _ := ends.pending_eq
      rw [pending_eq, rest]
      rfl
    · intro label
      rw [ends.defined_eq label]
      show (LabelTable.find? (if _ then _ else _) label).isSome = _
      split
      · rw [LabelTable.find?_shiftAbove, Option.isSome_map]
      · rfl

/-- **Run**: the loop ends so. -/
theorem ends_run (sweep : Sweep) : Ends sweep sweep.run := by
  induction sweep using run.induct with
  | case1 sweep finished =>
    rw [run_of_finished finished]
    exact ⟨rfl, fun _ => rfl, finished⟩
  | case2 sweep stop stopped =>
    rw [run_of_stopped stopped]
    exact ⟨rfl, fun _ => rfl, stopped⟩
  | case3 sweep filling next onward ih =>
    rw [run_of_onward onward]
    exact ih.of_onward onward

/-! ## §5. How much the memory grows. -/

/-- The numbers of cells that the references of an operation wait in, and the one that a flexible
jump can grow to. -/
def fillingSizes : List (String × Nat) :=
  branchNames.map (·, 1) ++
    [("AJMP", 2), ("ACALL", 2), ("JMP", 2), ("JMP", 3), ("LJMP", 3), ("LCALL", 3)]

/-- Only the flexible jump grows, and then to three cells. -/
theorem grows_patch_iff {mnemonic : String} {kind : LinkKind}
    (known : LinkKind.ofMnemonic? mnemonic = some kind) (position : Nat) (address : Int) :
    (kind.patch position address).grows = true ↔
      mnemonic = "JMP" ∧ (kind.patch position address).cells.length = 3 := by
  have length_eq := kind.length_cells_patch position address
  cases kind with
  | relative | absolute _ | long _ =>
    refine iff_of_false (by simp [LinkKind.patch, Patch.grows]) ?_
    rintro ⟨rfl, _⟩
    exact absurd known (by simp [LinkKind.ofMnemonic?])
  | flexible =>
    have named := LinkKind.eq_of_ofMnemonic?_flexible known
    have width_eq : LinkKind.flexible.width = 2 := rfl
    rw [length_eq, width_eq]
    constructor
    · intro grows
      rw [if_pos grows]
      exact ⟨named, rfl⟩
    · rintro ⟨_, three⟩
      by_contra fits
      rw [if_neg fits] at three
      exact absurd three (by decide)

theorem mem_fillingSizes {mnemonic : String} {kind : LinkKind}
    (known : LinkKind.ofMnemonic? mnemonic = some kind) (position : Nat) (address : Int) :
    (mnemonic, (kind.patch position address).cells.length) ∈ fillingSizes := by
  by_cases grows : (kind.patch position address).grows = true
  · obtain ⟨rfl, three⟩ := (grows_patch_iff known position address).1 grows
    rw [three]
    decide
  · have waiting : (mnemonic, kind.width) ∈ fillingSizes := by
      unfold LinkKind.ofMnemonic? at known
      split at known <;> cases known <;> decide
    rw [kind.length_cells_patch, if_neg grows]
    exact waiting

/-- **Step**: how much longer a turn makes the memory.  Only a patch that reaches past the end adds
more than one cell for a jump that grows, and then the end is reached. -/
theorem length_of_turn {sweep next : Sweep} {filling : Option Filling}
    (h : sweep.turn = .onward filling next) :
    (∀ filled ∈ filling, (filled.reference.mnemonic, filled.cells.length) ∈ fillingSizes) ∧
    ∃ k ≤ 2, next.memory.length =
        sweep.memory.length + filling.toList.countP Filling.grown + k ∧
      (0 < k → next.turn = .finished ∧
        ∃ filled ∈ filling, filled.position + filled.cells.length = filled.size + k) := by
  obtain ⟨inside, ⟨rfl, rfl⟩ | ⟨reference, pending, kind, address, _, known, _, rfl, rfl⟩⟩ :=
    turn_onward h
  · exact ⟨by simp, 0, by omega, rfl, by omega⟩
  · have longer := length_fill inside kind address pending
    have length_eq := kind.length_cells_patch sweep.position address
    have narrow := kind.width_le
    have opened_eq := sweep.length_opened (kind.patch sweep.position address)
    have grown_eq : ∀ size, Filling.grown ⟨reference, sweep.position,
        (kind.patch sweep.position address).cells, size⟩ =
          (kind.patch sweep.position address).grows := by
      intro size
      rw [Bool.eq_iff_iff, grows_patch_iff known]
      simp [Filling.grown]
    refine ⟨?_, sweep.position + kind.width - sweep.memory.length, by omega, ?_, ?_⟩
    · intro filled same
      obtain rfl := Option.some.inj same
      exact mem_fillingSizes known sweep.position address
    · rw [longer]
      simp [List.countP_cons, grown_eq]
    · intro past
      refine ⟨turn_of_le ?_, _, rfl, ?_⟩
      · rw [longer]
        show _ ≤ sweep.position + (kind.patch sweep.position address).cells.length
        rw [length_eq]
        split <;> omega
      · -- the inserted placeholder counts on both sides
        show sweep.position + (kind.patch sweep.position address).cells.length =
          (sweep.opened (kind.patch sweep.position address)).length + _
        rw [length_eq, opened_eq]
        omega

/-- **Run**: the memory grows by one cell for each jump that grows, and by at most two more cells,
which the last patch adds at the end. -/
theorem length_run (sweep : Sweep) :
    (∀ filling ∈ sweep.run.fillings,
      (filling.reference.mnemonic, filling.cells.length) ∈ fillingSizes) ∧
    ∃ k ≤ 2, sweep.run.last.memory.length =
        sweep.memory.length + sweep.run.fillings.countP Filling.grown + k ∧
      (0 < k → ∃ filling, sweep.run.fillings.getLast? = some filling ∧
        filling.position + filling.cells.length = filling.size + k) := by
  induction sweep using run.induct with
  | case1 sweep finished =>
    rw [run_of_finished finished]
    exact ⟨by simp, 0, by omega, rfl, by omega⟩
  | case2 sweep stop stopped =>
    rw [run_of_stopped stopped]
    exact ⟨by simp, 0, by omega, rfl, by omega⟩
  | case3 sweep filling next onward ih =>
    obtain ⟨sized, k, small, length_eq, past⟩ := length_of_turn onward
    obtain ⟨sized_rest, k_rest, small_rest, length_rest, past_rest⟩ := ih
    rw [run_of_onward onward]
    refine ⟨?_, ?_⟩
    · intro filled member
      rcases List.mem_append.1 member with here | later
      · exact sized filled (Option.mem_toList.1 here)
      · exact sized_rest filled later
    · by_cases ended : 0 < k
      · -- a patch that reaches past the end is the last one
        obtain ⟨finished, filled, same, reaches⟩ := past ended
        obtain rfl := Option.mem_def.1 same
        rw [run_of_finished finished]
        exact ⟨k, small, length_eq, fun _ => ⟨filled, rfl, reaches⟩⟩
      · refine ⟨k_rest, small_rest, ?_, ?_⟩
        · rw [List.countP_append, length_rest, length_eq]
          omega
        · intro later
          obtain ⟨last, last_eq, reaches⟩ := past_rest later
          refine ⟨last, ?_, reaches⟩
          rw [List.getLast?_append, last_eq]
          rfl

/-- Where the loop begins. -/
def start (s : Assembler) : Sweep :=
  ⟨s.memory.cells.toList, 0, s.labels, s.references⟩

/-- Linking is the loop from the beginning of the memory. -/
theorem result_run_start (s : Assembler) :
    (start s).run.result = Linking.scan 0 s.memory.cells.toList ⟨#[], s.labels, s.references⟩ :=
  result_run 0 s.memory.cells.toList ⟨#[], s.labels, s.references⟩

theorem link_of_finished {s : Assembler} (finished : (start s).run.stop? = none) :
    Assembler.link s = .ok () (s.withLinking (start s).run.last.linking) := by
  have searched := result_run_start s
  unfold Finish.result at searched
  rw [finished] at searched
  unfold Assembler.link
  rw [← searched]

theorem link_of_stopped {s : Assembler} {stop : Stop} (stopped : (start s).run.stop? = some stop) :
    Assembler.link s = .error stop (s.withLinking (start s).run.last.linking) := by
  have searched := result_run_start s
  unfold Finish.result at searched
  rw [stopped] at searched
  unfold Assembler.link
  rw [← searched]

end Sweep

/-- **Linking ends, and the memory grows by what was inserted and by what the last patch adds.**  In
every turn of the loop fewer cells are ahead, whatever the memory, the references and the labels
are.  So the loop comes to the end of the memory, or it meets a reference whose label is not
defined, or it meets a placeholder when all references are used up.  If it comes to the end, the
memory has one more cell for every flexible jump that took three cells, and up to two more: as many
as the cells of the last reference that was resolved reach past the end, when the cell for a jump
that grows is already there. -/
theorem link_ends_and_grows (s : Assembler) :
    (∀ (sweep next : Sweep) (filling : Option Filling),
      sweep.turn = .onward filling next → next.remaining < sweep.remaining) ∧
    ∃ finish, (Sweep.start s).run = finish ∧
      (Assembler.link s = .ok () (s.withLinking finish.last.linking) ∨
        (∃ reference pending,
          s.references = finish.fillings.map Filling.reference ++ reference :: pending ∧
          s.labels.find? reference.label = none ∧
          Assembler.link s = .error (.reported (.undefinedLabel reference.label))
            (s.withLinking finish.last.linking)) ∨
        (s.references = finish.fillings.map Filling.reference ∧
          Assembler.link s = .error (.crashed .unmatchedPlaceholder)
            (s.withLinking finish.last.linking))) ∧
      (∀ filling ∈ finish.fillings,
        (filling.reference.mnemonic, filling.cells.length) ∈ Sweep.fillingSizes) ∧
      ∀ final, Assembler.link s = .ok () final → ∃ k ≤ 2,
        final.memory.cells.size =
          s.memory.cells.size + finish.fillings.countP Filling.grown + k ∧
        (0 < k → ∃ filling, finish.fillings.getLast? = some filling ∧
          filling.position + filling.cells.length = filling.size + k) := by
  obtain ⟨sized, k, small, length_eq, past⟩ := Sweep.length_run (Sweep.start s)
  obtain ⟨pending_eq, defined_eq, turn_eq⟩ := Sweep.ends_run (Sweep.start s)
  refine ⟨fun _ _ _ => Sweep.remaining_lt, _, rfl, ?_, sized, ?_⟩
  · cases ending : (Sweep.start s).run.stop? with
    | none => exact .inl (Sweep.link_of_finished ending)
    | some stop =>
      refine .inr ?_
      rw [ending] at turn_eq
      have links := Sweep.link_of_stopped ending
      rcases Sweep.turn_stopped turn_eq with ⟨used_up, rfl⟩ |
        ⟨reference, pending, next, undefined, rfl⟩
      · refine .inr ⟨?_, links⟩
        rw [used_up, List.append_nil] at pending_eq
        exact pending_eq
      · refine .inl ⟨reference, pending, ?_, ?_, links⟩
        · rw [next] at pending_eq
          exact pending_eq
        · -- a label that is not defined in the end was not defined in the beginning
          have same : _ = (s.labels.find? reference.label).isSome := defined_eq reference.label
          rw [undefined] at same
          exact Option.not_isSome_iff_eq_none.1 (by rw [← same]; decide)
  · intro final links
    have finished : (Sweep.start s).run.stop? = none := by
      cases ending : (Sweep.start s).run.stop? with
      | none => rfl
      | some stop =>
        rw [Sweep.link_of_stopped ending] at links
        exact absurd links (by simp)
    rw [Sweep.link_of_finished finished] at links
    obtain ⟨_, rfl⟩ := EStateM.Result.ok.inj links
    refine ⟨k, small, ?_, past⟩
    show (Sweep.start s).run.last.memory.toArray.size = _
    rw [List.size_toArray, length_eq, ← Array.length_toList]
    rfl

/-- A flexible jump to another block, and a long jump for which one cell is left. -/
def overrunning : Assembler where
  memory := ⟨#[0xA5, 0xA5, 0xA5]⟩
  counter := 3
  labels := ⟨[("FAR", 4096)]⟩
  references := [⟨"JMP", "FAR"⟩, ⟨"LJMP", "FAR"⟩]

/-- The loop over it: the first jump grows, and the second reaches past the end by two cells. -/
theorem run_overrunning :
    (Sweep.start overrunning).run =
      ⟨[⟨⟨"JMP", "FAR"⟩, 0, [0x02, 0x10, 0x00], 4⟩, ⟨⟨"LJMP", "FAR"⟩, 3, [0x02, 0x10, 0x00], 4⟩],
        none, ⟨[0x02, 0x10, 0x00, 0x02, 0x10, 0x00], 6, ⟨[("FAR", 4096)]⟩, []⟩⟩ := by
  have first : (Sweep.start overrunning).turn =
      .onward (some ⟨⟨"JMP", "FAR"⟩, 0, [0x02, 0x10, 0x00], 4⟩)
        ⟨[0x02, 0x10, 0x00, 0xA5], 3, ⟨[("FAR", 4096)]⟩, [⟨"LJMP", "FAR"⟩]⟩ := by decide +kernel
  have second : Sweep.turn ⟨[0x02, 0x10, 0x00, 0xA5], 3, ⟨[("FAR", 4096)]⟩, [⟨"LJMP", "FAR"⟩]⟩ =
      .onward (some ⟨⟨"LJMP", "FAR"⟩, 3, [0x02, 0x10, 0x00], 4⟩)
        ⟨[0x02, 0x10, 0x00, 0x02, 0x10, 0x00], 6, ⟨[("FAR", 4096)]⟩, []⟩ := by decide +kernel
  rw [Sweep.run_of_onward first, Sweep.run_of_onward second, Sweep.run_of_finished (by decide)]
  rfl

/-- The memory grows from three cells to six: one for the jump that grows, and two that the last
jump adds at the end. -/
theorem link_ends_and_grows_overrunning :
    ∃ final, Assembler.link overrunning = .ok () final ∧
      ∃ k ≤ 2, final.memory.cells.size = 3 + 1 + k ∧ 0 < k ∧
        ∃ filling, (Sweep.start overrunning).run.fillings.getLast? = some filling ∧
          filling.position + filling.cells.length = filling.size + k := by
  obtain ⟨_, finish, same, _, _, grows⟩ := link_ends_and_grows overrunning
  rw [run_overrunning] at same
  subst same
  have links := Sweep.link_of_finished (s := overrunning) (by rw [run_overrunning])
  obtain ⟨k, small, size_eq, past⟩ := grows _ links
  have positive : 0 < k := by
    rw [run_overrunning] at size_eq
    have six : 6 = 3 + 1 + k := size_eq
    omega
  refine ⟨_, links, k, small, size_eq, positive, ?_⟩
  rw [run_overrunning]
  exact past positive

end Mcs51
