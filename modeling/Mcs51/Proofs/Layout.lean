/-
  Mcs51.Proofs.Layout — where a program is placed.

  What a statement does depends on the statement alone; where it does it depends on the counter.  So
  a program has a timeline: its actions up to the end directive, each with the value of the counter
  at that moment.  Everything that placing a program leaves behind is read off the timeline: the
  memory is written by the placements, in order, the labels stand where they were defined, and the
  references are those of the placements.

  Main definitions:
    * `Action`, `Body.action?` : what a statement does;
    * `Layout.timeline`, `Layout.placements`, `Layout.definitions` : when and where it is done;
    * `Placement` : an instruction at its address.

  Main statements:
    * `Action.perform_eq_ok`, `Action.perform_of_admissible` : one action, in both directions;
    * `Layout.described_of_performAll` : what a sequence of actions leaves behind;
    * `Layout.leaves_of_assemble` : the same for a program and an empty memory;
    * `Layout.assemble_of_accepted` : which programs are placed.
-/
import Mcs51.Proofs.EncodingShape
import Mcs51.Proofs.SourceLines

namespace Mcs51

/-! ## §1. Actions. -/

/-- What an accepted statement makes the assembler do. -/
inductive Action where
  /-- Defines a label at the counter. -/
  | define (label : String)
  /-- Sets the counter. -/
  | goTo (address : Nat)
  /-- Stores the cells of an instruction and notes its reference. -/
  | emit (mnemonic : String) (encoding : Encoding)
  deriving Repr, DecidableEq

/-- Does the line end the program? -/
def Body.isEnd : Body → Bool
  | .label _ => false
  | .operation mnemonic _ => mnemonic == "END"

/-- What a line makes the assembler do, unless it is refused. -/
def Body.action? : Body → Option Action
  | .label name => some (.define name)
  | .operation mnemonic operands =>
    if mnemonic = "ORG" then (origin operands).toOption.map .goTo
    else
      match Mnemonic.ofName? mnemonic with
      | none => none
      | some known => (known.encode operands).toOption.map (.emit mnemonic)

namespace Action

/-- The counter after an action. -/
def next (counter : Nat) : Action → Nat
  | .define _ => counter
  | .goTo address => address
  | .emit _ encoding => counter + encoding.cells.length

/-- Carries out an action. -/
def perform : Action → AssemblerM Unit
  | .define label => Assembler.define label
  | .goTo address => Assembler.goTo address
  | .emit _ encoding => Assembler.place encoding

/-- Carries out actions, one after the other. -/
def performAll : List Action → AssemblerM Unit
  | [] => pure ()
  | action :: rest => do
    action.perform
    performAll rest

end Action

/-! ## §2. Timelines and placements. -/

/-- An instruction at its address. -/
structure Placement where
  address : Nat
  mnemonic : String
  encoding : Encoding
  deriving Repr, DecidableEq

namespace Placement

/-- The address after the last cell. -/
def stop (p : Placement) : Nat :=
  p.address + p.encoding.cells.length

/-- Does the instruction occupy the address? -/
def Covers (p : Placement) (i : Nat) : Prop :=
  p.address ≤ i ∧ i < p.stop

instance (p : Placement) (i : Nat) : Decidable (p.Covers i) :=
  inferInstanceAs (Decidable (_ ∧ _))

/-- The cells as they are stored. -/
def stored (p : Placement) : List Int :=
  Assembler.asStored p.encoding.cells

/-- The number of cells that wait for a label. -/
def waiting (p : Placement) : Nat :=
  p.encoding.waiting p.mnemonic

/-- The cells that do not wait for a label. -/
def fixed (p : Placement) : List Nat :=
  p.encoding.fixed p.mnemonic

/-- Is the address that of a cell which waits for a label? -/
def Opens (p : Placement) (i : Nat) : Prop :=
  p.address + p.fixed.length ≤ i ∧ i < p.stop

instance (p : Placement) (i : Nat) : Decidable (p.Opens i) :=
  inferInstanceAs (Decidable (_ ∧ _))

/-- The reference that is noted for the instruction. -/
def reference? (p : Placement) : Option Reference :=
  p.encoding.label.map fun label => ⟨p.mnemonic, label⟩

@[simp] theorem length_stored (p : Placement) : p.stored.length = p.encoding.cells.length := by
  simp [stored, Assembler.asStored]

/-- Is the instruction of the form of all encodings? -/
def Shaped (p : Placement) : Prop :=
  p.encoding.Shaped p.mnemonic

theorem stored_eq {p : Placement} (shaped : p.Shaped) :
    p.stored = Assembler.asStored p.fixed ++ List.replicate p.waiting (placeholder : Int) := by
  have cells_eq : p.encoding.cells = p.fixed ++ List.replicate p.waiting placeholder :=
    shaped.cells_eq
  rw [stored, cells_eq]
  simp [Assembler.asStored]

theorem length_cells {p : Placement} (shaped : p.Shaped) :
    p.encoding.cells.length = p.fixed.length + p.waiting := by
  have cells_eq : p.encoding.cells = p.fixed ++ List.replicate p.waiting placeholder :=
    shaped.cells_eq
  rw [cells_eq, List.length_append, List.length_replicate]

end Placement

namespace Layout

/-- The actions of lines, up to the end directive. -/
def actions (bodies : List Body) : List Action :=
  (bodies.takeWhile (!·.isEnd)).filterMap Body.action?

/-- Actions with the value of the counter at which each is carried out. -/
def timelineFrom (counter : Nat) : List Action → List (Nat × Action)
  | [] => []
  | action :: rest => (counter, action) :: timelineFrom (action.next counter) rest

/-- The instruction that is placed at a moment. -/
def placed? : Nat × Action → Option Placement
  | (counter, .emit mnemonic encoding) => some ⟨counter, mnemonic, encoding⟩
  | _ => none

/-- The label that is defined at a moment, with its address. -/
def defined? : Nat × Action → Option (String × Nat)
  | (counter, .define label) => some (label, counter)
  | _ => none

/-- The timeline of lines that begin at address zero. -/
def timeline (bodies : List Body) : List (Nat × Action) :=
  timelineFrom 0 (actions bodies)

/-- The instructions that lines place, in order. -/
def placements (bodies : List Body) : List Placement :=
  (timeline bodies).filterMap placed?

/-- The labels that lines define, in order. -/
def definitions (bodies : List Body) : List (String × Nat) :=
  (timeline bodies).filterMap defined?

/-- The references of placements, in order. -/
def references (ps : List Placement) : List Reference :=
  ps.filterMap Placement.reference?

/-- The counter after actions. -/
def counterAfter (counter : Nat) (actions : List Action) : Nat :=
  actions.foldl Action.next counter

end Layout

/-! ## §3. Storing cells. -/

/-- Stores cells from an address on. -/
def Memory.write (memory : Memory) (address : Nat) : List Int → Memory
  | [] => memory
  | cell :: rest => (memory.put address cell).write (address + 1) rest

@[simp] theorem Memory.size_write (memory : Memory) (address : Nat) (cells : List Int) :
    (memory.write address cells).cells.size = memory.cells.size := by
  induction cells generalizing memory address with
  | nil => rfl
  | cons cell rest ih =>
    show ((memory.put address cell).write (address + 1) rest).cells.size = _
    rw [ih, Memory.size_put]

/-- Written cells are found at their addresses, and every other cell is as it was. -/
theorem Memory.getElem?_write (memory : Memory) (address : Nat) (cells : List Int)
    (fits : address + cells.length ≤ memory.cells.size) (i : Nat) :
    (memory.write address cells).cells[i]? =
      if address ≤ i ∧ i < address + cells.length then cells[i - address]?
      else memory.cells[i]? := by
  induction cells generalizing memory address with
  | nil =>
    rw [List.length_nil, if_neg (by omega)]
    rfl
  | cons cell rest ih =>
    rw [List.length_cons] at fits
    show ((memory.put address cell).write (address + 1) rest).cells[i]? = _
    rw [ih (memory.put address cell) (address + 1) (by rw [Memory.size_put]; omega),
        List.length_cons]
    by_cases here : i = address
    · -- the first cell: later ones do not touch it
      subst here
      rw [if_neg (by omega), if_pos (by omega)]
      simp only [put, Nat.sub_self, List.getElem?_cons_zero]
      rw [Array.getElem?_setIfInBounds_self, if_pos (by omega)]
    · by_cases later : address + 1 ≤ i ∧ i < address + 1 + rest.length
      · rw [if_pos later, if_pos (by omega), show i - address = i - (address + 1) + 1 by omega,
            List.getElem?_cons_succ]
      · rw [if_neg later, if_neg (by omega)]
        simp only [put]
        rw [Array.getElem?_setIfInBounds_ne (Ne.symm here)]

namespace Assembler

/-- Whether a stage ends with a certain state can be decided. -/
instance (result : EStateM.Result Stop Assembler Unit) (s : Assembler) :
    Decidable (result = .ok () s) :=
  match result with
  | .ok _ t => decidable_of_iff (t = s) ⟨congrArg _, fun h => (EStateM.Result.ok.inj h).2⟩
  | .error _ _ => isFalse (fun h => nomatch h)

/-- An action that is followed by another succeeds if both do. -/
theorem bind_eq_ok {α β : Type} {x : AssemblerM α} {f : α → AssemblerM β} {s t : Assembler} {b : β}
    (h : (x >>= f) s = .ok b t) : ∃ a u, x s = .ok a u ∧ f a u = .ok b t := by
  show ∃ a u, _
  change EStateM.bind x f s = .ok b t at h
  unfold EStateM.bind at h
  split at h
  next a u ran => exact ⟨a, u, ran, h⟩
  · exact absurd h (by simp)

theorem bind_of_ok {α β : Type} {x : AssemblerM α} {f : α → AssemblerM β} {s u : Assembler} {a : α}
    (h : x s = .ok a u) : (x >>= f) s = f a u := by
  show EStateM.bind x f s = _
  unfold EStateM.bind
  rw [h]

/-- One stored cell. -/
theorem storeCell_eq_ok {cell : Int} {s t : Assembler} {counter : Nat}
    (at_counter : s.counter = counter) (h : storeCell cell s = .ok () t) :
    counter < s.memory.cells.size ∧
      t = { s with memory := s.memory.put counter cell, counter := (counter + 1 : Nat) } := by
  unfold storeCell at h
  split at h
  · exact absurd h (by simp)
  next slot found =>
    rw [at_counter] at found h
    unfold Memory.slot? at found
    split at found
    · exact absurd found (by simp)
    · split at found
      next inside =>
        obtain rfl : (counter : Int).toNat = slot := by simpa using found
        refine ⟨by omega, ?_⟩
        have := (EStateM.Result.ok.inj h).2
        simpa using this.symm
      · -- the counter is not negative, so nothing is counted from the end
        split at found
        · omega
        · exact absurd found (by simp)

/-- Stored cells are written one after the other, from the counter on. -/
theorem store_eq_ok {cells : List Int} {s t : Assembler} {counter : Nat}
    (at_counter : s.counter = counter) (h : store cells s = .ok () t) :
    (cells ≠ [] → counter + cells.length ≤ s.memory.cells.size) ∧
      t = { s with memory := s.memory.write counter cells,
                   counter := (counter + cells.length : Nat) } := by
  induction cells generalizing s counter with
  | nil =>
    have same : s = t := (EStateM.Result.ok.inj h).2
    refine ⟨fun nonempty => absurd rfl nonempty, ?_⟩
    rw [← same]
    cases s
    simp_all [Memory.write]
  | cons cell rest ih =>
    obtain ⟨_, u, first, others⟩ := bind_eq_ok h
    obtain ⟨inside, rfl⟩ := storeCell_eq_ok at_counter first
    obtain ⟨fits, rfl⟩ := ih rfl others
    refine ⟨fun _ => ?_, ?_⟩
    · -- the last cell decides whether all fit, and that may be this one
      cases rest with
      | nil =>
        show counter + 1 ≤ s.memory.cells.size
        omega
      | cons c cs =>
        have := fits (by simp)
        simp only [Memory.size_put, List.length_cons] at this ⊢
        omega
    · simp only [Memory.write, List.length_cons]
      congr 2
      omega

/-- Cells that fit are stored, if the memory is one that addresses can reach. -/
theorem store_of_fits (cells : List Int) (s : Assembler) (counter : Nat)
    (at_counter : s.counter = counter) (fits : counter + cells.length ≤ s.memory.cells.size)
    (reachable : s.memory.cells.size ≤ Memory.maxAddress) :
    store cells s = .ok () { s with memory := s.memory.write counter cells,
                                    counter := (counter + cells.length : Nat) } := by
  induction cells generalizing s counter with
  | nil =>
    cases s
    simp_all [store, Memory.write, pure, EStateM.pure]
  | cons cell rest ih =>
    rw [List.length_cons] at fits
    -- the address is in reach and inside the memory, so it is its own slot
    have slot : s.memory.slot? s.counter = .ok counter := by
      unfold Memory.slot?
      rw [at_counter, if_neg (by unfold Memory.maxAddress at reachable ⊢; omega),
          if_pos (by omega)]
      simp
    have first : storeCell cell s =
        .ok () { s with memory := s.memory.put counter cell, counter := (counter + 1 : Nat) } := by
      unfold storeCell
      rw [slot]
      simp [at_counter]
    show (storeCell cell >>= fun _ => store rest) s = _
    rw [bind_of_ok first,
        ih _ (counter + 1) rfl (by rw [Memory.size_put]; omega)
          (by rw [Memory.size_put]; exact reachable)]
    simp only [Memory.write, List.length_cons]
    congr 3
    omega

end Assembler

/-! ## §4. One action. -/

namespace Action

/-- The state after an action, if it succeeds. -/
def apply (s : Assembler) (counter : Nat) : Action → Assembler
  | .define label => { s with labels := s.labels.insert label counter }
  | .goTo address => { s with counter := address }
  | .emit mnemonic encoding =>
    { s with
      memory := s.memory.write counter (Assembler.asStored encoding.cells)
      counter := (counter + encoding.cells.length : Nat)
      references :=
        s.references ++ (encoding.label.map (⟨mnemonic, ·⟩ : String → Reference)).toList }

/-- Does the action succeed?  A label must be new, and an instruction must fit into the memory. -/
def Admissible (s : Assembler) (counter : Nat) : Action → Prop
  | .define label => s.labels.find? label = none
  | .goTo _ => True
  | .emit _ encoding => counter + encoding.cells.length ≤ s.memory.cells.size

/-- An instruction that is placed has the form of all encodings. -/
def Shaped : Action → Prop
  | .emit mnemonic encoding => encoding.Shaped mnemonic
  | _ => True

theorem counter_apply {s : Assembler} {counter : Nat} (at_counter : s.counter = counter)
    (action : Action) : (action.apply s counter).counter = (action.next counter : Nat) := by
  cases action <;> simp [apply, next, at_counter]

@[simp] theorem size_apply (s : Assembler) (counter : Nat) (action : Action) :
    (action.apply s counter).memory.cells.size = s.memory.cells.size := by
  cases action <;> simp [apply]

/-- **One action**: what it leaves behind. -/
theorem perform_eq_ok {action : Action} {s t : Assembler} {counter : Nat}
    (at_counter : s.counter = counter) (shaped : action.Shaped) (h : action.perform s = .ok () t) :
    action.Admissible s counter ∧ t = action.apply s counter := by
  cases action with
  | define label =>
    change Assembler.define label s = _ at h
    unfold Assembler.define at h
    split at h
    · exact absurd h (by simp)
    next fresh =>
      refine ⟨fresh, ?_⟩
      rw [← (EStateM.Result.ok.inj h).2]
      simp [apply, at_counter]
  | goTo address =>
    refine ⟨trivial, ?_⟩
    exact ((EStateM.Result.ok.inj h).2).symm
  | emit mnemonic encoding =>
    change Assembler.place encoding s = _ at h
    have nonempty : encoding.cells ≠ [] := shaped.nonempty
    have stored_ne : Assembler.asStored encoding.cells ≠ [] := by
      simpa [Assembler.asStored] using nonempty
    have length_eq : (Assembler.asStored encoding.cells).length = encoding.cells.length := by
      simp [Assembler.asStored]
    cases waits : encoding.reference with
    | none =>
      simp only [Assembler.place, waits] at h
      obtain ⟨fits, rfl⟩ := Assembler.store_eq_ok at_counter h
      refine ⟨by simpa [Admissible, length_eq] using fits stored_ne, ?_⟩
      simp [apply, Encoding.label, waits, length_eq]
    | some reference =>
      have named : reference.mnemonic = mnemonic := shaped.named reference waits
      simp only [Assembler.place, waits] at h
      -- the reference is noted before or after the cells are stored; both orders end alike
      split at h
      · obtain ⟨_, u, noted, stored⟩ := Assembler.bind_eq_ok h
        obtain rfl := (EStateM.Result.ok.inj noted).2
        obtain ⟨fits, rfl⟩ := Assembler.store_eq_ok (by exact at_counter) stored
        refine ⟨by simpa [Admissible, length_eq] using fits stored_ne, ?_⟩
        simp [apply, Encoding.label, waits, named, length_eq]
      · obtain ⟨_, u, stored, noted⟩ := Assembler.bind_eq_ok h
        obtain ⟨fits, rfl⟩ := Assembler.store_eq_ok at_counter stored
        obtain rfl := (EStateM.Result.ok.inj noted).2
        refine ⟨by simpa [Admissible, length_eq] using fits stored_ne, ?_⟩
        simp [apply, Encoding.label, waits, named, length_eq]

/-- Every admissible action succeeds, if the memory is one that addresses can reach. -/
theorem perform_of_admissible {action : Action} {s : Assembler} {counter : Nat}
    (at_counter : s.counter = counter) (reachable : s.memory.cells.size ≤ Memory.maxAddress)
    (shaped : action.Shaped) (admissible : action.Admissible s counter) :
    action.perform s = .ok () (action.apply s counter) := by
  cases action with
  | define label =>
    have fresh : s.labels.find? label = none := admissible
    show Assembler.define label s = _
    simp [Assembler.define, fresh, apply, at_counter]
  | goTo address => rfl
  | emit mnemonic encoding =>
    have length_eq : (Assembler.asStored encoding.cells).length = encoding.cells.length := by
      simp [Assembler.asStored]
    have fits : counter + (Assembler.asStored encoding.cells).length ≤ s.memory.cells.size := by
      rw [length_eq]
      exact admissible
    show Assembler.place encoding s = _
    cases waits : encoding.reference with
    | none =>
      simp only [Assembler.place, waits]
      rw [Assembler.store_of_fits _ s counter at_counter fits reachable]
      simp [apply, Encoding.label, waits, length_eq]
    | some reference =>
      have named : reference.mnemonic = mnemonic := shaped.named reference waits
      simp only [Assembler.place, waits]
      split
      · have stored := Assembler.store_of_fits (Assembler.asStored encoding.cells)
          { s with references := s.references ++ [reference] } counter at_counter fits reachable
        refine Eq.trans stored ?_
        simp [apply, Encoding.label, waits, ← named, length_eq]
      · rw [Assembler.bind_of_ok (Assembler.store_of_fits _ s counter at_counter fits reachable)]
        show EStateM.Result.ok () _ = _
        simp [apply, Encoding.label, waits, ← named, length_eq]

end Action

/-! ## §5. Sequences of actions. -/

namespace Layout

/-- The memory after placements were written to it, in order. -/
def writeAll (memory : Memory) (ps : List Placement) : Memory :=
  ps.foldl (fun memory p => memory.write p.address p.stored) memory

/-- What actions that begin at a counter make of one state. -/
structure Described (counter : Nat) (actions : List Action) (s t : Assembler) : Prop where
  /-- The memory is written by the placements, in order. -/
  memory : t.memory = writeAll s.memory ((timelineFrom counter actions).filterMap placed?)
  /-- Every placement lies in the memory. -/
  fits : ∀ p ∈ (timelineFrom counter actions).filterMap placed?, p.stop ≤ s.memory.cells.size
  /-- The labels that are found are those found before and those that were defined. -/
  labels : ∀ label address, t.labels.find? label = some address ↔
    s.labels.find? label = some address ∨
      ∃ n : Nat, (label, n) ∈ (timelineFrom counter actions).filterMap defined? ∧ address = n
  /-- The references of the placements were noted, in order. -/
  references : t.references =
    s.references ++ references ((timelineFrom counter actions).filterMap placed?)
  /-- The counter is behind the last placement or origin. -/
  counter_eq : t.counter = counterAfter counter actions

theorem described_nil {counter : Nat} {s : Assembler} (at_counter : s.counter = counter) :
    Described counter [] s s where
  memory := rfl
  fits := by simp [timelineFrom]
  labels := by simp [timelineFrom]
  references := by simp [timelineFrom, references]
  counter_eq := at_counter

/-- **Step**: one more action in front. -/
theorem described_cons {counter : Nat} {action : Action} {rest : List Action} {s t : Assembler}
    (admissible : action.Admissible s counter)
    (described : Described (action.next counter) rest (action.apply s counter) t) :
    Described counter (action :: rest) s t := by
  obtain ⟨memory, fits, labels, refs, counter_eq⟩ := described
  cases action with
  | define label =>
    refine ⟨memory, fits, ?_, refs, counter_eq⟩
    intro other address
    have fresh : s.labels.find? label = none := admissible
    rw [labels other address]
    simp only [Action.apply, LabelTable.find?_insert, timelineFrom, List.filterMap_cons, defined?,
      List.mem_cons, Prod.mk.injEq, Action.next]
    by_cases same : other = label
    · -- the label is new, so it is found only where it is defined now or later
      subst same
      simp only [if_true, fresh, Option.some.injEq, true_and, reduceCtorEq, false_or]
      constructor
      · rintro (here | ⟨n, later, rfl⟩)
        · exact ⟨counter, Or.inl rfl, here.symm⟩
        · exact ⟨n, Or.inr later, rfl⟩
      · rintro ⟨n, rfl | later, rfl⟩
        · exact Or.inl rfl
        · exact Or.inr ⟨n, later, rfl⟩
    · simp [same]
  | goTo address =>
    exact ⟨memory, fits, labels, refs, counter_eq⟩
  | emit mnemonic encoding =>
    refine ⟨memory, ?_, labels, ?_, counter_eq⟩
    · intro p member
      simp only [timelineFrom, List.filterMap_cons, placed?, List.mem_cons] at member
      rcases member with rfl | later
      · exact admissible
      · simpa [Action.apply] using fits p later
    · rw [refs]
      cases labelled : encoding.label with
      | none =>
        simp [Action.apply, timelineFrom, placed?, references, Placement.reference?, labelled]
      | some label =>
        simp [Action.apply, timelineFrom, placed?, references, Placement.reference?, labelled]

/-- **Run**: what a sequence of actions leaves behind. -/
theorem described_of_performAll {actions : List Action} {s t : Assembler} {counter : Nat}
    (at_counter : s.counter = counter) (shaped : ∀ action ∈ actions, action.Shaped)
    (h : Action.performAll actions s = .ok () t) : Described counter actions s t := by
  induction actions generalizing s counter with
  | nil =>
    obtain rfl : s = t := (EStateM.Result.ok.inj h).2
    exact described_nil at_counter
  | cons action rest ih =>
    -- the induction is on the actions; the state and the counter change along
    obtain ⟨_, u, first, others⟩ := Assembler.bind_eq_ok h
    obtain ⟨admissible, rfl⟩ :=
      Action.perform_eq_ok at_counter (shaped action List.mem_cons_self) first
    refine described_cons admissible (ih ?_ ?_ others)
    · exact Action.counter_apply at_counter action
    · intro later member
      exact shaped later (List.mem_cons_of_mem action member)

end Layout

/-! ## §6. Programs. -/

theorem Statement.isEnd_eq (statement : Statement) : statement.isEnd = statement.body.isEnd := rfl

theorem Except.eq_ok_of_toOption {α : Type} {result : Except Refusal α} {a : α}
    (h : result.toOption = some a) : result = .ok a := by
  cases result with
  | error refusal => exact absurd h (by simp [Except.toOption])
  | ok b => exact congrArg _ (Option.some.inj h)

/-- The two kinds of operations: an origin, and an instruction with its encoding. -/
theorem Body.action?_operation {mnemonic : String} {operands : List String} {action : Action}
    (h : (Body.operation mnemonic operands).action? = some action) :
    (mnemonic = "ORG" ∧ ∃ address, origin operands = .ok address ∧ action = .goTo address) ∨
    (mnemonic ≠ "ORG" ∧ ∃ known encoding, Mnemonic.ofName? mnemonic = some known ∧
      known.encode operands = .ok encoding ∧ action = .emit mnemonic encoding) := by
  unfold Body.action? at h
  dsimp only at h
  split at h
  next isOrigin =>
    obtain ⟨address, reached, rfl⟩ := Option.map_eq_some_iff.1 h
    exact Or.inl ⟨isOrigin, address, Except.eq_ok_of_toOption reached, rfl⟩
  next notOrigin =>
    split at h
    · exact absurd h (by simp)
    next known found =>
      obtain ⟨encoding, encoded, rfl⟩ := Option.map_eq_some_iff.1 h
      exact Or.inr ⟨notOrigin, known, encoding, found, Except.eq_ok_of_toOption encoded, rfl⟩

/-- What a line does is of the right form, whatever the line. -/
theorem Body.shaped_of_action? {body : Body} {action : Action} (h : body.action? = some action) :
    action.Shaped := by
  cases body with
  | label name =>
    obtain rfl := Option.some.inj h
    trivial
  | operation mnemonic operands =>
    rcases Body.action?_operation h with ⟨_, address, _, rfl⟩ |
      ⟨_, known, encoding, found, encoded, rfl⟩
    · trivial
    · show encoding.Shaped mnemonic
      rw [← Mnemonic.name_of_ofName? found]
      exact Mnemonic.shaped_of_encode encoded

namespace Assembler

/-- Nothing that is refused succeeds. -/
theorem refuse_ne_ok (mnemonic : String) (line : Int) (refusal : Refusal) (s t : Assembler) :
    refuse mnemonic line refusal s ≠ .ok () t := by
  intro h
  cases refusal with
  | malformed stored =>
    obtain ⟨_, u, _, stops⟩ := bind_eq_ok h
    exact absurd stops (by simp [throw, throwThe, MonadExceptOf.throw, EStateM.throw])
  | crash crash =>
    exact absurd h (by simp [refuse, throw, throwThe, MonadExceptOf.throw, EStateM.throw])

/-- A statement that succeeds performs its action. -/
theorem step_eq_ok {statement : Statement} {s t : Assembler} (h : step statement s = .ok () t) :
    ∃ action, statement.body.action? = some action ∧ action.perform s = .ok () t := by
  obtain ⟨line, body⟩ := statement
  cases body with
  | label name => exact ⟨.define name, rfl, h⟩
  | operation mnemonic operands =>
    change operate line mnemonic operands s = _ at h
    by_cases isOrigin : mnemonic = "ORG"
    · cases result : origin operands with
      | error refusal =>
        rw [operate, if_pos isOrigin, result] at h
        exact absurd h (refuse_ne_ok _ _ _ _ _)
      | ok address =>
        rw [operate, if_pos isOrigin, result] at h
        refine ⟨.goTo address, ?_, h⟩
        simp [Body.action?, isOrigin, result, Except.toOption]
    · rw [operate, if_neg isOrigin] at h
      cases found : Mnemonic.ofName? mnemonic with
      | none =>
        rw [found] at h
        exact absurd h (by simp [throw, throwThe, MonadExceptOf.throw, EStateM.throw])
      | some known =>
        cases result : known.encode operands with
        | error refusal =>
          simp only [found, result] at h
          exact absurd h (refuse_ne_ok _ _ _ _ _)
        | ok encoding =>
          simp only [found, result] at h
          refine ⟨.emit mnemonic encoding, ?_, h⟩
          simp [Body.action?, isOrigin, found, result, Except.toOption]

/-- A statement does nothing but its action. -/
theorem step_eq_perform {statement : Statement} {action : Action}
    (h : statement.body.action? = some action) : step statement = action.perform := by
  obtain ⟨line, body⟩ := statement
  cases body with
  | label name =>
    obtain rfl := Option.some.inj h
    rfl
  | operation mnemonic operands =>
    show operate line mnemonic operands = _
    rcases Body.action?_operation h with
      ⟨isOrigin, address, reached, rfl⟩ | ⟨notOrigin, known, encoding, found, encoded, rfl⟩
    · rw [operate, if_pos isOrigin, reached]
      rfl
    · rw [operate, if_neg notOrigin]
      simp only [found, encoded]
      rfl

end Assembler

namespace Layout

/-- An end directive hides everything after it. -/
theorem actions_cons_of_isEnd {body : Body} (h : body.isEnd = true) (rest : List Body) :
    actions (body :: rest) = [] := by
  simp [actions, h]

theorem actions_cons {body : Body} {action : Action} (running : body.isEnd = false)
    (h : body.action? = some action) (rest : List Body) :
    actions (body :: rest) = action :: actions rest := by
  simp [actions, running, h]

/-- All actions of lines are of the right form. -/
theorem shaped_of_mem_actions {bodies : List Body} {action : Action}
    (h : action ∈ actions bodies) : action.Shaped := by
  obtain ⟨body, _, performed⟩ := List.mem_filterMap.1 h
  exact Body.shaped_of_action? performed

theorem mem_of_mem_timelineFrom {counter : Nat} {actions : List Action} {moment : Nat × Action}
    (h : moment ∈ timelineFrom counter actions) : moment.2 ∈ actions := by
  induction actions generalizing counter with
  | nil => exact absurd h List.not_mem_nil
  | cons action rest ih =>
    rcases List.mem_cons.1 h with rfl | later
    · exact List.mem_cons_self
    · exact List.mem_cons_of_mem action (ih later)

/-- Is every line up to the end directive one that does something? -/
def Accepted (bodies : List Body) : Prop :=
  ∀ body ∈ bodies.takeWhile (!·.isEnd), body.action?.isSome = true

instance (bodies : List Body) : Decidable (Accepted bodies) :=
  inferInstanceAs (Decidable (∀ body ∈ bodies.takeWhile _, _))

theorem accepted_cons_of_isEnd {body : Body} (h : body.isEnd = true) (rest : List Body) :
    Accepted (body :: rest) := by
  unfold Accepted
  simp [h]

theorem accepted_cons {body : Body} (running : body.isEnd = false) {rest : List Body} :
    Accepted (body :: rest) ↔ body.action?.isSome = true ∧ Accepted rest := by
  unfold Accepted
  simp [running]

/-- Only accepted programs succeed. -/
theorem accepted_of_process {program : List Statement} {s t : Assembler}
    (h : Assembler.process program s = .ok () t) : Accepted (Statement.bodies program) := by
  induction program generalizing s with
  | nil => exact fun _ member => absurd member List.not_mem_nil
  | cons statement rest ih =>
    unfold Assembler.process at h
    split at h
    next ends => exact accepted_cons_of_isEnd ends _
    next running =>
      obtain ⟨_, u, first, others⟩ := Assembler.bind_eq_ok h
      obtain ⟨action, performs, _⟩ := Assembler.step_eq_ok first
      have goes_on : statement.body.isEnd = false := by simpa [Statement.isEnd_eq] using running
      exact (accepted_cons goes_on).2 ⟨by rw [performs]; rfl, ih others⟩

/-- An accepted program does nothing but its actions. -/
theorem process_eq_performAll {program : List Statement}
    (accepted : Accepted (Statement.bodies program)) (s : Assembler) :
    Assembler.process program s = Action.performAll (actions (Statement.bodies program)) s := by
  induction program generalizing s with
  | nil => rfl
  | cons statement rest ih =>
    unfold Assembler.process
    split
    next ends =>
      have hidden : actions (Statement.bodies (statement :: rest)) = [] :=
        actions_cons_of_isEnd ends _
      rw [hidden]
      rfl
    next running =>
      have goes_on : statement.body.isEnd = false := by simpa [Statement.isEnd_eq] using running
      obtain ⟨first, later⟩ := (accepted_cons goes_on).1 accepted
      obtain ⟨action, performs⟩ := Option.isSome_iff_exists.1 first
      have actions_eq : actions (Statement.bodies (statement :: rest))
          = action :: actions (Statement.bodies rest) := actions_cons goes_on performs _
      -- the first step is the first action; what follows agrees on every state
      rw [actions_eq, Assembler.step_eq_perform performs]
      show (action.perform >>= fun _ => Assembler.process rest) s
        = (action.perform >>= fun _ => Action.performAll _) s
      exact congrArg (fun k => (action.perform >>= fun _ => k) s) (funext (ih later))

/-- All instructions that lines place are of the right form. -/
theorem shaped_of_mem_placements {bodies : List Body} {p : Placement} (h : p ∈ placements bodies) :
    p.Shaped := by
  obtain ⟨⟨counter, action⟩, moment, placed⟩ := List.mem_filterMap.1 h
  have performed : action ∈ actions bodies := mem_of_mem_timelineFrom moment
  cases action with
  | define label => exact absurd placed (by simp [placed?])
  | goTo address => exact absurd placed (by simp [placed?])
  | emit mnemonic encoding =>
    obtain rfl := Option.some.inj placed
    exact shaped_of_mem_actions performed

/-- The state that lines leave behind, if they begin with an empty memory. -/
structure Leaves (size : Nat) (bodies : List Body) (s : Assembler) : Prop where
  /-- Every line up to the end directive did something. -/
  accepted : Accepted bodies
  /-- The placements were written to the memory, in order. -/
  memory : s.memory = writeAll (Memory.blank size) (placements bodies)
  /-- Every placement lies in the memory. -/
  fits : ∀ p ∈ placements bodies, p.stop ≤ size
  /-- The labels that are found are those that were defined. -/
  labels : ∀ label address, s.labels.find? label = some address ↔
    ∃ n : Nat, (label, n) ∈ definitions bodies ∧ address = n
  /-- The references of the placements were noted, in order. -/
  references : s.references = references (placements bodies)
  /-- The counter is behind the last placement or origin. -/
  counter_eq : s.counter = counterAfter 0 (actions bodies)

/-- A program that is placed is accepted, and its actions succeed from the start. -/
theorem performAll_of_assemble {size : Nat} {program : List Statement} {s : Assembler}
    (h : Assembler.assemble program (Assembler.ofSize size) = .ok () s) :
    Accepted (Statement.bodies program) ∧
      Action.performAll (actions (Statement.bodies program)) (Assembler.ofSize size) =
        .ok () s := by
  obtain ⟨_, u, gone, processed⟩ := Assembler.bind_eq_ok h
  obtain rfl := (EStateM.Result.ok.inj gone).2
  have accepted := accepted_of_process processed
  rw [process_eq_performAll accepted] at processed
  exact ⟨accepted, processed⟩

/-- **What placing a program leaves behind.** -/
theorem leaves_of_assemble {size : Nat} {program : List Statement} {s : Assembler}
    (h : Assembler.assemble program (Assembler.ofSize size) = .ok () s) :
    Leaves size (Statement.bodies program) s := by
  obtain ⟨accepted, performed⟩ := performAll_of_assemble h
  have described := described_of_performAll rfl (fun _ => shaped_of_mem_actions) performed
  refine ⟨accepted, described.memory, ?_, ?_, described.references, described.counter_eq⟩
  · intro p member
    have := described.fits p member
    simpa [Assembler.ofSize, Memory.blank] using this
  · intro label address
    -- there were no labels before
    rw [described.labels label address]
    show LabelTable.empty.find? label = some address ∨ _ ↔ _
    rw [LabelTable.find?_empty]
    simp only [reduceCtorEq, false_or]
    rfl

/-! ## §7. Programs that succeed. -/

theorem mem_filterMap_timelineFrom_cons {α : Type} {f : Nat × Action → Option α} {counter : Nat}
    {action : Action} {rest : List Action} {a : α}
    (h : a ∈ (timelineFrom (action.next counter) rest).filterMap f) :
    a ∈ (timelineFrom counter (action :: rest)).filterMap f := by
  obtain ⟨moment, on_timeline, gives⟩ := List.mem_filterMap.1 h
  exact List.mem_filterMap.2 ⟨moment, List.mem_cons_of_mem _ on_timeline, gives⟩

/-- Actions succeed if all placements fit, and if the labels they define are new and distinct. -/
theorem performAll_of_fits {actions : List Action} {s : Assembler} {counter : Nat}
    (at_counter : s.counter = counter) (reachable : s.memory.cells.size ≤ Memory.maxAddress)
    (shaped : ∀ action ∈ actions, action.Shaped)
    (fits : ∀ p ∈ (timelineFrom counter actions).filterMap placed?, p.stop ≤ s.memory.cells.size)
    (distinct : (((timelineFrom counter actions).filterMap defined?).map Prod.fst).Nodup)
    (new : ∀ entry ∈ (timelineFrom counter actions).filterMap defined?,
      s.labels.find? entry.1 = none) :
    ∃ t, Action.performAll actions s = .ok () t := by
  induction actions generalizing s counter with
  | nil => exact ⟨s, rfl⟩
  | cons action rest ih =>
    have admissible : action.Admissible s counter := by
      cases action with
      | define label => exact new (label, counter) (by simp [timelineFrom, defined?])
      | goTo address => trivial
      | emit mnemonic encoding =>
        exact fits ⟨counter, mnemonic, encoding⟩ (by simp [timelineFrom, placed?])
    have performed := Action.perform_of_admissible at_counter reachable
      (shaped action List.mem_cons_self) admissible
    have counter_eq : (action.apply s counter).counter = (action.next counter : Nat) :=
      Action.counter_apply at_counter action
    obtain ⟨t, others⟩ : ∃ t, Action.performAll rest (action.apply s counter) = .ok () t := by
      refine ih counter_eq (by rw [Action.size_apply]; exact reachable) ?_ ?_ ?_ ?_
      · exact fun other member => shaped other (List.mem_cons_of_mem action member)
      · intro p later
        rw [Action.size_apply]
        exact fits p (mem_filterMap_timelineFrom_cons later)
      · refine distinct.sublist (List.Sublist.map _ (List.Sublist.filterMap _ ?_))
        exact List.sublist_cons_self _ _
      · intro entry later
        have before : s.labels.find? entry.1 = none :=
          new entry (mem_filterMap_timelineFrom_cons later)
        cases action with
        | define label =>
          -- the label of this action is not defined once more
          have other : entry.1 ≠ label := by
            simp only [timelineFrom, List.filterMap_cons, defined?, List.map_cons,
              List.nodup_cons] at distinct
            intro same
            exact distinct.1 (same ▸ List.mem_map_of_mem later)
          simp only [Action.apply, LabelTable.find?_insert, if_neg other, before]
        | goTo address => exact before
        | emit mnemonic encoding => exact before
    refine ⟨t, ?_⟩
    show (action.perform >>= fun _ => Action.performAll rest) s = _
    rw [Assembler.bind_of_ok performed, others]

/-- **A program is placed if all its lines do something, its placements fit and no label is defined
twice.** -/
theorem assemble_of_accepted {size : Nat} {program : List Statement}
    (reachable : size ≤ Memory.maxAddress) (accepted : Accepted (Statement.bodies program))
    (fits : ∀ p ∈ placements (Statement.bodies program), p.stop ≤ size)
    (distinct : ((definitions (Statement.bodies program)).map Prod.fst).Nodup) :
    ∃ s, Assembler.assemble program (Assembler.ofSize size) = .ok () s := by
  have size_eq : (Assembler.ofSize size).memory.cells.size = size := by
    simp [Assembler.ofSize, Memory.blank]
  obtain ⟨t, performed⟩ : ∃ t, Action.performAll (actions (Statement.bodies program))
      (Assembler.ofSize size) = .ok () t :=
    performAll_of_fits rfl (by rw [size_eq]; exact reachable) (fun _ => shaped_of_mem_actions)
      (by rw [size_eq]; exact fits) distinct (fun _ _ => rfl)
  have gone : Assembler.goTo 0 (Assembler.ofSize size) = .ok () (Assembler.ofSize size) := rfl
  refine ⟨t, ?_⟩
  show (Assembler.goTo 0 >>= fun _ => Assembler.process program) (Assembler.ofSize size) = _
  rw [Assembler.bind_of_ok gone, process_eq_performAll accepted, performed]

end Layout

end Mcs51
