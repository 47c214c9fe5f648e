/-
  Mcs51.Proofs.Emission — what one operation does to the state in which it is carried out.

  Whether cells can be stored depends on the counter, on the size of the memory and on the number of
  the cells, and not on what the cells hold.  So it is known before the first cell is stored how an
  operation ends: its cells and its reference are in the state, or the run stops.  When it stops,
  the name of the operation has no part in the ending.

  Main definitions:
    * `Memory.fault?`, `Assembler.Room` : what stops the storing of cells, and room for them;
    * `Mnemonic.Places`, `Mnemonic.Halts` : the two ways in which an operation ends;
    * `Mnemonic.Emits` : an operation places its cells wherever there is room for them.

  Main statements:
    * `Mnemonic.places_of_encode`, `Mnemonic.halts_of_fault`, `Mnemonic.halts_of_refusal` : the
      ending of an operation, from its encoding;
    * `Mnemonic.emits_iff` : what an operation emits is its encoding, and nothing else.
-/
import Mcs51.Program
import Mcs51.Proofs.Layout

namespace Mcs51

/-! ## §1. Room for cells. -/

namespace Memory

/-- What stops the storing of `n` cells from an address on, if anything does. -/
def fault? (memory : Memory) (address : Int) : Nat → Option Crash
  | 0 => none
  | n + 1 =>
    match memory.slot? address with
    | .error crash => some crash
    | .ok _ => memory.fault? (address + 1) n

theorem slot?_put (memory : Memory) (slot : Nat) (cell address : Int) :
    (memory.put slot cell).slot? address = memory.slot? address := by
  unfold slot?
  rw [size_put]

/-- What a cell holds does not stop the next one. -/
theorem fault?_put (memory : Memory) (slot : Nat) (cell address : Int) (n : Nat) :
    (memory.put slot cell).fault? address n = memory.fault? address n := by
  induction n generalizing address with
  | zero => rfl
  | succ n ih =>
    unfold fault?
    rw [slot?_put, ih]

theorem fault?_of_slot? {memory : Memory} {address : Int} {slot : Nat}
    (found : memory.slot? address = .ok slot) (n : Nat) :
    memory.fault? address (n + 1) = memory.fault? (address + 1) n := by
  rw [fault?, found]

theorem fault?_of_crash {memory : Memory} {address : Int} {crash : Crash}
    (outside : memory.slot? address = .error crash) (n : Nat) :
    memory.fault? address (n + 1) = some crash := by
  rw [fault?, outside]

end Memory

namespace Assembler

/-- **There is room for `n` cells** from the counter on. -/
def Room (s : Assembler) (n : Nat) : Prop :=
  s.memory.fault? s.counter n = none

instance (s : Assembler) (n : Nat) : Decidable (s.Room n) :=
  inferInstanceAs (Decidable (_ = none))

theorem bind_of_error {α β : Type} {x : AssemblerM α} {f : α → AssemblerM β} {s u : Assembler}
    {stop : Stop} (h : x s = .error stop u) : (x >>= f) s = .error stop u := by
  show EStateM.bind x f s = _
  unfold EStateM.bind
  rw [h]

theorem storeCell_of_slot? {s : Assembler} {slot : Nat}
    (found : s.memory.slot? s.counter = .ok slot)
    (cell : Int) :
    storeCell cell s =
      .ok () { s with memory := s.memory.put slot cell, counter := s.counter + 1 } := by
  unfold storeCell
  rw [found]

theorem storeCell_of_crash {s : Assembler} {crash : Crash}
    (outside : s.memory.slot? s.counter = .error crash) (cell : Int) :
    storeCell cell s = .error (.crashed crash) s := by
  unfold storeCell
  rw [outside]

/-- **Cells for which there is room are stored**, whatever they hold. -/
theorem store_of_room (cells : List Int) {s : Assembler} (room : s.Room cells.length) :
    ∃ t, store cells s = .ok () t ∧ t.references = s.references := by
  induction cells generalizing s with
  | nil => exact ⟨s, rfl, rfl⟩
  | cons cell rest ih =>
    unfold Room at room
    rw [List.length_cons] at room
    cases found : s.memory.slot? s.counter with
    | error crash =>
      rw [Memory.fault?_of_crash found] at room
      exact absurd room (by simp)
    | ok slot =>
      rw [Memory.fault?_of_slot? found, ← Memory.fault?_put s.memory slot cell] at room
      -- the rest is stored from the next address on, in a memory of the same size
      obtain ⟨t, stored, kept⟩ := ih (s := { s with memory := _, counter := s.counter + 1 }) room
      refine ⟨t, ?_, kept⟩
      show (storeCell cell >>= fun _ => store rest) s = _
      rw [bind_of_ok (storeCell_of_slot? found cell)]
      exact stored

/-- Cells for which there is no room stop the run, whatever they hold. -/
theorem store_of_fault (cells : List Int) {s : Assembler} {crash : Crash}
    (fault : s.memory.fault? s.counter cells.length = some crash) :
    ∃ t, store cells s = .error (.crashed crash) t := by
  induction cells generalizing s with
  | nil => exact absurd fault (by simp [Memory.fault?])
  | cons cell rest ih =>
    rw [List.length_cons] at fault
    show ∃ t, (storeCell cell >>= fun _ => store rest) s = _
    cases found : s.memory.slot? s.counter with
    | error outside =>
      rw [Memory.fault?_of_crash found] at fault
      obtain rfl := Option.some.inj fault
      exact ⟨s, bind_of_error (storeCell_of_crash found cell)⟩
    | ok slot =>
      rw [Memory.fault?_of_slot? found, ← Memory.fault?_put s.memory slot cell] at fault
      rw [bind_of_ok (storeCell_of_slot? found cell)]
      exact ih fault

/-- Storing does not look at the references. -/
theorem store_withReferences {cells : List Int} {s t : Assembler}
    (stored : store cells s = .ok () t)
    (references : List Reference) :
    store cells { s with references := references } =
      .ok () { t with references := references } := by
  induction cells generalizing s with
  | nil =>
    obtain rfl : s = t := (EStateM.Result.ok.inj stored).2
    rfl
  | cons cell rest ih =>
    obtain ⟨_, u, first, others⟩ := bind_eq_ok stored
    show (storeCell cell >>= fun _ => store rest) _ = _
    cases found : s.memory.slot? s.counter with
    | error crash =>
      rw [storeCell_of_crash found] at first
      exact absurd first (by simp)
    | ok slot =>
      rw [storeCell_of_slot? found] at first
      obtain rfl := (EStateM.Result.ok.inj first).2
      have same : ({ s with references := references } : Assembler).memory.slot? s.counter =
        .ok slot :=
        found
      rw [bind_of_ok (storeCell_of_slot? same cell)]
      exact ih others

/-- A memory that addresses can reach has room for what fits into it. -/
theorem room_of_fits {s : Assembler} {counter n : Nat} (at_counter : s.counter = counter)
    (fits : counter + n ≤ s.memory.cells.size)
    (reachable : s.memory.cells.size ≤ Memory.maxAddress) :
    s.Room n := by
  unfold Room
  rw [at_counter]
  clear at_counter
  induction n generalizing counter with
  | zero => rfl
  | succ n ih =>
    have slot : s.memory.slot? counter = .ok counter := by
      unfold Memory.slot?
      rw [if_neg (by unfold Memory.maxAddress at reachable ⊢; omega), if_pos (by omega)]
      simp
    rw [Memory.fault?_of_slot? slot]
    exact_mod_cast ih (show counter + 1 + n ≤ s.memory.cells.size by omega)

end Assembler

/-! ## §2. How an operation ends. -/

/-- The reference that an operation notes for its label, if it has one. -/
def Mnemonic.noted (known : Mnemonic) (label : Option String) : List Reference :=
  (label.map (⟨known.name, ·⟩ : String → Reference)).toList

/-- **The operation places cells**: carried out in the state, it stores them from the counter on,
notes the label under its own name, and changes nothing else. -/
def Mnemonic.Places (known : Mnemonic) (operands : List String) (line : Int) (s : Assembler)
    (cells : List Nat) (label : Option String) : Prop :=
  ∃ t, Assembler.store (Assembler.asStored cells) s = .ok () t ∧
    Assembler.operate line known.name operands s =
      .ok () { t with references := s.references ++ known.noted label }

/-- **The operation halts**: carried out in the state, it stops the run with the given ending. -/
def Mnemonic.Halts (known : Mnemonic) (operands : List String) (line : Int) (s : Assembler)
    (ending : Ending) : Prop :=
  ∃ stop t, Assembler.operate line known.name operands s = .error stop t ∧
    stop.outcome.ending = ending

/-- The operation places these cells wherever there is room for them. -/
def Mnemonic.Emits (known : Mnemonic) (operands : List String) (cells : List Nat)
    (label : Option String) : Prop :=
  ∀ line s, s.Room cells.length → known.Places operands line s cells label

/-- The ending of an operation that is refused.  Cells that are stored before the fault is seen may
find no room. -/
def Refusal.ending (s : Assembler) : Refusal → Ending
  | .malformed stored => ((s.memory.fault? s.counter stored.length).map .crashed).getD (.exited 1)
  | .crash fault => .crashed fault

namespace Assembler

theorem length_asStored (cells : List Nat) : (asStored cells).length = cells.length :=
  List.length_map _

/-- An encoding is placed if there is room for its cells. -/
theorem place_of_room {s : Assembler} {encoding : Encoding} (room : s.Room encoding.cells.length) :
    ∃ t, store (asStored encoding.cells) s = .ok () t ∧ place encoding s =
      .ok () { t with references := s.references ++ encoding.reference.toList } := by
  rw [← length_asStored] at room
  obtain ⟨t, stored, kept⟩ := store_of_room (asStored encoding.cells) room
  refine ⟨t, stored, ?_⟩
  unfold place
  cases encoding.reference with
  | none =>
    show store (asStored encoding.cells) s = _
    rw [stored, ← kept]
    simp
  | some reference =>
    dsimp only
    -- the reference is noted before the cells are stored, or when they are
    split
    · exact store_withReferences stored (s.references ++ [reference])
    · rw [bind_of_ok stored, ← kept]
      rfl

/-- An encoding is not placed if there is no room, and the memory says why. -/
theorem place_of_fault {s : Assembler} {encoding : Encoding} {crash : Crash}
    (fault : s.memory.fault? s.counter encoding.cells.length = some crash) :
    ∃ t, place encoding s = .error (.crashed crash) t := by
  rw [← length_asStored] at fault
  unfold place
  cases encoding.reference with
  | none => exact store_of_fault (asStored encoding.cells) fault
  | some reference =>
    dsimp only
    split
    · -- the note leaves counter and memory as they are
      exact store_of_fault (s := { s with references := s.references ++ [reference] })
        (asStored encoding.cells) fault
    · obtain ⟨t, stopped⟩ := store_of_fault (asStored encoding.cells) fault
      exact ⟨t, bind_of_error stopped⟩

/-- A refusal stops the run, and the name of the operation does not matter for the ending. -/
theorem refuse_eq_error (mnemonic : String) (line : Int) (refusal : Refusal) (s : Assembler) :
    ∃ stop t, refuse mnemonic line refusal s = .error stop t ∧
      stop.outcome.ending = refusal.ending s := by
  cases refusal with
  | crash crash => exact ⟨.crashed crash, s, rfl, rfl⟩
  | malformed stored =>
    show ∃ stop t, (store (asStored stored) >>= fun _ => throw _) s = .error stop t ∧
      stop.outcome.ending =
        ((s.memory.fault? s.counter stored.length).map .crashed).getD (.exited 1)
    rw [← length_asStored]
    cases fault : s.memory.fault? s.counter (asStored stored).length with
    | none =>
      obtain ⟨t, ran, _⟩ := store_of_room (asStored stored) fault
      rw [bind_of_ok ran]
      exact ⟨.reported (.malformed mnemonic line), t, rfl, rfl⟩
    | some crash =>
      obtain ⟨t, stopped⟩ := store_of_fault (asStored stored) fault
      exact ⟨.crashed crash, t, bind_of_error stopped, rfl⟩

end Assembler

namespace Mnemonic

variable {known : Mnemonic} {operands : List String} {line : Int} {s : Assembler}

theorem name_ne_origin (known : Mnemonic) : known.name ≠ "ORG" := by
  cases known <;> decide

theorem operate_of_encode {encoding : Encoding} (encoded : known.encode operands = .ok encoding)
    (line : Int) : Assembler.operate line known.name operands = Assembler.place encoding := by
  unfold Assembler.operate
  rw [if_neg known.name_ne_origin, ofName?_name]
  dsimp only
  rw [encoded]

theorem operate_of_refusal {refusal : Refusal} (refused : known.encode operands = .error refusal)
    (line : Int) :
    Assembler.operate line known.name operands = Assembler.refuse known.name line refusal := by
  unfold Assembler.operate
  rw [if_neg known.name_ne_origin, ofName?_name]
  dsimp only
  rw [refused]

/-- The label of an encoding is noted under the name of the operation. -/
theorem noted_label {encoding : Encoding} (encoded : known.encode operands = .ok encoding) :
    known.noted encoding.label = encoding.reference.toList := by
  unfold noted Encoding.label
  cases waits : encoding.reference with
  | none => rfl
  | some reference =>
    have named : reference.mnemonic = known.name :=
      (shaped_of_encode encoded).named reference waits
    rw [← named]
    rfl

/-- **An encoded operation places its cells where there is room.** -/
theorem places_of_encode {encoding : Encoding} (encoded : known.encode operands = .ok encoding)
    (room : s.Room encoding.cells.length) :
    known.Places operands line s encoding.cells encoding.label := by
  obtain ⟨t, stored, placed⟩ := Assembler.place_of_room room
  refine ⟨t, stored, ?_⟩
  rw [operate_of_encode encoded, placed, noted_label encoded]

/-- An encoded operation halts where there is no room. -/
theorem halts_of_fault {encoding : Encoding} {crash : Crash}
    (encoded : known.encode operands = .ok encoding)
    (fault : s.memory.fault? s.counter encoding.cells.length = some crash) :
    known.Halts operands line s (.crashed crash) := by
  obtain ⟨t, stopped⟩ := Assembler.place_of_fault fault
  refine ⟨.crashed crash, t, ?_, rfl⟩
  rw [operate_of_encode encoded]
  exact stopped

/-- A refused operation halts, under any name. -/
theorem halts_of_refusal {refusal : Refusal} (refused : known.encode operands = .error refusal) :
    known.Halts operands line s (refusal.ending s) := by
  unfold Halts
  rw [operate_of_refusal refused]
  exact Assembler.refuse_eq_error known.name line refusal s

/-- An operation that is carried out without a stop has an encoding, and places it. -/
theorem places_of_operate {t : Assembler}
    (accepted : Assembler.operate line known.name operands s = .ok () t) :
    ∃ encoding, known.encode operands = .ok encoding ∧
      known.Places operands line s encoding.cells encoding.label := by
  have goes_on : ∀ ending, ¬known.Halts operands line s ending := by
    rintro ending ⟨stop, u, stopped, _⟩
    rw [accepted] at stopped
    exact nomatch stopped
  cases encoded : known.encode operands with
  | error refusal => exact absurd (halts_of_refusal encoded) (goes_on _)
  | ok encoding =>
    cases fault : s.memory.fault? s.counter encoding.cells.length with
    | none => exact ⟨encoding, rfl, places_of_encode encoded fault⟩
    | some crash => exact absurd (halts_of_fault encoded fault) (goes_on _)

/-! ## §3. What an operation emits. -/

theorem emits_encoding {encoding : Encoding} (encoded : known.encode operands = .ok encoding) :
    known.Emits operands encoding.cells encoding.label :=
  fun _ _ room => places_of_encode encoded room

theorem emits_of_encode {cells : List Nat} {label : Option String} {noteFirst : Bool}
    (encoded : known.encode operands = .ok ⟨cells, label.map (⟨known.name, ·⟩), noteFirst⟩) :
    known.Emits operands cells label := by
  have emitted := emits_encoding encoded
  rwa [Encoding.label_named] at emitted

/-- Cells that leave the same memory behind are the same. -/
theorem cells_eq_of_write {memory : Memory} {cells other : List Nat}
    (fits : cells.length ≤ memory.cells.size) (length_eq : cells.length = other.length)
    (same : memory.write 0 (Assembler.asStored cells) = memory.write 0 (Assembler.asStored other)) :
    cells = other := by
  have stored : ∀ (row : List Nat) (i : Nat), row.length = cells.length → i < cells.length →
      (memory.write 0 (Assembler.asStored row)).cells[i]? =
        (row[i]?).map (fun cell : Nat => (cell : Int)) := by
    intro row i length_row inside
    rw [Memory.getElem?_write _ _ _ (by rw [Assembler.length_asStored]; omega),
      if_pos (by rw [Assembler.length_asStored]; omega)]
    simp [Assembler.asStored]
  apply List.ext_getElem?
  intro i
  by_cases inside : i < cells.length
  · have read := stored cells i rfl inside
    rw [same, stored other i length_eq.symm inside] at read
    exact (Option.map_injective Nat.cast_injective read).symm
  · rw [List.getElem?_eq_none (by omega), List.getElem?_eq_none (by omega)]

/-- **What an operation emits is its encoding**, and nothing else. -/
theorem emits_iff {cells : List Nat} {label : Option String}
    (short : cells.length ≤ 3) :
    known.Emits operands cells label ↔
      ∃ noteFirst, known.encode operands =
        .ok ⟨cells, label.map (⟨known.name, ·⟩), noteFirst⟩ := by
  constructor
  · intro emits
    -- a memory that has room for exactly these cells shows all of them
    have reachable : (cells.length : Int) ≤ Memory.maxAddress := by
      unfold Memory.maxAddress
      omega
    have size_eq : (Assembler.ofSize cells.length).memory.cells.size = cells.length := by
      simp [Assembler.ofSize, Memory.blank]
    have at_zero : (Assembler.ofSize cells.length).counter = (0 : Nat) := rfl
    have room : (Assembler.ofSize cells.length).Room cells.length :=
      Assembler.room_of_fits at_zero (by omega) (by omega)
    obtain ⟨t, stored, operated⟩ := emits 0 _ room
    obtain ⟨_, rfl⟩ := Assembler.store_eq_ok at_zero stored
    cases encoded : known.encode operands with
    | error refusal =>
      rw [operate_of_refusal encoded] at operated
      exact absurd operated (Assembler.refuse_ne_ok _ _ _ _ _)
    | ok encoding =>
      rw [operate_of_encode encoded] at operated
      have shaped : (Action.emit known.name encoding).Shaped := shaped_of_encode encoded
      obtain ⟨_, left⟩ := Action.perform_eq_ok at_zero shaped operated
      obtain ⟨cells', reference, noteFirst⟩ := encoding
      -- counter, memory and references are left behind by both
      have length_eq : cells.length = cells'.length := by
        have counters := congrArg Assembler.counter left
        simpa [Action.apply, Assembler.length_asStored] using counters
      have cells_eq : cells = cells' :=
        cells_eq_of_write (by omega) length_eq (congrArg Assembler.memory left)
      have noted_eq : known.noted label = reference.toList := by
        have references := congrArg Assembler.references left
        exact (List.append_cancel_left references).trans (noted_label encoded)
      have reference_eq : label.map (⟨known.name, ·⟩) = reference := by
        cases label <;> cases reference <;> simp_all [noted]
      exact ⟨noteFirst, by rw [cells_eq, reference_eq]⟩
  · intro encoded
    obtain ⟨noteFirst, encoded⟩ := encoded
    exact emits_of_encode encoded

end Mnemonic

end Mcs51
