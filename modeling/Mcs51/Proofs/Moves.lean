/-
  Mcs51.Proofs.Moves — placing a program, move by move.

  Placing a program is a sequence of moves, each of which changes one thing: one cell, the counter,
  the labels or the references.  Which moves these are depends on the program alone, also where an
  operation is refused: the cells that it stores before are moves, and the last move halts.  So the
  states that a program passes through are those behind the first moves, and what every move keeps
  holds in all of them.

  Main definitions:
    * `Move`, `Move.perform`, `Move.performAll` : one move, and several;
    * `Statement.moves`, `Assembler.moves` : the moves of a statement and of a program;
    * `Assembler.Passes` : the states that a program passes through.

  Main statements:
    * `Move.perform_eq_ok`, `Move.performAll_keeps` : what a move does, and what several moves keep;
    * `Assembler.assemble_eq_performAll` : placing a program is performing its moves;
    * `Assembler.passes_of_assemble` : the state that is left is one of these, also if placing
      stops.
-/
import Mcs51.Proofs.Layout

namespace Mcs51

/-! ## §1. Moves. -/

/-- A step of placing a program that changes one thing. -/
inductive Move where
  /-- Goes on at another address. -/
  | goTo (address : Nat)
  /-- Stores one cell at the next address. -/
  | store (cell : Nat)
  /-- Defines a label at the next address. -/
  | define (label : String)
  /-- Notes a reference. -/
  | note (mnemonic label : String)
  /-- Changes nothing and stops. -/
  | halt (stop : Stop)
  deriving Repr, DecidableEq

namespace Move

/-- Carries out a move. -/
def perform : Move → AssemblerM Unit
  | .goTo address => Assembler.goTo address
  | .store cell => Assembler.storeCell cell
  | .define label => Assembler.define label
  | .note mnemonic label => Assembler.note mnemonic label
  | .halt stop => throw stop

/-- Carries out moves, in order. -/
def performAll : List Move → AssemblerM Unit
  | [] => pure ()
  | move :: rest => do
    move.perform
    performAll rest

theorem performAll_append (first second : List Move) :
    performAll (first ++ second) = performAll first >>= fun _ => performAll second := by
  induction first with
  | nil => simp [performAll]
  | cons move rest ih => simp [performAll, ih]

theorem performAll_singleton (move : Move) : performAll [move] = move.perform := by
  simp [performAll]

/-- **A move succeeds, or it stops and leaves the state as it is.** -/
theorem perform_ok_or_error (move : Move) (s : Assembler) :
    (∃ t, move.perform s = .ok () t) ∨ ∃ stop, move.perform s = .error stop s := by
  cases move with
  | goTo address => exact .inl ⟨_, rfl⟩
  | note mnemonic label => exact .inl ⟨_, rfl⟩
  | halt stop => exact .inr ⟨stop, rfl⟩
  | store cell =>
    show (∃ t, Assembler.storeCell cell s = .ok () t) ∨
      ∃ stop, Assembler.storeCell cell s = .error stop s
    unfold Assembler.storeCell
    split
    · exact .inr ⟨_, rfl⟩
    · exact .inl ⟨_, rfl⟩
  | define label =>
    show (∃ t, Assembler.define label s = .ok () t) ∨
      ∃ stop, Assembler.define label s = .error stop s
    unfold Assembler.define
    split
    · exact .inr ⟨_, rfl⟩
    · exact .inl ⟨_, rfl⟩

/-- **Step**: what a move that succeeds leaves behind. -/
theorem perform_eq_ok {move : Move} {s t : Assembler} (h : move.perform s = .ok () t) :
    match move with
    | .goTo address => t = { s with counter := address }
    | .store cell => ∃ slot, s.memory.slot? s.counter = .ok slot ∧
        t = { s with memory := s.memory.put slot cell, counter := s.counter + 1 }
    | .define label => s.labels.find? label = none ∧
        t = { s with labels := s.labels.insert label s.counter }
    | .note mnemonic label => t = { s with references := s.references ++ [⟨mnemonic, label⟩] }
    | .halt _ => False := by
  cases move with
  | goTo address => exact (EStateM.Result.ok.inj h).2.symm
  | note mnemonic label => exact (EStateM.Result.ok.inj h).2.symm
  | halt stop =>
    exact absurd h (by simp [perform, throw, throwThe, MonadExceptOf.throw, EStateM.throw])
  | store cell =>
    change Assembler.storeCell cell s = _ at h
    unfold Assembler.storeCell at h
    split at h
    · exact absurd h (by simp)
    next slot found => exact ⟨slot, found, (EStateM.Result.ok.inj h).2.symm⟩
  | define label =>
    change Assembler.define label s = _ at h
    unfold Assembler.define at h
    split at h
    · exact absurd h (by simp)
    next fresh => exact ⟨fresh, (EStateM.Result.ok.inj h).2.symm⟩

/-- **Run**: what each of the moves keeps, all of them keep. -/
theorem performAll_keeps {P : Assembler → Prop} {moves : List Move} {s t : Assembler}
    (keeps : ∀ move ∈ moves, ∀ {u v : Assembler}, move.perform u = .ok () v → P u → P v)
    (h : performAll moves s = .ok () t) (first : P s) : P t := by
  induction moves generalizing s with
  | nil =>
    obtain rfl : s = t := (EStateM.Result.ok.inj h).2
    exact first
  | cons move rest ih =>
    obtain ⟨_, u, performed, others⟩ := Assembler.bind_eq_ok h
    refine ih (fun other member => keeps other (List.mem_cons_of_mem move member)) others ?_
    exact keeps move List.mem_cons_self performed first

/-- Several moves succeed up to the last, or up to one that stops. -/
theorem exists_performed (moves : List Move) (s : Assembler) :
    ∃ done rest t, moves = done ++ rest ∧ performAll done s = .ok () t ∧
      (rest = [] ∧ performAll moves s = .ok () t ∨ ∃ stop, performAll moves s = .error stop t) := by
  induction moves generalizing s with
  | nil => exact ⟨[], [], s, rfl, rfl, .inl ⟨rfl, rfl⟩⟩
  | cons move later ih =>
    -- the induction is on the moves; the first that stops is the end
    rcases perform_ok_or_error move s with ⟨u, ok⟩ | ⟨stop, stops⟩
    · obtain ⟨done, rest, t, rfl, performed, ends⟩ := ih u
      refine ⟨move :: done, rest, t, rfl, ?_, ?_⟩
      · exact (Assembler.bind_of_ok ok).trans performed
      · have whole : performAll (move :: (done ++ rest)) s = performAll (done ++ rest) u :=
          Assembler.bind_of_ok ok
        rw [whole]
        exact ends
    · refine ⟨[], move :: later, s, rfl, rfl, .inr ⟨stop, ?_⟩⟩
      show EStateM.bind move.perform (fun _ => performAll later) s = _
      unfold EStateM.bind
      rw [stops]

end Move

/-! ## §2. The moves of a program. -/

/-- The moves that place an instruction. -/
def Encoding.moves (encoding : Encoding) : List Move :=
  match encoding.reference with
  | none => encoding.cells.map .store
  | some reference =>
    if encoding.noteFirst then
      .note reference.mnemonic reference.label :: encoding.cells.map .store
    else encoding.cells.map .store ++ [.note reference.mnemonic reference.label]

/-- The moves of an operation that is refused. -/
def Refusal.moves (mnemonic : String) (line : Int) : Refusal → List Move
  | .malformed stored => stored.map .store ++ [.halt (.reported (.malformed mnemonic line))]
  | .crash fault => [.halt (.crashed fault)]

/-- The moves of an operation. -/
def Body.movesOf (line : Int) (mnemonic : String) (operands : List String) : List Move :=
  if mnemonic = "ORG" then
    match origin operands with
    | .ok address => [.goTo address]
    | .error refusal => refusal.moves mnemonic line
  else
    match Mnemonic.ofName? mnemonic with
    | none => [.halt (.reported (.unknownMnemonic mnemonic line))]
    | some known =>
      match known.encode operands with
      | .ok encoding => encoding.moves
      | .error refusal => refusal.moves mnemonic line

/-- The moves of a statement. -/
def Statement.moves (statement : Statement) : List Move :=
  match statement.body with
  | .label name => [.define name]
  | .operation mnemonic operands => Body.movesOf statement.line mnemonic operands

namespace Assembler

open Move

/-- The moves of the statements up to the end directive. -/
def movesOf : List Statement → List Move
  | [] => []
  | statement :: rest => if statement.isEnd then [] else statement.moves ++ movesOf rest

/-- **The moves of a program.** -/
def moves (program : List Statement) : List Move :=
  .goTo 0 :: movesOf program

theorem store_eq_performAll (cells : List Nat) :
    store (asStored cells) = performAll (cells.map .store) := by
  induction cells with
  | nil => rfl
  | cons cell rest ih =>
    show (storeCell cell >>= fun _ => store (asStored rest)) = _
    rw [ih]
    rfl

theorem refuse_eq_performAll (mnemonic : String) (line : Int) (refusal : Refusal) :
    refuse mnemonic line refusal = performAll (refusal.moves mnemonic line) := by
  cases refusal with
  | malformed stored =>
    unfold Refusal.moves
    rw [performAll_append, performAll_singleton, ← store_eq_performAll]
    rfl
  | crash crash =>
    unfold Refusal.moves
    rw [performAll_singleton]
    rfl

theorem place_eq_performAll (encoding : Encoding) :
    place encoding = performAll encoding.moves := by
  unfold place Encoding.moves
  cases encoding.reference with
  | none => exact store_eq_performAll encoding.cells
  | some reference =>
    dsimp only
    split
    · rw [store_eq_performAll]
      rfl
    · rw [store_eq_performAll, performAll_append, performAll_singleton]
      rfl

theorem operate_eq_performAll (line : Int) (mnemonic : String) (operands : List String) :
    operate line mnemonic operands = performAll (Body.movesOf line mnemonic operands) := by
  unfold operate Body.movesOf
  by_cases isOrigin : mnemonic = "ORG"
  · rw [if_pos isOrigin, if_pos isOrigin]
    cases origin operands with
    | ok address => exact (performAll_singleton (.goTo address)).symm
    | error refusal => exact refuse_eq_performAll mnemonic line refusal
  · rw [if_neg isOrigin, if_neg isOrigin]
    cases Mnemonic.ofName? mnemonic with
    | none => exact (performAll_singleton (.halt _)).symm
    | some known =>
      dsimp only
      cases known.encode operands with
      | ok encoding => exact place_eq_performAll encoding
      | error refusal => exact refuse_eq_performAll mnemonic line refusal

theorem step_eq_performAll (statement : Statement) :
    step statement = performAll statement.moves := by
  unfold step Statement.moves
  cases statement.body with
  | label name => exact (performAll_singleton (.define name)).symm
  | operation mnemonic operands => exact operate_eq_performAll statement.line mnemonic operands

theorem process_eq_performAll (program : List Statement) :
    process program = performAll (movesOf program) := by
  induction program with
  | nil => rfl
  | cons statement rest ih =>
    unfold process movesOf
    by_cases ends : statement.isEnd = true
    · rw [if_pos ends, if_pos ends]
      rfl
    · rw [if_neg ends, if_neg ends, performAll_append, step_eq_performAll, ih]

/-- **Placing a program is performing its moves**, up to the one that stops, if there is one. -/
theorem assemble_eq_performAll (program : List Statement) :
    assemble program = performAll (moves program) := by
  unfold assemble moves performAll
  rw [process_eq_performAll]
  rfl

/-! ## §3. The states in between. -/

/-- The program passes through the state: it is the one behind its first moves. -/
def Passes (program : List Statement) (s t : Assembler) : Prop :=
  ∃ done rest, moves program = done ++ rest ∧ performAll done s = .ok () t

/-- The state that is left is one that the program passes through, also if placing stops. -/
theorem passes_of_assemble {program : List Statement} {s t : Assembler}
    (h : assemble program s = .ok () t ∨ ∃ stop, assemble program s = .error stop t) :
    Passes program s t := by
  obtain ⟨done, rest, u, split, performed, ends⟩ := exists_performed (moves program) s
  rw [assemble_eq_performAll] at h
  -- both describe how the moves end, so they agree on the state
  have same : t = u := by
    rcases h with ok | ⟨stop, stops⟩ <;> rcases ends with ⟨_, ok'⟩ | ⟨stop', stops'⟩ <;> simp_all
  exact ⟨done, rest, split, same ▸ performed⟩

end Assembler

end Mcs51
