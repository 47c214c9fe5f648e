/-
  Mcs51.Assembler — placing a program in memory.

  The assembler holds the memory, the address of the next cell, the labels seen so far and the
  references that wait for labels.  Statements are taken in order.  When one of them stops the run,
  everything that was placed before it stays placed.

  Main definitions:
    * `Assembler` : the state;
    * `AssemblerM` : actions on the state that can stop;
    * `Assembler.step`, `Assembler.process`, `Assembler.assemble` : one statement, several, a
      program.
-/
import Mcs51.Instruction.Encode
import Mcs51.LabelTable
import Mcs51.Memory
import Mcs51.Statement

namespace Mcs51

/-! ## §1. The state. -/

/-- The state of the assembler. -/
structure Assembler where
  /-- The code memory. -/
  memory : Memory
  /-- The address of the next cell. -/
  counter : Int
  /-- The labels defined so far. -/
  labels : LabelTable
  /-- The references made so far, in order. -/
  references : List Reference
  deriving Repr, DecidableEq

/-- Actions of the assembler.  One that stops leaves the state as far as it came. -/
abbrev AssemblerM := EStateM Stop Assembler

namespace Assembler

/-- An assembler with an empty memory of the given size. -/
def ofSize (size : Nat) : Assembler :=
  ⟨Memory.blank size, 0, LabelTable.empty, []⟩

/-- An assembler with an empty memory that fills the address space. -/
def fresh : Assembler :=
  ofSize Memory.fullSize

/-! ## §2. Elementary actions. -/

/-- Stores one cell and goes on to the next address. -/
def storeCell (cell : Int) : AssemblerM Unit := fun s =>
  match s.memory.slot? s.counter with
  | .error crash => .error (.crashed crash) s
  | .ok slot =>
    .ok () { s with memory := s.memory.put slot cell, counter := s.counter + 1 }

/-- Stores cells one after the other. -/
def store : List Int → AssemblerM Unit
  | [] => pure ()
  | cell :: rest => do
    storeCell cell
    store rest

/-- Defines a label at the next address.  A label is defined only once. -/
def define (label : String) : AssemblerM Unit := fun s =>
  match s.labels.find? label with
  | some _ => .error (.reported (.duplicateLabel label)) s
  | none => .ok () { s with labels := s.labels.insert label s.counter }

/-- Notes a reference. -/
def note (mnemonic label : String) : AssemblerM Unit :=
  modify fun s => { s with references := s.references ++ [⟨mnemonic, label⟩] }

/-- Goes on at another address. -/
def goTo (address : Int) : AssemblerM Unit :=
  modify fun s => { s with counter := address }

/-- Refuses an operation whose number of operands is not one of those allowed. -/
def requireCount (mnemonic : String) (operands : List String) (allowed : List Nat) (line : Int) :
    AssemblerM Unit :=
  if allowed.contains operands.length then pure ()
  else throw (.reported (.malformed mnemonic line))

/-- The address of a label in binary, with at least `width` characters. -/
def addressText (label : String) (width : Nat) : AssemblerM String := do
  match (← get).labels.find? label with
  | some address => return String.ofList (Digits.padded 2 width address)
  | none => throw (.reported (.undefinedLabel label))

/-! ## §3. Statements. -/

/-- Cells as they are stored. -/
def asStored (cells : List Nat) : List Int :=
  cells.map fun cell : Nat => (cell : Int)

/-- Stops for an operation without encoding.  Cells that were stored before the fault was seen are
stored here too. -/
def refuse (mnemonic : String) (line : Int) : Refusal → AssemblerM Unit
  | .malformed stored => do
    store (asStored stored)
    throw (.reported (.malformed mnemonic line))
  | .crash crash => throw (.crashed crash)

/-- Stores the cells of an operation and notes its reference, in the order of the encoding. -/
def place (encoding : Encoding) : AssemblerM Unit :=
  match encoding.reference with
  | none => store (asStored encoding.cells)
  | some reference =>
    if encoding.noteFirst then do
      note reference.mnemonic reference.label
      store (asStored encoding.cells)
    else do
      store (asStored encoding.cells)
      note reference.mnemonic reference.label

/-- Carries out an operation: the origin directive moves on to another address, every other
operation places its code. -/
def operate (line : Int) (mnemonic : String) (operands : List String) : AssemblerM Unit :=
  if mnemonic = "ORG" then
    match origin operands with
    | .ok address => goTo address
    | .error refusal => refuse mnemonic line refusal
  else
    match Mnemonic.ofName? mnemonic with
    | none => throw (.reported (.unknownMnemonic mnemonic line))
    | some known =>
      match known.encode operands with
      | .ok encoding => place encoding
      | .error refusal => refuse mnemonic line refusal

/-- Carries out a statement. -/
def step (statement : Statement) : AssemblerM Unit :=
  match statement.body with
  | .label name => define name
  | .operation mnemonic operands => operate statement.line mnemonic operands

/-- Carries out statements up to the end directive, if there is one. -/
def process : List Statement → AssemblerM Unit
  | [] => pure ()
  | statement :: rest =>
    if statement.isEnd then pure ()
    else do
      step statement
      process rest

/-- Places a program, beginning at address zero. -/
def assemble (statements : List Statement) : AssemblerM Unit := do
  goTo 0
  process statements

end Assembler

end Mcs51
