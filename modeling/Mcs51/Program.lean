/-
  Mcs51.Program — from a source text to its listing.

  Main definitions:
    * `Assembler.build` : reading, placing and linking a program;
    * `Report` : what a run printed, how it ended and the state it left;
    * `Assembler.run` : a whole run on a source text;
    * `CommandLine.run` : a whole run on command-line arguments.
-/
import Mcs51.HexRecord
import Mcs51.Link

namespace Mcs51

/-! ## §1. Reports. -/

/-- How a run ended. -/
inductive Ending where
  /-- With an exit status. -/
  | exited (status : Nat)
  /-- With a crash. -/
  | crashed (crash : Crash)
  deriving Repr, DecidableEq

/-- What a run printed and how it ended. -/
structure Outcome where
  output : String
  ending : Ending
  deriving Repr, DecidableEq

/-- A diagnostic is printed and ends the run with status 1. -/
def Diagnostic.outcome (diagnostic : Diagnostic) : Outcome :=
  ⟨diagnostic.text ++ "\n", .exited 1⟩

/-- What is printed when a stage stops, and how the run ends. -/
def Stop.outcome : Stop → Outcome
  | .reported diagnostic => diagnostic.outcome
  | .crashed crash => ⟨"", .crashed crash⟩

/-- A printed listing ends the run with status 0, unless a record has no line. -/
def Listing.outcome (listing : Listing) : Outcome :=
  ⟨listing.text, match listing.crash with
    | none => .exited 0
    | some crash => .crashed crash⟩

/-- The outcome of a run and the state it left. -/
structure Report where
  outcome : Outcome
  state : Assembler
  deriving Repr, DecidableEq

/-! ## §2. Runs. -/

namespace Assembler

/-- Reads statements. -/
def readStatements (lines : List Line) : AssemblerM (List Statement) :=
  match Statement.parse lines with
  | .ok statements => pure statements
  | .error crash => throw (.crashed crash)

/-- Reads, places and links a program. -/
def build (text : String) : AssemblerM Unit := do
  let statements ← readStatements (Source.lines text)
  assemble statements
  link

/-- A whole run on a source text. -/
def run (s : Assembler) (text : String) : Report :=
  match build text s with
  | .ok _ final => ⟨final.memory.listing.outcome, final⟩
  | .error stop final => ⟨stop.outcome, final⟩

end Assembler

namespace CommandLine

/-- A whole run on command-line arguments.  `file` holds the bytes of the file that a single
argument names, if there is such a file. -/
def run (arguments : List String) (file : Option ByteArray) : Outcome :=
  match arguments, file with
  | [_], none => Diagnostic.sourceMissing.outcome
  | [_], some bytes =>
    match Source.decode? bytes with
    | none => Stop.outcome (.crashed .undecodable)
    | some text => (Assembler.fresh.run text).outcome
  | _, _ => Diagnostic.usage.outcome

end CommandLine

end Mcs51
