/-
  Mcs51.Main — the command line.

  The assembler takes the name of one source file and prints its listing.
-/
import Mcs51.Program

namespace Mcs51.CommandLine

/-- The bytes of the file that a single argument names, if it can be read. -/
def readSource (arguments : List String) : IO (Option ByteArray) := do
  match arguments with
  | [name] =>
    try
      return some (← IO.FS.readBinFile name)
    catch _ =>
      return none
  | _ => return none

end Mcs51.CommandLine

open Mcs51

/-- Runs the assembler, prints what it printed, and ends as it ended. -/
def main (arguments : List String) : IO UInt32 := do
  let outcome := CommandLine.run arguments (← CommandLine.readSource arguments)
  IO.print outcome.output
  match outcome.ending with
  | .exited status => return status.toUInt32
  | .crashed crash =>
    IO.eprintln ((crash.message?).getD "the source file is not a text")
    return 1
