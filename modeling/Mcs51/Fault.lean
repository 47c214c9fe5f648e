/-
  Mcs51.Fault — everything that can stop the assembler.

  There are two kinds of stops.  A `Diagnostic` is the assembler's own answer to a program it
  refuses: it is printed, and the run ends with status 1.  A `Crash` is a failure for which the
  assembler has no words of its own; it ends the run at once, with a message about the mechanism
  that failed.

  Main definitions:
    * `Crash`, `Crash.message?`;
    * `Diagnostic`, `Diagnostic.text`;
    * `Stop` : one of the two.
-/
namespace Mcs51

/-! ## §1. Crashes. -/

/-- A failure that is not reported in the assembler's own words. -/
inductive Crash where
  /-- An operation looks at an operand that is not there. -/
  | missingOperand
  /-- A line without any word was taken for a statement. -/
  | blankLine
  /-- There are more placeholder cells than references to fill them. -/
  | unmatchedPlaceholder
  /-- A cell was stored outside the code memory. -/
  | outsideMemory
  /-- A cell was stored at an address that no memory can have. -/
  | unaddressable
  /-- A text is no number of the given base. -/
  | badDigits (base : Nat) (text : String)
  /-- A decimal number has more digits than are converted. -/
  | tooManyDigits (count : Nat)
  /-- The operation is recognised but has no cells. -/
  | unencodable
  /-- The source file is not a text. -/
  | undecodable
  deriving Repr, DecidableEq

/-- Decimal numbers of up to this many digits are converted. -/
def maxDecimalDigits : Nat := 4300

/-- A text in single quotes, cut after 200 characters, the quotes included. -/
def quotedStart (text : String) : String :=
  String.ofList (("'" ++ text ++ "'").toList.take 200)

/-- The message of a crash.  A file that is no text has none. -/
def Crash.message? : Crash → Option String
  | .missingOperand | .blankLine | .unmatchedPlaceholder => some "list index out of range"
  | .outsideMemory => some "list assignment index out of range"
  | .unaddressable => some "cannot fit 'int' into an index-sized integer"
  | .badDigits base text =>
    some ("invalid literal for int() with base " ++ toString base ++ ": " ++ quotedStart text)
  | .tooManyDigits count =>
    some ("Exceeds the limit (" ++ toString maxDecimalDigits
      ++ " digits) for integer string conversion: value has " ++ toString count
      ++ " digits; use sys.set_int_max_str_digits() to increase the limit")
  | .unencodable => some "'int' object is not iterable"
  | .undecodable => none

/-! ## §2. Diagnostics. -/

/-- A refusal in the assembler's own words. -/
inductive Diagnostic where
  /-- The command line does not name exactly one file. -/
  | usage
  /-- The named file does not exist. -/
  | sourceMissing
  /-- A reference names a label that is defined nowhere. -/
  | undefinedLabel (label : String)
  /-- A label is defined a second time. -/
  | duplicateLabel (label : String)
  /-- The operands do not fit the operation. -/
  | malformed (mnemonic : String) (line : Int)
  /-- There is no such operation. -/
  | unknownMnemonic (mnemonic : String) (line : Int)
  deriving Repr, DecidableEq

namespace Diagnostic

/-- An error message as it is printed. -/
def banner (message : String) : String :=
  "asm51: error: " ++ message

/-- A message with the number of the line it is about. -/
def atLine (message : String) (line : Int) : String :=
  message ++ " in line: " ++ toString line ++ "."

/-- The line that is printed for a diagnostic. -/
def text : Diagnostic → String
  | .usage => "usage: asm51 [--] filename"
  | .sourceMissing => banner "input file not exist."
  | .undefinedLabel label => banner ("label: " ++ label ++ " not found.")
  | .duplicateLabel label => banner ("label: " ++ label ++ " already been used.")
  | .malformed mnemonic line => banner (atLine (mnemonic ++ " instruction error") line)
  | .unknownMnemonic mnemonic line =>
    banner (atLine ("unknown instruction \"" ++ mnemonic ++ "\"") line)

end Diagnostic

/-! ## §3. Stops. -/

/-- Why a stage did not finish. -/
inductive Stop where
  /-- The program was refused. -/
  | reported (diagnostic : Diagnostic)
  /-- The assembler failed. -/
  | crashed (crash : Crash)
  deriving Repr, DecidableEq

end Mcs51
