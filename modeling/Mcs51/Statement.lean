/-
  Mcs51.Statement — what a line says.

  A line defines a label or names an operation with its operands.  A label stands as it is written;
  operations and operands are put in capitals, and blanks between operands do not count.

  Main definitions:
    * `Statement` : a line's meaning, with the line's number;
    * `Statement.ofLine`, `Statement.parse` : reading one line, and all of them.
-/
import Mcs51.Fault
import Mcs51.Shape
import Mcs51.Source
import Mcs51.Text.UpperCase

namespace Mcs51

/-- What a line says. -/
inductive Body where
  /-- Defines a label. -/
  | label (name : String)
  /-- Names an operation and its operands, in capitals. -/
  | operation (mnemonic : String) (operands : List String)
  deriving Repr, DecidableEq

/-- A line's meaning, with its number. -/
structure Statement where
  line : Int
  body : Body
  deriving Repr, DecidableEq

namespace Statement

/-- The operands written in these words: put together, in capitals, and cut at the commas.  Without
any words there is one operand, the empty one. -/
def operandsOf (words : List (List Char)) : List String :=
  (Text.fields (Text.upper words.flatten)).map String.ofList

/-- Reads a line.  After a label definition the rest of the line is dropped. -/
def ofLine (line : Line) : Except Crash Statement :=
  match Shape.label.capture? line.text.toList with
  | some name => .ok ⟨line.number, .label (String.ofList name)⟩
  | none =>
    match Text.words line.text.toList with
    | [] => .error .blankLine
    | first :: rest =>
      .ok ⟨line.number, .operation (String.ofList (Text.upper first)) (operandsOf rest)⟩

/-- Reads all lines, in order. -/
def parse (lines : List Line) : Except Crash (List Statement) :=
  lines.mapM ofLine

/-- Does the statement end the program? -/
def isEnd (statement : Statement) : Bool :=
  match statement.body with
  | .label _ => false
  | .operation mnemonic _ => mnemonic == "END"

end Statement

end Mcs51
