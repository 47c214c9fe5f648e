/-
  Mcs51.Source — the lines of a program.

  A source file is decoded, its line endings are made uniform, and each line is freed of its
  indentation and its comment.  Lines keep the number they have in the file; lines with nothing left
  are dropped.

  Main definitions:
    * `Source.decode?` : from the bytes of a file to its text;
    * `Source.lines` : from a text to its numbered lines.
-/
import Mcs51.Text.Split

namespace Mcs51

/-- A line of a program and its number, counted from one. -/
structure Line where
  number : Int
  text : String
  deriving Repr, DecidableEq

namespace Source

/-- Every line ending becomes a single line feed.  A line feed right after a carriage return is
dropped, and every carriage return becomes a line feed. -/
def unifyLineEnds (text : List Char) : List Char :=
  (('\n' :: text).zip text).filterMap fun (before, c) =>
    if before = '\r' ∧ c = '\n' then none
    else some (if c = '\r' then '\n' else c)

/-- The text of a source file, unless its bytes are no text. -/
def decode? (bytes : ByteArray) : Option String :=
  (String.fromUTF8? bytes).map fun text => String.ofList (unifyLineEnds text.toList)

/-- A line without its indentation and without its comment, which runs from the first semicolon to
the end.  Blanks before the comment stay. -/
def clean (line : List Char) : List Char :=
  (Text.dropBlanks line).takeWhile (· != ';')

/-- The lines of a program that say anything, with their numbers. -/
def lines (text : String) : List Line :=
  ((Text.lines text.toList).zipIdx 1).filterMap fun (line, number) =>
    if (clean line).isEmpty then none else some ⟨number, String.ofList (clean line)⟩

end Source

end Mcs51
