/-
  Mcs51.Text.Split — cutting a text into pieces.

  A text is a list of characters.  It is cut into lines at every line feed and into fields at every
  comma, and all pieces are kept, the empty ones too.  Words are the non-empty pieces between
  blanks.

  Main definitions:
    * `lines`, `fields`, `words`;
    * `dropBlanks` : a text without its leading blanks;
    * `stripOpening?` : a text without a given beginning.
-/
import Mcs51.Text.Blank

namespace Mcs51.Text

/-! ## §1. Pieces between separators. -/

/-- The lines of a text: only the line feed ends a line. -/
def lines (text : List Char) : List (List Char) :=
  text.splitOn '\n'

/-- The comma-separated fields of a text.  The empty text is one empty field. -/
def fields (text : List Char) : List (List Char) :=
  text.splitOn ','

/-- The words of a text: its non-empty pieces between blanks. -/
def words (text : List Char) : List (List Char) :=
  (text.splitOnP isBlank).filter (!·.isEmpty)

/-! ## §2. Beginnings. -/

/-- The text without its leading blanks. -/
def dropBlanks (text : List Char) : List Char :=
  text.dropWhile isBlank

/-- What follows `opening` in a text that begins with it. -/
def stripOpening? : List Char → List Char → Option (List Char)
  | [], text => some text
  | _ :: _, [] => none
  | o :: opening, c :: text => if o = c then stripOpening? opening text else none

/-- A text has a beginning exactly if it is that beginning and something after it. -/
theorem stripOpening?_eq_some_iff {opening text rest : List Char} :
    stripOpening? opening text = some rest ↔ text = opening ++ rest := by
  fun_induction stripOpening? opening text with
  | case1 text => simp
  | case2 o opening => simp
  | case3 o opening text ih => simp [ih]
  | case4 o opening c text differs => simp [Ne.symm differs]

end Mcs51.Text
