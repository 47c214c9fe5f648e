/-
  Mcs51.Shape — the written forms of the parts of a statement.

  Every part of a statement has a shape: a fixed opening, a run of characters of one class, a fixed
  closing.  The run is what the part says; the opening and the closing only mark its kind.  A shape
  is recognised at the beginning of a text, and for most shapes nothing may follow, except one final
  line feed.

  Main definitions:
    * `Shape.capture?` : the run of a text of that shape;
    * `Shape.spell` : the text of that shape with a given run;
    * `Shape.label`, `Shape.word`, … : the shapes of the assembly language.

  Main statement:
    * `Shape.capture?_eq_spell` : a text of a shape begins with the spelling of its run.
-/
import Mcs51.Digits
import Mcs51.Text.DecimalDigit
import Mcs51.Text.Split
import Mcs51.Text.WordChar

namespace Mcs51

/-! ## §1. Shapes in general. -/

/-- How often the characters of the run occur. -/
inductive Repetition where
  /-- Any number of times, also not at all. -/
  | any
  /-- At least once. -/
  | positive
  /-- At most once. -/
  | optional
  deriving Repr, DecidableEq

/-- The longest run that the repetition takes from the beginning of a text. -/
def Repetition.take? (repetition : Repetition) (inRun : Char → Bool) (text : List Char) :
    Option (List Char) :=
  match repetition with
  | .any => some (text.takeWhile inRun)
  | .positive => if (text.takeWhile inRun).isEmpty then none else some (text.takeWhile inRun)
  | .optional => some ((text.take 1).takeWhile inRun)

/-- What a repetition takes is a beginning of the text. -/
theorem Repetition.exists_append_of_take? {repetition : Repetition} {inRun : Char → Bool}
    {text run : List Char} (h : repetition.take? inRun text = some run) :
    ∃ rest, text = run ++ rest := by
  cases repetition with
  | any =>
    obtain rfl : text.takeWhile inRun = run := by simpa [Repetition.take?] using h
    exact ⟨text.dropWhile inRun, List.takeWhile_append_dropWhile.symm⟩
  | positive =>
    -- the same run, which in addition is not empty
    have taken : text.takeWhile inRun = run := by
      simp only [Repetition.take?] at h
      split at h
      · exact absurd h (by simp)
      · exact Option.some.inj h
    exact ⟨text.dropWhile inRun, taken ▸ List.takeWhile_append_dropWhile.symm⟩
  | optional =>
    obtain rfl : (text.take 1).takeWhile inRun = run := by simpa [Repetition.take?] using h
    refine ⟨(text.take 1).dropWhile inRun ++ text.drop 1, ?_⟩
    rw [← List.append_assoc, List.takeWhile_append_dropWhile, List.take_append_drop]

/-- A written form: an opening, a run of characters of one class, and a closing. -/
structure Shape where
  /-- What the text begins with. -/
  opening : List Char
  /-- The characters of the run. -/
  inRun : Char → Bool
  /-- How many there may be. -/
  repetition : Repetition
  /-- What stands after the run. -/
  closing : List Char
  /-- Must the text end after the closing? -/
  toEnd : Bool

namespace Shape

/-- A text is at its end if nothing is left but at most one line feed. -/
def atEnd (rest : List Char) : Bool :=
  rest == [] || rest == ['\n']

/-- The run of a text that has the shape. -/
def capture? (shape : Shape) (text : List Char) : Option (List Char) :=
  match Text.stripOpening? shape.opening text with
  | none => none
  | some inner =>
    match shape.repetition.take? shape.inRun inner with
    | none => none
    | some run =>
      match Text.stripOpening? shape.closing (inner.drop run.length) with
      | none => none
      | some rest => if shape.toEnd && !atEnd rest then none else some run

/-- The text of the shape with the given run. -/
def spell (shape : Shape) (run : List Char) : List Char :=
  shape.opening ++ run ++ shape.closing

/-! ## §2. The shapes of the assembly language. -/

/-- A label definition: a word and a colon.  What follows the colon does not matter. -/
def label : Shape := ⟨[], Text.isWordChar, .any, [':'], false⟩

/-- A label, where it is used.  It may be empty. -/
def word : Shape := ⟨[], Text.isWordChar, .any, [], true⟩

/-- A number of base 16. -/
def hex : Shape := ⟨[], Digits.isHexCapital, .positive, ['H'], true⟩

/-- A number of base 10. -/
def dec : Shape := ⟨[], Digits.isDecimal, .positive, [], true⟩

/-- An immediate number of base 16. -/
def immediateHex : Shape := ⟨['#'], Digits.isHexCapital, .positive, ['H'], true⟩

/-- An immediate number of base 10. -/
def immediateDec : Shape := ⟨['#'], Digits.isDecimal, .positive, [], true⟩

/-- The cell that a register points to.  Only the first digit counts, and anything may follow. -/
def indirect : Shape := ⟨['@', 'R'], Text.isDecimalDigit, .optional, [], false⟩

/-- A register.  Only the first digit counts, and anything may follow. -/
def register : Shape := ⟨['R'], Text.isDecimalDigit, .optional, [], false⟩

/-- An inverted bit: a slash and the bit. -/
def inverted : Shape := ⟨['/'], (· != '\n'), .any, [], true⟩

/-! ## §3. A captured run stands in the text. -/

/-- A text of a shape begins with the spelling of its run. -/
theorem capture?_eq_spell {shape : Shape} {text run : List Char}
    (h : shape.capture? text = some run) : ∃ rest, text = shape.spell run ++ rest := by
  unfold capture? at h
  split at h
  · exact absurd h (by simp)
  next inner opened =>
    split at h
    · exact absurd h (by simp)
    next run' taken =>
      split at h
      · exact absurd h (by simp)
      next rest closed =>
        split at h
        · exact absurd h (by simp)
        · obtain rfl := Option.some.inj h
          obtain ⟨tail, rfl⟩ := Repetition.exists_append_of_take? taken
          rw [List.drop_left, Text.stripOpening?_eq_some_iff] at closed
          rw [Text.stripOpening?_eq_some_iff] at opened
          exact ⟨rest, by simp [spell, opened, closed]⟩

end Shape

end Mcs51
