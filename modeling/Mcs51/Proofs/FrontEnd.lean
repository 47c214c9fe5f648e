/-
  Mcs51.Proofs.FrontEnd — every text is read, and into statements that are in order.

  The lines of a text that say anything are kept, each freed of its indentation and its comment, and
  each is read as one statement.  Reading takes for granted that a kept line has a first word.  It
  has one, because a kept line begins with another character than a blank, and the same characters
  are blanks wherever a text is cut.  What comes out is what the later stages take for granted: a
  name of word characters, or an operation with at least one operand, and no commas or blanks inside
  the operands.

  Main definitions:
    * `Source.Strips` : what a line is without its indentation and its comment;
    * `Body.WellFormed` : what the later stages take for granted.

  Main statements:
    * `Source.strips_iff` : lines are freed of nothing else;
    * `Text.isBlank_of_mem_upperChar` : capitals are no blanks;
    * `Body.wellFormed_ofWords` : what a line says is in order;
    * `front_end_reads_every_text` : which lines are kept, and that all of them are read.
-/
import Mcs51.Proofs.LabelLines
import Mcs51.Proofs.Renaming

namespace Mcs51

/-! ## §1. Lines without indentation and comment. -/

namespace Source

/-- **The line is `rest` between its indentation and its comment**: the indentation consists of all
leading blanks, and the comment runs from the first semicolon to the end. -/
def Strips (line rest : List Char) : Prop :=
  ∃ indentation comment, line = indentation ++ rest ++ comment ∧
    (∀ c ∈ indentation, Text.isBlank c = true) ∧
      (∀ c ∈ (rest ++ comment).head?, Text.isBlank c = false) ∧
    ';' ∉ rest ∧ ∀ c ∈ comment.head?, c = ';'

theorem strips_clean (line : List Char) : Strips line (clean line) := by
  have rejoined : clean line ++ (Text.dropBlanks line).dropWhile (· != ';') =
      Text.dropBlanks line :=
    List.takeWhile_append_dropWhile
  refine ⟨line.takeWhile Text.isBlank, (Text.dropBlanks line).dropWhile (· != ';'), ?_, ?_,
    ?_, ?_, ?_⟩
  · rw [List.append_assoc, rejoined]
    exact List.takeWhile_append_dropWhile.symm
  · intro c member
    exact List.mem_takeWhile_imp member
  · rw [rejoined]
    intro c first
    have solid := List.head?_dropWhile_not Text.isBlank line
    unfold Text.dropBlanks at first
    rw [Option.mem_def.1 first] at solid
    simpa using solid
  · intro member
    have other := List.mem_takeWhile_imp member
    exact absurd other (by decide)
  · intro c first
    have semicolon := List.head?_dropWhile_not (· != ';') (Text.dropBlanks line)
    rw [Option.mem_def.1 first] at semicolon
    simpa using semicolon

/-- **Cleaning removes the indentation and the comment**, and nothing else. -/
theorem strips_iff {line rest : List Char} : Strips line rest ↔ rest = clean line := by
  constructor
  · rintro ⟨indentation, comment, rfl, blanks, solid, free, closed⟩
    have dropped : Text.dropBlanks (indentation ++ rest ++ comment) = rest ++ comment := by
      unfold Text.dropBlanks
      rw [List.append_assoc, List.dropWhile_append_of_pos blanks]
      cases whole : rest ++ comment with
      | nil => rfl
      | cons c others =>
        rw [whole] at solid
        exact List.dropWhile_cons_of_neg (by simp [solid c rfl])
    have uncommented : ∀ c ∈ rest, (c != ';') = true := by
      intro c member
      simp only [bne_iff_ne]
      rintro rfl
      exact free member
    unfold clean
    rw [dropped, List.takeWhile_append_of_pos uncommented]
    cases comment with
    | nil => simp
    | cons c others =>
      obtain rfl := closed c rfl
      simp
  · rintro rfl
    exact strips_clean line

/-- **Which lines are kept**, and what is left of them. -/
theorem mem_lines_iff {text kept : String} {number : Int} :
    ⟨number, kept⟩ ∈ lines text ↔ ∃ (i : Nat) (line : List Char),
      (text.toList.splitOn '\n')[i]? = some line ∧ number = i + 1 ∧ Strips line kept.toList ∧
        kept ≠ "" := by
  unfold lines Text.lines
  rw [List.mem_filterMap]
  constructor
  · rintro ⟨⟨line, position⟩, member, found⟩
    obtain ⟨behind, at_position⟩ := List.mk_mem_zipIdx_iff_le_and_getElem?_sub.1 member
    dsimp only at found
    split at found
    · exact nomatch found
    next nonempty =>
      obtain ⟨rfl, rfl⟩ := Line.mk.inj (Option.some.inj found)
      refine ⟨position - 1, line, at_position, by omega, ?_, ?_⟩
      · rw [String.toList_ofList]
        exact strips_clean line
      · intro none
        rw [String.ofList_eq_empty_iff] at none
        exact nonempty (by rw [none]; rfl)
  · rintro ⟨i, line, at_position, rfl, strips, nonempty⟩
    have kept_eq : clean line = kept.toList := (strips_iff.1 strips).symm
    refine ⟨(line, i + 1), List.mk_mem_zipIdx_iff_le_and_getElem?_sub.2 ⟨by omega, at_position⟩, ?_⟩
    simp [kept_eq, nonempty]

/-- Lines keep their order, and each is kept once. -/
theorem pairwise_number_lines (text : String) :
    (lines text).Pairwise fun line other => line.number < other.number := by
  unfold lines
  rw [List.pairwise_filterMap]
  have positions : ((Text.lines text.toList).zipIdx 1).Pairwise
      fun entry other => entry.2 < other.2 := by
    have ascending := List.pairwise_lt_range' (s := 1) (n := (Text.lines text.toList).length)
    rw [← List.zipIdx_map_snd, List.pairwise_map] at ascending
    exact ascending
  refine positions.imp fun {entry other} before line found line' found' => ?_
  dsimp only at found found'
  split at found
  · exact nomatch found
  · split at found'
    · exact nomatch found'
    · obtain rfl := Option.some.inj found
      obtain rfl := Option.some.inj found'
      show (entry.2 : Int) < other.2
      exact_mod_cast before

end Source

/-! ## §2. Capitals. -/

namespace Text

theorem upperChar_ne_nil (c : Char) : upperChar c ≠ [] := by
  have table : ∀ entry ∈ longCapitals, entry.2 ≠ [] := by decide +kernel
  unfold upperChar upperBeyondBasic
  split
  · simp
  · split
    next codes found =>
      obtain ⟨before, behind, split, _⟩ := List.lookup_eq_some_iff.1 found
      have some_code := table (c.toNat, codes) (by simp [split])
      simpa using some_code
    · split <;> simp

theorem blankRanges_pos : ∀ range ∈ blankRanges, 0 < range.1 := by decide

/-- A code point beside all white space is that of no blank.  If it is that of no character at all,
zero stands for it. -/
theorem isBlank_ofNat {n : Nat} (beside : ∀ range ∈ blankRanges, n < range.1 ∨ range.2 < n) :
    isBlank (Char.ofNat n) = false := by
  unfold isBlank
  rw [List.any_eq_false, Char.toNat_ofNat]
  intro range member inside
  simp only [Bool.and_eq_true, decide_eq_true_eq] at inside
  have positive := blankRanges_pos range member
  have apart := beside range member
  split at inside <;> omega

/-- **Capitals are no blanks**, unless what they are the capitals of is one. -/
theorem isBlank_of_mem_upperChar {c d : Char} (solid : isBlank c = false)
    (member : d ∈ upperChar c) :
    isBlank d = false := by
  have basic : ∀ n < 0x80, isBlank (Char.ofNat n) = false →
      isBlank (Char.ofNat n).toUpper = false := by
    decide +kernel
  have long : ∀ entry ∈ longCapitals, ∀ n ∈ entry.2, isBlank (Char.ofNat n) = false := by
    decide +kernel
  have runs : ∀ run ∈ caseRuns, ∀ range ∈ blankRanges,
      run.last + run.shift < range.1 ∨ range.2 < run.first + run.shift := by decide +kernel
  unfold upperChar upperBeyondBasic at member
  split at member
  next small =>
    obtain rfl := List.mem_singleton.1 member
    have capital := basic c.toNat small
    rw [Char.ofNat_toNat] at capital
    exact capital solid
  · split at member
    next codes found =>
      obtain ⟨before, behind, split, _⟩ := List.lookup_eq_some_iff.1 found
      obtain ⟨n, code, rfl⟩ := List.mem_map.1 member
      exact long (c.toNat, codes) (by simp [split]) n code
    · split at member
      next run found =>
        obtain rfl := List.mem_singleton.1 member
        have held := List.find?_some found
        simp only [CaseRun.holds, Bool.and_eq_true, decide_eq_true_eq] at held
        -- the whole run is moved past the white space, to one side or the other
        refine isBlank_ofNat fun range blank => ?_
        have moved := runs run (List.mem_of_find?_eq_some found) range blank
        have positive := blankRanges_pos range blank
        omega
      · obtain rfl := List.mem_singleton.1 member
        exact solid

theorem upper_ne_nil {text : List Char} (nonempty : text ≠ []) : upper text ≠ [] := by
  obtain ⟨c, rest, rfl⟩ := List.exists_cons_of_ne_nil nonempty
  simp [upper, upperChar_ne_nil]

theorem isBlank_of_mem_upper {text : List Char} (solid : ∀ c ∈ text, isBlank c = false) {d : Char}
    (member : d ∈ upper text) : isBlank d = false := by
  obtain ⟨c, among, capital⟩ := List.mem_flatMap.1 member
  exact isBlank_of_mem_upperChar (solid c among) capital

/-- No piece holds a separator, and its characters come from the text. -/
theorem mem_of_mem_splitOnP {isSeparator : Char → Bool} {text piece : List Char} {c : Char}
    (among : piece ∈ text.splitOnP isSeparator) (member : c ∈ piece) :
    c ∈ text ∧ isSeparator c = false := by
  have inside : c ∈ (text.splitOnP isSeparator).flatten :=
    List.mem_flatten.2 ⟨piece, among, member⟩
  rw [flatten_splitOnP] at inside
  simpa using inside

end Text

/-! ## §3. Statements. -/

/-- **What the later stages take for granted**: a label is named by word characters, and an
operation has a name and at least one operand, in which there are neither commas nor blanks. -/
def Body.WellFormed : Body → Prop
  | .label name => IsWord name
  | .operation mnemonic operands =>
    mnemonic ≠ "" ∧ operands ≠ [] ∧
      ∀ operand ∈ operands, ∀ c ∈ operand.toList, c ≠ ',' ∧ Text.isBlank c = false

theorem Body.wellFormed_ofWords {first solid : List Char} (begins : first ≠ [])
    (unbroken : ∀ c ∈ solid, Text.isBlank c = false) : (Body.ofWords first solid).WellFormed := by
  unfold Body.ofWords
  split
  next name captured =>
    show ∀ c ∈ (String.ofList name).toList, Text.isWordChar c = true
    rw [String.toList_ofList]
    exact (Shape.capture?_label_iff.1 captured).1
  · refine ⟨?_, ?_, ?_⟩
    · rw [Ne, String.ofList_eq_empty_iff]
      exact Text.upper_ne_nil begins
    · unfold Statement.operandsOf
      rw [Ne, List.map_eq_nil_iff]
      exact List.splitOn_ne_nil ',' _
    · intro operand among c member
      obtain ⟨field, cut, rfl⟩ := List.mem_map.1 among
      rw [String.toList_ofList] at member
      obtain ⟨inside, other⟩ := Text.mem_of_mem_splitOnP cut member
      refine ⟨by simpa using other, Text.isBlank_of_mem_upper ?_ inside⟩
      intro d written
      rw [List.flatten_singleton] at written
      exact unbroken d (List.mem_of_mem_drop written)

/-- Every kept line is read, under its own number. -/
theorem Statement.exists_ofLine {text : String} {line : Line} (kept : line ∈ Source.lines text) :
    ∃ statement, ofLine line = .ok statement ∧ statement.line = line.number ∧
      statement.body.WellFormed := by
  obtain ⟨number, content⟩ := line
  obtain ⟨i, raw, _, _, strips, nonempty⟩ := Source.mem_lines_iff.1 kept
  have content_eq : content = String.ofList (Source.clean raw) := by
    rw [← Source.strips_iff.1 strips, String.ofList_toList]
  have some_left : Source.clean raw ≠ [] := by
    intro none
    exact nonempty (by rw [content_eq, none, String.ofList_nil])
  have begins := Source.firstWord_clean_ne_nil some_left
  refine ⟨⟨number, .ofWords (Text.firstWord (Source.clean raw)) (Text.solid (Source.clean raw))⟩,
    ?_, rfl, ?_⟩
  · rw [ofLine_eq, content_eq, bodyOf_eq begins]
    rfl
  · refine Body.wellFormed_ofWords begins fun c member => ?_
    simpa using (List.mem_filter.1 member).2

/-- Lines that can all be read are read in order. -/
theorem Statement.exists_parse_of_forall {P : Line → Statement → Prop} {lines : List Line}
    (each : ∀ line ∈ lines, ∃ statement, ofLine line = .ok statement ∧ P line statement) :
    ∃ program, parse lines = .ok program ∧ List.Forall₂ P lines program := by
  unfold parse
  induction lines with
  | nil => exact ⟨[], rfl, .nil⟩
  | cons line rest ih =>
    obtain ⟨statement, read, first⟩ := each line List.mem_cons_self
    obtain ⟨program, read_rest, others⟩ := ih fun other member =>
      each other (List.mem_cons_of_mem _ member)
    refine ⟨statement :: program, ?_, .cons first others⟩
    rw [List.mapM_cons, read, read_rest]
    rfl

/-- **Every text is read, into statements that are in order.**  A line is kept if something is left
of it without its indentation and its comment, under its number counted from one.  Numbers ascend,
so each of these lines is kept once.  Every kept line is read: there is one statement for each of
them, in order and with the same number.  It defines a label by a word, or it names an operation
with at least one operand, in which there are neither commas nor blanks. -/
theorem front_end_reads_every_text (text : String) :
    (∀ (number : Int) (kept : String), ⟨number, kept⟩ ∈ Source.lines text ↔
      ∃ (i : Nat) (line : List Char),
      (text.toList.splitOn '\n')[i]? = some line ∧ number = i + 1 ∧
        Source.Strips line kept.toList ∧ kept ≠ "") ∧
    (Source.lines text).Pairwise (fun line other => line.number < other.number) ∧
    ∃ program, Statement.parse (Source.lines text) = .ok program ∧
      List.Forall₂ (fun line statement => statement.line = line.number ∧ statement.body.WellFormed)
        (Source.lines text) program := by
  refine ⟨fun _ _ => Source.mem_lines_iff, Source.pairwise_number_lines text, ?_⟩
  exact Statement.exists_parse_of_forall fun line kept => Statement.exists_ofLine kept

end Mcs51
