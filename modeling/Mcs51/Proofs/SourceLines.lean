/-
  Mcs51.Proofs.SourceLines — what lines say, wherever they stand.

  A line keeps its number for diagnostics only.  What it says depends on its text, and so what a
  program says is put together from what its lines say.  Of its text, only two things count: the
  first word, and all characters that are no blanks.

  Main definitions:
    * `Source.join` : the text of lines;
    * `Source.kept?`, `Statement.bodyOf` : what is left of one line, and what it says;
    * `Statement.bodies` : what a program says;
    * `Statement.said?`, `Statement.ofText` : what a line says, if it says anything, and the
      statements of a text.

  Main statements:
    * `Source.texts_join` : the lines of a text that was put together;
    * `Statement.bodies_of_parse` : a program says what its lines say;
    * `Statement.bodies_join_append` : a program that follows another adds its lines;
    * `Statement.bodyOf_eq` : what counts of a line;
    * `Statement.parse_lines` : every text is read, line by line.
-/
import Mcs51.Statement
import Mcs51.Proofs.ReadBack

namespace Mcs51

/-! ## §1. What is left of lines. -/

namespace Source

/-- The text of lines, each of which ends in a line feed. -/
def join (lines : List String) : String :=
  String.join (lines.map (· ++ "\n"))

/-- What is left of a line that says anything. -/
def kept? (line : List Char) : Option String :=
  if (clean line).isEmpty then none else some (String.ofList (clean line))

/-- What is left of the lines does not depend on their numbers. -/
theorem texts_lines (text : String) :
    (lines text).map Line.text = (Text.lines text.toList).filterMap kept? := by
  unfold lines
  generalize Text.lines text.toList = pieces
  -- the first number is of no account, so let it vary
  generalize 1 = first
  induction pieces generalizing first with
  | nil => rfl
  | cons piece rest ih =>
    rw [List.zipIdx_cons]
    unfold kept? at ih ⊢
    by_cases blank : (clean piece).isEmpty = true
    · simp only [List.filterMap_cons, blank, if_true, ih]
    · simp only [List.filterMap_cons, blank, Bool.false_eq_true, if_false, List.map_cons, ih]

theorem texts_join {texts : List String} (plain : ∀ text ∈ texts, '\n' ∉ text.toList) :
    (lines (join texts)).map Line.text = (texts.map String.toList).filterMap kept? := by
  have joined : (join texts).toList = (texts.map String.toList).flatMap (· ++ ['\n']) := by
    simp [join, String.toList_join, List.flatMap_map]
  have nothing : kept? [] = none := by decide
  rw [texts_lines, joined, Text.lines_closed, List.filterMap_append]
  · simp [nothing]
  · intro characters member
    obtain ⟨text, among, rfl⟩ := List.mem_map.1 member
    exact plain text among

/-- The lines of two texts, one after the other. -/
theorem texts_join_append {texts others : List String}
    (plain : ∀ text ∈ texts, '\n' ∉ text.toList) (plain' : ∀ text ∈ others, '\n' ∉ text.toList) :
    (lines (join (texts ++ others))).map Line.text =
      (lines (join texts)).map Line.text ++ (lines (join others)).map Line.text := by
  rw [texts_join plain, texts_join plain', texts_join, List.map_append, List.filterMap_append]
  intro text member
  rcases List.mem_append.1 member with here | there
  · exact plain text here
  · exact plain' text there

end Source

/-! ## §2. What lines say. -/

/-- Whether reading ends with a certain result can be decided. -/
instance decidableEqOk {ε α : Type} [DecidableEq α] (result : Except ε α) (a : α) :
    Decidable (result = .ok a) :=
  match result with
  | .ok b => decidable_of_iff (b = a) ⟨congrArg _, Except.ok.inj⟩
  | .error _ => isFalse (fun h => nomatch h)

namespace Statement

/-- The lines of a program without their numbers. -/
def bodies (program : List Statement) : List Body :=
  program.map Statement.body

/-- What the text of a line says. -/
def bodyOf (text : String) : Except Crash Body :=
  match Shape.label.capture? text.toList with
  | some name => .ok (.label (String.ofList name))
  | none =>
    match Text.words text.toList with
    | [] => .error .blankLine
    | first :: rest => .ok (.operation (String.ofList (Text.upper first)) (operandsOf rest))

theorem ofLine_eq (line : Line) :
    ofLine line = (bodyOf line.text).map fun body => ⟨line.number, body⟩ := by
  unfold ofLine bodyOf
  cases Shape.label.capture? line.text.toList with
  | some name => rfl
  | none =>
    cases Text.words line.text.toList with
    | nil => rfl
    | cons first rest => rfl

/-- What lines say depends on their texts alone. -/
theorem bodies_of_parse {lines : List Line} {program : List Statement}
    (h : parse lines = .ok program) :
    (lines.map Line.text).mapM bodyOf = .ok (bodies program) := by
  unfold parse at h
  induction lines generalizing program with
  | nil =>
    obtain rfl : [] = program := Except.ok.inj h
    rfl
  | cons line rest ih =>
    rw [List.mapM_cons, ofLine_eq] at h
    rw [List.map_cons, List.mapM_cons]
    cases meaning : bodyOf line.text with
    | error crash =>
      rw [meaning] at h
      exact absurd h (by simp [Except.map, bind, Except.bind])
    | ok body =>
      cases read : rest.mapM ofLine with
      | error crash =>
        rw [meaning, read] at h
        exact absurd h (by simp [Except.map, bind, Except.bind])
      | ok others =>
        rw [meaning, read] at h
        obtain rfl : ⟨line.number, body⟩ :: others = program := Except.ok.inj h
        rw [ih read]
        rfl

/-- A program that follows another adds its lines. -/
theorem bodies_join_append {texts others : List String} {program program' whole : List Statement}
    (plain : ∀ text ∈ texts, '\n' ∉ text.toList) (plain' : ∀ text ∈ others, '\n' ∉ text.toList)
    (read : parse (Source.lines (Source.join texts)) = .ok program)
    (read' : parse (Source.lines (Source.join others)) = .ok program')
    (read_whole : parse (Source.lines (Source.join (texts ++ others))) = .ok whole) :
    bodies whole = bodies program ++ bodies program' := by
  have all := bodies_of_parse read_whole
  rw [Source.texts_join_append plain plain', List.mapM_append, bodies_of_parse read,
      bodies_of_parse read'] at all
  exact (Except.ok.inj all).symm

end Statement

/-! ## §3. Words. -/

namespace Text

section Pieces

variable {isSeparator : Char → Bool}

/-- The pieces hold every character but the separators. -/
theorem flatten_splitOnP (text : List Char) :
    (text.splitOnP isSeparator).flatten = text.filter (!isSeparator ·) := by
  induction text with
  | nil => rfl
  | cons c rest ih =>
    rw [List.splitOnP_cons_eq_if_modifyHead]
    by_cases separates : isSeparator c = true
    · simp [separates, ih]
    · cases pieces : rest.splitOnP isSeparator with
      | nil => exact absurd pieces (List.splitOnP_ne_nil isSeparator rest)
      | cons piece others =>
        rw [pieces] at ih
        simp [separates, ← ih]

/-- The first piece goes up to the first separator. -/
theorem head?_splitOnP (text : List Char) :
    (text.splitOnP isSeparator).head? = some (text.takeWhile (!isSeparator ·)) := by
  induction text with
  | nil => rfl
  | cons c rest ih =>
    rw [List.splitOnP_cons_eq_if_modifyHead]
    by_cases separates : isSeparator c = true
    · simp [separates]
    · rw [if_neg separates, List.head?_modifyHead, ih]
      simp [separates]

end Pieces

/-- What stands before the first blank. -/
def firstWord (text : List Char) : List Char :=
  text.takeWhile (!isBlank ·)

/-- The characters that are no blanks. -/
def solid (text : List Char) : List Char :=
  text.filter (!isBlank ·)

/-- **The words of a text are its characters that are no blanks**, and the first of them stands in
front, if the text does not begin with a blank. -/
theorem exists_words {text : List Char} (begins : firstWord text ≠ []) :
    ∃ others, words text = firstWord text :: others ∧
      firstWord text ++ others.flatten = solid text := by
  have first := @head?_splitOnP isBlank text
  have all := @flatten_splitOnP isBlank text
  unfold words
  cases pieces : text.splitOnP isBlank with
  | nil => exact absurd pieces (List.splitOnP_ne_nil isBlank text)
  | cons piece others =>
    rw [pieces] at first all
    obtain rfl := Option.some.inj first
    have kept : (!(firstWord text).isEmpty) = true := by simpa using begins
    refine ⟨others.filter (!·.isEmpty), List.filter_cons_of_pos kept, ?_⟩
    rw [List.flatten_filter_not_isEmpty]
    exact all

/-- A word character is no blank. -/
theorem isBlank_of_isWordChar {c : Char} (word : isWordChar c = true) : isBlank c = false := by
  have none : ∀ range ∈ blankRanges, ∀ n ∈ List.range' range.1 (range.2 + 1 - range.1),
      isWordChar (Char.ofNat n) = false := by decide +kernel
  by_contra blank
  obtain ⟨range, member, inside⟩ := List.any_eq_true.1 (Bool.of_not_eq_false blank)
  simp only [Bool.and_eq_true, decide_eq_true_eq] at inside
  have differs := none range member c.toNat (by simp only [List.mem_range'_1]; omega)
  rw [Char.ofNat_toNat, word] at differs
  exact absurd differs (by decide)

end Text

/-- A text begins with the definition of a label if it is a word, a colon and something after it. -/
theorem Shape.capture?_label_iff {text name : List Char} :
    Shape.label.capture? text = some name ↔
      (∀ c ∈ name, Text.isWordChar c = true) ∧ ∃ rest, text = name ++ ':' :: rest := by
  constructor
  · intro captured
    have run : text.takeWhile Text.isWordChar = name := by
      simp only [Shape.capture?, Shape.label, Text.stripOpening?, Repetition.take?] at captured
      split at captured
      · exact absurd captured (by simp)
      · simpa using captured
    obtain ⟨rest, text_eq⟩ := Shape.capture?_eq_spell captured
    refine ⟨fun c member => ?_, rest, by simpa [Shape.spell, Shape.label] using text_eq⟩
    rw [← run] at member
    exact List.mem_takeWhile_imp member
  · rintro ⟨word, rest, rfl⟩
    have run : (name ++ ':' :: rest).takeWhile Text.isWordChar = name := by
      rw [List.takeWhile_append_of_pos word, List.takeWhile_cons_of_neg (by decide),
        List.append_nil]
    simp [Shape.capture?, Shape.label, Text.stripOpening?, Repetition.take?, run]

/-- The first word decides whether a text begins with the definition of a label. -/
theorem Shape.capture?_label_firstWord (text : List Char) :
    Shape.label.capture? text = Shape.label.capture? (Text.firstWord text) := by
  have solid : ∀ {name : List Char}, (∀ c ∈ name, Text.isWordChar c = true) →
      ∀ c ∈ name ++ [':'], (!Text.isBlank c) = true := by
    intro name word c member
    rcases List.mem_append.1 member with letter | colon
    · simp [Text.isBlank_of_isWordChar (word c letter)]
    · obtain rfl := List.mem_singleton.1 colon
      decide
  refine Option.ext fun name => ?_
  rw [Shape.capture?_label_iff, Shape.capture?_label_iff]
  refine and_congr_right fun word => ⟨?_, ?_⟩
  · rintro ⟨rest, rfl⟩
    refine ⟨Text.firstWord rest, ?_⟩
    have front : (name ++ [':'] ++ rest).takeWhile (!Text.isBlank ·) =
        name ++ [':'] ++ rest.takeWhile (!Text.isBlank ·) :=
          List.takeWhile_append_of_pos (solid word)
    simpa [Text.firstWord] using front
  · rintro ⟨rest, first⟩
    refine ⟨rest ++ text.dropWhile (!Text.isBlank ·), ?_⟩
    calc text = Text.firstWord text ++ text.dropWhile (!Text.isBlank ·) :=
          List.takeWhile_append_dropWhile.symm
      _ = name ++ ':' :: (rest ++ text.dropWhile (!Text.isBlank ·)) := by simp [first]

/-! ## §4. What a line says. -/

/-- What a text says, by its first word and by all its characters that are no blanks. -/
def Body.ofWords (first solid : List Char) : Body :=
  match Shape.label.capture? first with
  | some name => .label (String.ofList name)
  | none =>
    .operation (String.ofList (Text.upper first)) (Statement.operandsOf [solid.drop first.length])

namespace Statement

theorem bodyOf_eq {text : List Char} (begins : Text.firstWord text ≠ []) :
    bodyOf (String.ofList text) = .ok (Body.ofWords (Text.firstWord text) (Text.solid text)) := by
  obtain ⟨others, words_eq, solid_eq⟩ := Text.exists_words begins
  have operands : operandsOf others =
      operandsOf [(Text.solid text).drop (Text.firstWord text).length] := by
    simp [operandsOf, ← solid_eq]
  unfold bodyOf Body.ofWords
  rw [String.toList_ofList, words_eq, Shape.capture?_label_firstWord]
  cases Shape.label.capture? (Text.firstWord text) with
  | some name => rfl
  | none =>
    show Except.ok (Body.operation _ (operandsOf others)) = _
    rw [operands]

end Statement

namespace Source

/-- What is left of a line begins with another character than a blank. -/
theorem exists_cons_of_clean {line : List Char} (nonempty : clean line ≠ []) :
    ∃ c rest, clean line = c :: rest ∧ Text.isBlank c = false := by
  unfold clean at nonempty ⊢
  cases dropped : Text.dropBlanks line with
  | nil => exact absurd (by rw [dropped]; rfl) nonempty
  | cons c rest =>
    have solid : Text.isBlank c = false := by
      have first := List.head?_dropWhile_not Text.isBlank line
      unfold Text.dropBlanks at dropped
      rw [dropped] at first
      simpa using first
    rw [dropped] at nonempty
    by_cases comment : c = ';'
    · exact absurd (by simp [comment]) nonempty
    · exact ⟨c, rest.takeWhile (· != ';'), by simp [comment], solid⟩

/-- What is left of a line begins with a word. -/
theorem firstWord_clean_ne_nil {line : List Char} (nonempty : clean line ≠ []) :
    Text.firstWord (clean line) ≠ [] := by
  obtain ⟨c, rest, cleaned, solid⟩ := exists_cons_of_clean nonempty
  simp [cleaned, Text.firstWord, solid]

end Source

namespace Statement

/-- **What a line says**, if it says anything. -/
def said? (line : List Char) : Option Body :=
  if Source.clean line = [] then none
  else some (.ofWords (Text.firstWord (Source.clean line)) (Text.solid (Source.clean line)))

/-- The statements of lines, of which the first has the given number. -/
def numbered : Nat → List (List Char) → List Statement
  | _, [] => []
  | number, line :: rest =>
    ((said? line).map (Statement.mk number)).toList ++ numbered (number + 1) rest

/-- **The statements of a text.** -/
def ofText (text : String) : List Statement :=
  numbered 1 (Text.lines text.toList)

theorem numbered_append (number : Nat) (lines others : List (List Char)) :
    numbered number (lines ++ others) =
      numbered number lines ++ numbered (number + lines.length) others := by
  induction lines generalizing number with
  | nil => rfl
  | cons line rest ih =>
    show _ ++ numbered (number + 1) (rest ++ others) = _
    rw [ih, ← List.append_assoc, List.length_cons, Nat.add_right_comm, Nat.add_assoc]
    rfl

/-- **Every text is read**: what is left of a line is a label or names an operation. -/
theorem parse_lines (text : String) : parse (Source.lines text) = .ok (ofText text) := by
  unfold parse Source.lines ofText
  generalize Text.lines text.toList = pieces
  -- the first number is of no account, so let it vary
  generalize 1 = number
  induction pieces generalizing number with
  | nil => rfl
  | cons piece rest ih =>
    rw [List.zipIdx_cons, List.filterMap_cons, numbered, said?]
    by_cases blank : Source.clean piece = []
    · simp only [blank, List.isEmpty_nil, if_true]
      exact ih (number + 1)
    · have kept : (Source.clean piece).isEmpty = false := by simpa using blank
      have meaning := bodyOf_eq (Source.firstWord_clean_ne_nil blank)
      simp only [kept, Bool.false_eq_true, if_false, List.mapM_cons, ofLine_eq, meaning, ih, blank]
      rfl

theorem exists_parse (text : String) : ∃ program, parse (Source.lines text) = .ok program :=
  ⟨ofText text, parse_lines text⟩

end Statement

end Mcs51
