/-
  Mcs51.Proofs.TextLayout — what in a text does not count.

  A program can be written in many ways.  Blanks and comments say nothing, and neither do lines that
  hold nothing else; behind the end directive nothing is said at all.  Lines that are inserted move
  the others down, but the number of a line counts only in a diagnostic.

  Main definitions:
    * `Statement.renumber`, `Diagnostic.renumber` : statements and diagnostics on other lines;
    * `Source.Respaced` : a line with more blanks or comments in it;
    * `Source.Relaid` : a text that is laid out anew, with the new numbers of its lines.

  Main statements:
    * `Assembler.assemble_renumber` : placing a program does the same on other lines;
    * `run_ignores_text_behind_end` : the text behind the end directive;
    * `Statement.said?_respaced` : blanks and comments on a line;
    * `relaid_text_runs_alike` : blanks and comments in a text.
-/
import Mcs51.Program
import Mcs51.Proofs.Reachable

namespace Mcs51

/-! ## §1. Line numbers. -/

section Renumber

variable (number : Int → Int)

/-- The diagnostic with another number for its line. -/
def Diagnostic.renumber : Diagnostic → Diagnostic
  | .malformed mnemonic line => .malformed mnemonic (number line)
  | .unknownMnemonic mnemonic line => .unknownMnemonic mnemonic (number line)
  | diagnostic => diagnostic

/-- The stop with another number for the line it is about. -/
def Stop.renumber : Stop → Stop
  | .reported diagnostic => .reported (diagnostic.renumber number)
  | .crashed crash => .crashed crash

/-- The statement with another number for its line. -/
def Statement.renumber (statement : Statement) : Statement :=
  ⟨number statement.line, statement.body⟩

/-- The move with another number for its line. -/
def Move.renumber : Move → Move
  | .halt stop => .halt (stop.renumber number)
  | move => move

/-- The result of a stage with another number for the line it stopped at. -/
def renumberResult :
    EStateM.Result Stop Assembler Unit → EStateM.Result Stop Assembler Unit
  | .ok _ s => .ok () s
  | .error stop s => .error (stop.renumber number) s

/-- The moves of an instruction do not know its line. -/
theorem Encoding.moves_renumber (encoding : Encoding) :
    encoding.moves.map (Move.renumber number) = encoding.moves := by
  have stores : (encoding.cells.map Move.store).map (Move.renumber number) =
      encoding.cells.map Move.store := by
    rw [List.map_map]
    rfl
  unfold Encoding.moves
  cases encoding.reference with
  | none => exact stores
  | some reference =>
    dsimp only
    split
    · rw [List.map_cons, stores]
      rfl
    · rw [List.map_append, stores]
      rfl

theorem Refusal.moves_renumber (mnemonic : String) (line : Int) (refusal : Refusal) :
    (refusal.moves mnemonic line).map (Move.renumber number) =
      refusal.moves mnemonic (number line) := by
  cases refusal with
  | malformed stored =>
    unfold Refusal.moves
    rw [List.map_append, List.map_map]
    rfl
  | crash fault => rfl

/-- **Step**: the moves of a statement are the same on another line, up to the number with which
they halt. -/
theorem Statement.moves_renumber (statement : Statement) :
    (statement.renumber number).moves = statement.moves.map (Move.renumber number) := by
  obtain ⟨line, body⟩ := statement
  cases body with
  | label name => rfl
  | operation mnemonic operands =>
    show Body.movesOf (number line) mnemonic operands =
      (Body.movesOf line mnemonic operands).map (Move.renumber number)
    unfold Body.movesOf
    by_cases isOrigin : mnemonic = "ORG"
    · rw [if_pos isOrigin, if_pos isOrigin]
      cases origin operands with
      | ok address => rfl
      | error refusal => exact (refusal.moves_renumber number mnemonic line).symm
    · rw [if_neg isOrigin, if_neg isOrigin]
      cases Mnemonic.ofName? mnemonic with
      | none => rfl
      | some known =>
        dsimp only
        cases known.encode operands with
        | ok encoding => exact (encoding.moves_renumber number).symm
        | error refusal => exact (refusal.moves_renumber number mnemonic line).symm

/-- **Run**: so are the moves of a program. -/
theorem Assembler.moves_renumber (program : List Statement) :
    moves (program.map (Statement.renumber number)) =
      (moves program).map (Move.renumber number) := by
  have rest : movesOf (program.map (Statement.renumber number)) =
      (movesOf program).map (Move.renumber number) := by
    induction program with
    | nil => rfl
    | cons statement rest ih =>
      have same : (statement.renumber number).isEnd = statement.isEnd := rfl
      rw [List.map_cons, movesOf, movesOf, same]
      by_cases ends : statement.isEnd = true
      · rw [if_pos ends, if_pos ends]
        rfl
      · rw [if_neg ends, if_neg ends, List.map_append, statement.moves_renumber, ih]
  unfold moves
  rw [rest]
  rfl

theorem Move.perform_renumber (move : Move) (s : Assembler) :
    (move.renumber number).perform s = renumberResult number (move.perform s) := by
  cases move with
  | goTo address => rfl
  | note mnemonic label => rfl
  | halt stop => rfl
  | store cell =>
    show Assembler.storeCell cell s = renumberResult number (Assembler.storeCell cell s)
    unfold Assembler.storeCell
    cases s.memory.slot? s.counter <;> rfl
  | define label =>
    show Assembler.define label s = renumberResult number (Assembler.define label s)
    unfold Assembler.define
    cases s.labels.find? label <;> rfl

theorem Move.performAll_renumber (moves : List Move) (s : Assembler) :
    performAll (moves.map (Move.renumber number)) s =
      renumberResult number (performAll moves s) := by
  induction moves generalizing s with
  | nil => rfl
  | cons move rest ih =>
    show EStateM.bind (move.renumber number).perform (fun _ => performAll (rest.map _)) s =
      renumberResult number (EStateM.bind move.perform (fun _ => performAll rest) s)
    unfold EStateM.bind
    rw [move.perform_renumber]
    cases move.perform s with
    | ok _ t => exact ih t
    | error stop t => rfl

/-- **Placing a program does the same on other lines**, up to the number with which it stops. -/
theorem Assembler.assemble_renumber (program : List Statement) (s : Assembler) :
    assemble (program.map (Statement.renumber number)) s =
      renumberResult number (assemble program s) := by
  rw [assemble_eq_performAll, assemble_eq_performAll, moves_renumber, Move.performAll_renumber]

end Renumber

namespace Assembler

open Statement (ofText parse_lines)

/-- How the statements of a text are placed decides how it is built. -/
theorem build_eq_of_assemble_eq {text text' : String} {s : Assembler}
    (same : assemble (ofText text') s = assemble (ofText text) s) :
    build text' s = build text s := by
  rw [build_of_parse (parse_lines text'), build_of_parse (parse_lines text)]
  show EStateM.bind (assemble (ofText text')) (fun _ => link) s =
    EStateM.bind (assemble (ofText text)) (fun _ => link) s
  unfold EStateM.bind
  rw [same]

theorem run_eq_of_assemble_eq {text text' : String} {s : Assembler}
    (same : assemble (ofText text') s = assemble (ofText text) s) : s.run text' = s.run text := by
  unfold run
  rw [build_eq_of_assemble_eq same]

/-- A program that is built is built on other lines too. -/
theorem build_renumber {text text' : String} {number : Int → Int}
    (renumbered : ofText text' = (ofText text).map (Statement.renumber number)) {s t : Assembler}
    (built : build text s = .ok () t) : build text' s = .ok () t := by
  rw [build_of_parse (parse_lines text)] at built
  obtain ⟨_, placed, assembled, links⟩ := bind_eq_ok built
  have assembled' : assemble (ofText text') s = .ok () placed := by
    rw [renumbered, assemble_renumber, assembled]
    rfl
  rw [build_eq_link (parse_lines text') assembled', links]

/-- A run on the same statements on other lines leaves the same state, and it prints the same but
for the number of a line in a diagnostic. -/
theorem run_renumber {text text' : String} {number : Int → Int}
    (renumbered : ofText text' = (ofText text).map (Statement.renumber number)) (s : Assembler) :
    s.run text' = s.run text ∨
      ∃ diagnostic final, s.run text = ⟨Diagnostic.outcome diagnostic, final⟩ ∧
        s.run text' = ⟨(diagnostic.renumber number).outcome, final⟩ := by
  have placing := assemble_renumber number (ofText text) s
  rw [← renumbered] at placing
  have stops {text : String} {stop : Stop} {t : Assembler}
      (placed : assemble (ofText text) s = .error stop t) : s.run text = ⟨stop.outcome, t⟩ := by
    unfold run
    rw [build_of_stops (parse_lines text) placed]
  cases placed : assemble (ofText text) s with
  | ok _ t =>
    rw [placed] at placing
    exact .inl (run_eq_of_assemble_eq (placing.trans placed.symm))
  | error stop t =>
    rw [placed] at placing
    cases stop with
    | crashed crash => exact .inl (run_eq_of_assemble_eq (placing.trans placed.symm))
    | reported diagnostic => exact .inr ⟨diagnostic, t, stops placed, stops placing⟩

/-! ## §2. Behind the end. -/

/-- Statements behind the end directive are not carried out. -/
theorem process_of_isEnd {ending : Statement} (ends : ending.isEnd = true)
    (before after : List Statement) :
    process (before ++ ending :: after) = process (before ++ [ending]) := by
  induction before with
  | nil =>
    show process (ending :: after) = process [ending]
    rw [process, process, if_pos ends, if_pos ends]
  | cons statement rest ih =>
    rw [List.cons_append, List.cons_append, process, process, ih]

end Assembler

/-- The statement on a line that is the end directive and nothing else. -/
theorem Statement.said?_end : said? ['E', 'N', 'D'] = some (.operation "END" [""]) := by
  decide +kernel

open Statement in
/-- **The text behind the end is never looked at.**  A run on a text that goes on behind the end
directive prints the same as if the text ended there, ends in the same way and leaves the same
state, whatever the text says before and behind. -/
theorem run_ignores_text_behind_end (s : Assembler) (text rest : String) :
    s.run (text ++ "\nEND\n" ++ rest) = s.run (text ++ "\nEND") := by
  have read : ∀ lines : List (List Char),
      numbered 1 (Text.lines text.toList ++ ['E', 'N', 'D'] :: lines) =
      numbered 1 (Text.lines text.toList) ++
        ⟨(1 + (Text.lines text.toList).length : Nat), .operation "END" [""]⟩ ::
          numbered (1 + (Text.lines text.toList).length + 1) lines := by
    intro lines
    rw [numbered_append, numbered, said?_end]
    rfl
  have whole : ofText (text ++ "\nEND\n" ++ rest) =
      numbered 1 (Text.lines text.toList ++ ['E', 'N', 'D'] :: Text.lines rest.toList) := by
    have parts : (text ++ "\nEND\n" ++ rest).toList =
        text.toList ++ '\n' :: (['E', 'N', 'D'] ++ '\n' :: rest.toList) := by simp
    unfold ofText Text.lines
    rw [parts, List.splitOn_append_cons_self, List.splitOn_append_cons_self]
    rfl
  have cut : ofText (text ++ "\nEND") =
      numbered 1 (Text.lines text.toList ++ ['E', 'N', 'D'] :: []) := by
    have parts : (text ++ "\nEND").toList = text.toList ++ '\n' :: ['E', 'N', 'D'] := by simp
    unfold ofText Text.lines
    rw [parts, List.splitOn_append_cons_self]
    rfl
  apply Assembler.run_eq_of_assemble_eq
  rw [whole, cut, read, read]
  unfold Assembler.assemble
  rw [Assembler.process_of_isEnd rfl]
  rfl

/-! ## §3. A line laid out anew. -/

namespace Source

/-- A comment, or nothing. -/
def IsRemark (text : List Char) : Prop :=
  text = [] ∨ text.head? = some ';'

instance (text : List Char) : Decidable (IsRemark text) :=
  inferInstanceAs (Decidable (_ ∨ _))

/-- Nothing but blanks. -/
def IsGap (text : List Char) : Prop :=
  ∀ c ∈ text, Text.isBlank c = true

instance (text : List Char) : Decidable (IsGap text) :=
  List.decidableBAll _ text

/-- **A line with more blanks or comments in it.** -/
inductive Respaced : List Char → List Char → Prop where
  /-- Blanks before the line. -/
  | indented {gap line : List Char} (blank : IsGap gap) : Respaced line (gap ++ line)
  /-- Blanks behind the line, and a comment behind them. -/
  | trailed {line gap remark : List Char} (blank : IsGap gap) (closed : IsRemark remark) :
      Respaced line (line ++ gap ++ remark)
  /-- Blanks anywhere behind the first word and the first blank after it. -/
  | spaced {indent word front gap back : List Char} {c : Char} (indented : IsGap indent)
      (named : word ≠ []) (solid : ∀ c ∈ word, Text.isBlank c = false)
      (parted : Text.isBlank c = true) (blank : IsGap gap) :
      Respaced (indent ++ word ++ c :: front ++ back) (indent ++ word ++ c :: front ++ gap ++ back)

end Source

open Source

/-- No comment begins among blanks. -/
theorem Source.IsGap.takeWhile_append {gap : List Char} (blank : IsGap gap) (text : List Char) :
    (gap ++ text).takeWhile (· != ';') = gap ++ text.takeWhile (· != ';') := by
  refine List.takeWhile_append_of_pos fun c member => ?_
  have := blank c member
  have other : c ≠ ';' := by
    rintro rfl
    exact absurd this (by decide)
  simpa using other

theorem Source.IsGap.solid_eq {gap : List Char} (blank : IsGap gap) : Text.solid gap = [] := by
  refine List.filter_eq_nil_iff.2 fun c member => ?_
  simp [blank c member]

theorem Source.IsRemark.takeWhile_eq {remark : List Char} (closed : IsRemark remark) :
    remark.takeWhile (· != ';') = [] := by
  cases remark with
  | nil => rfl
  | cons c rest =>
    obtain rfl : c = ';' := by simpa [IsRemark] using closed
    rfl

/-- Blanks in front are dropped. -/
theorem Source.IsGap.dropBlanks_append {gap : List Char} (blank : IsGap gap) (text : List Char) :
    Text.dropBlanks (gap ++ text) = Text.dropBlanks text :=
  List.dropWhile_append_of_pos blank

/-- Behind the first character that is no blank, a line goes on up to its comment. -/
theorem Source.clean_append {front : List Char} (begun : ¬IsGap front) (rest : List Char) :
    clean (front ++ rest) =
      if ';' ∈ Text.dropBlanks front then clean front
      else Text.dropBlanks front ++ rest.takeWhile (· != ';') := by
  have nonempty : ¬(front.dropWhile Text.isBlank).isEmpty = true := by
    intro empty
    exact begun (List.dropWhile_eq_nil_iff.1 (List.isEmpty_iff.1 empty))
  have dropped : Text.dropBlanks (front ++ rest) = Text.dropBlanks front ++ rest := by
    unfold Text.dropBlanks
    rw [List.dropWhile_append, if_neg nonempty]
  unfold clean
  rw [dropped]
  by_cases comment : ';' ∈ Text.dropBlanks front
  · rw [if_pos comment, List.takeWhile_append, if_neg]
    intro same
    have := List.takeWhile_eq_self_iff.1 ((List.takeWhile_prefix _).eq_of_length same) ';' comment
    exact absurd this (by decide)
  · rw [if_neg comment]
    refine List.takeWhile_append_of_pos fun c member => ?_
    have other : c ≠ ';' := fun same => comment (same ▸ member)
    simpa using other

/-- Nothing is left of blanks. -/
theorem Source.IsGap.clean_eq {gap : List Char} (blank : IsGap gap) : clean gap = [] := by
  have dropped : Text.dropBlanks gap = [] := List.dropWhile_eq_nil_iff.2 blank
  unfold clean
  rw [dropped]
  rfl

/-- A comment behind a line is dropped. -/
theorem Source.clean_append_remark (line : List Char) {remark : List Char}
    (closed : IsRemark remark) :
    clean (line ++ remark) = clean line := by
  by_cases blank : IsGap line
  · rw [blank.clean_eq]
    rcases closed with rfl | marked
    · rw [List.append_nil, blank.clean_eq]
    · cases remark with
      | nil => exact absurd marked (by simp)
      | cons c rest =>
        obtain rfl := Option.some.inj marked
        unfold clean
        rw [blank.dropBlanks_append]
        rfl
  · have old := clean_append blank []
    rw [List.append_nil] at old
    rw [old, clean_append blank remark, closed.takeWhile_eq]
    rfl

/-- The first word ends at a blank. -/
theorem Text.firstWord_append {text : List Char} (ended : ∃ c ∈ text, isBlank c = true)
    (more : List Char) : firstWord (text ++ more) = firstWord text := by
  obtain ⟨c, member, blank⟩ := ended
  unfold firstWord
  rw [List.takeWhile_append, if_neg]
  intro same
  have := List.takeWhile_eq_self_iff.1 ((List.takeWhile_prefix _).eq_of_length same) c member
  simp [blank] at this

theorem Text.firstWord_append_gap (text : List Char) {gap : List Char} (blank : IsGap gap) :
    firstWord (text ++ gap) = firstWord text := by
  cases gap with
  | nil => rw [List.append_nil]
  | cons c rest =>
    have stops : (c :: rest).takeWhile (!isBlank ·) = [] := by
      simp [blank c List.mem_cons_self]
    unfold firstWord
    rw [List.takeWhile_append, stops, List.append_nil]
    split
    next same => exact ((List.takeWhile_prefix _).eq_of_length same).symm
    next => rfl

namespace Statement

/-- What a line says depends on the first word and the characters that are left of it. -/
theorem said?_congr {line line' : List Char} (left : clean line' = [] ↔ clean line = [])
    (first : Text.firstWord (clean line') = Text.firstWord (clean line))
    (all : Text.solid (clean line') = Text.solid (clean line)) : said? line' = said? line := by
  unfold said?
  rw [first, all]
  exact if_congr left rfl rfl

/-- **Blanks may be inserted** behind the first character of a line that is no blank, if they do not
part its first word: it ends before them, or nothing but a comment follows. -/
theorem said?_insert {front gap back : List Char} (blank : IsGap gap) (begun : ¬IsGap front)
    (whole : (∃ c ∈ Text.dropBlanks front, Text.isBlank c = true) ∨ IsRemark back) :
    said? (front ++ gap ++ back) = said? (front ++ back) := by
  have old := clean_append begun back
  have new := clean_append begun (gap ++ back)
  rw [← List.append_assoc, blank.takeWhile_append] at new
  by_cases comment : ';' ∈ Text.dropBlanks front
  · -- everything behind the comment mark is dropped
    rw [if_pos comment] at old new
    unfold said?
    rw [old, new]
  · rw [if_neg comment] at old new
    have nonempty : Text.dropBlanks front ≠ [] := fun empty =>
      begun (List.dropWhile_eq_nil_iff.1 empty)
    refine said?_congr ?_ ?_ ?_
    · rw [old, new]
      simp [nonempty]
    · rw [old, new]
      rcases whole with ended | closed
      · rw [Text.firstWord_append ended, Text.firstWord_append ended]
      · rw [closed.takeWhile_eq, List.append_nil, List.append_nil,
          Text.firstWord_append_gap _ blank]
    · rw [old, new]
      have gap_eq := blank.solid_eq
      unfold Text.solid at gap_eq ⊢
      simp [gap_eq]

/-- **More blanks and comments do not change what a line says.** -/
theorem said?_respaced {line line' : List Char} (respaced : Respaced line line') :
    said? line' = said? line := by
  cases respaced with
  | @indented gap _ blank =>
    have same : clean (gap ++ line) = clean line := by
      unfold clean
      rw [blank.dropBlanks_append]
    unfold said?
    rw [same]
  | @trailed _ gap remark blank closed =>
    by_cases empty : IsGap line
    · -- a line of blanks says nothing, with or without a comment
      have longer : IsGap (line ++ gap) := by
        intro c member
        rcases List.mem_append.1 member with old | new
        · exact empty c old
        · exact blank c new
      unfold said?
      rw [clean_append_remark _ closed, longer.clean_eq, empty.clean_eq]
    · rw [said?_insert blank empty (.inr closed)]
      unfold said?
      rw [clean_append_remark _ closed]
  | @spaced indent word front gap back c indented named solid parted blank =>
    obtain ⟨d, letters, rfl⟩ := List.exists_cons_of_ne_nil named
    have first : Text.isBlank d = false := solid d List.mem_cons_self
    refine said?_insert blank ?_ (.inl ⟨c, ?_, parted⟩)
    · intro all
      have := all d (by simp)
      rw [first] at this
      exact absurd this (by decide)
    · -- the blank behind the first word is not dropped
      have dropped : Text.dropBlanks (indent ++ (d :: letters) ++ c :: front) =
          d :: letters ++ c :: front := by
        rw [List.append_assoc, indented.dropBlanks_append]
        exact List.dropWhile_cons_of_neg (by simp [first])
      rw [dropped]
      simp

end Statement

/-! ## §4. A text laid out anew. -/

namespace Source

/-- The number of a line after another was inserted below the given number of lines. -/
def movedDown (above : Nat) (number : Int) : Int :=
  if number ≤ above then number else number + 1

/-- **A text that is laid out anew**, in any number of steps, and the new numbers of its lines. -/
inductive Relaid : String → String → (Int → Int) → Prop where
  /-- A line is inserted that holds nothing but blanks and a comment. -/
  | inserted {text text' : String} {before after : List (List Char)} {gap remark : List Char}
      (blank : IsGap gap) (closed : IsRemark remark)
      (old : Text.lines text.toList = before ++ after)
      (new : Text.lines text'.toList = before ++ (gap ++ remark) :: after) :
      Relaid text text' (movedDown before.length)
  /-- Blanks or a comment are added to a line. -/
  | respaced {text text' : String} {before after : List (List Char)} {line line' : List Char}
      (respaced : Respaced line line') (old : Text.lines text.toList = before ++ line :: after)
      (new : Text.lines text'.toList = before ++ line' :: after) : Relaid text text' id
  /-- One step after the other. -/
  | trans {text text' text'' : String} {number number' : Int → Int}
      (first : Relaid text text' number)
      (second : Relaid text' text'' number') : Relaid text text'' (number' ∘ number)

end Source

namespace Statement

/-- Lines that are moved as a whole. -/
theorem numbered_renumber {number : Int → Int} {first first' : Nat} {lines : List (List Char)}
    (moved : ∀ i < lines.length, number (first + i : Nat) = (first' + i : Nat)) :
    (numbered first lines).map (renumber number) = numbered first' lines := by
  induction lines generalizing first first' with
  | nil => rfl
  | cons line rest ih =>
    have here : number first = first' := moved 0 (by simp)
    have later : (numbered (first + 1) rest).map (renumber number) =
        numbered (first' + 1) rest := by
      apply ih
      intro i inside
      have := moved (i + 1) (by simpa using inside)
      rwa [Nat.add_right_comm, Nat.add_assoc, Nat.add_right_comm, Nat.add_assoc]
    rw [numbered, numbered, List.map_append, later]
    cases said? line with
    | none => rfl
    | some body => simp [renumber, here]

theorem renumber_id (program : List Statement) : program.map (renumber id) = program :=
  List.map_id program

/-- A line that says nothing moves the statements below it down. -/
theorem numbered_insert {line : List Char} (nothing : said? line = none)
    (before after : List (List Char)) :
    numbered 1 (before ++ line :: after) =
      (numbered 1 (before ++ after)).map (renumber (movedDown before.length)) := by
  have above : (numbered 1 before).map (renumber (movedDown before.length)) =
      numbered 1 before := by
    apply numbered_renumber
    intro i inside
    unfold movedDown
    rw [if_pos (by omega)]
  have below : (numbered (1 + before.length) after).map (renumber (movedDown before.length)) =
      numbered (1 + before.length + 1) after := by
    apply numbered_renumber
    intro i _
    unfold movedDown
    rw [if_neg (by omega)]
    omega
  rw [numbered_append, numbered_append, numbered, nothing, List.map_append, above, below]
  rfl

/-- A line may be replaced by another that says the same. -/
theorem numbered_replace {line line' : List Char} (same : said? line' = said? line) (number : Nat)
    (before after : List (List Char)) :
    numbered number (before ++ line' :: after) = numbered number (before ++ line :: after) := by
  rw [numbered_append, numbered_append, numbered, numbered, same]

/-- **A text that is laid out anew has the same statements**, on other lines. -/
theorem ofText_relaid {text text' : String} {number : Int → Int}
    (relaid : Relaid text text' number) :
    ofText text' = (ofText text).map (renumber number) := by
  induction relaid with
  | @inserted text text' before after gap remark blank closed old new =>
    have nothing : said? (gap ++ remark) = none := by
      unfold said?
      rw [clean_append_remark gap closed, blank.clean_eq, if_pos rfl]
    unfold ofText
    rw [old, new, numbered_insert nothing]
  | @respaced text text' before after line line' respaced old new =>
    unfold ofText
    rw [old, new, renumber_id, numbered_replace (said?_respaced respaced)]
  | @trans text text' text'' number number' _ _ first second =>
    rw [second, first, List.map_map]
    rfl

end Statement

/-- A diagnostic ends a run with status 1. -/
theorem Diagnostic.ending_ne (diagnostic : Diagnostic) : diagnostic.outcome.ending ≠ .exited 0 :=
  Stop.ending_ne (.reported diagnostic)

/-- **The layout of a text does not count.**  Let a text be laid out anew: lines of blanks and
comments are inserted, or blanks and comments are added before a line, behind it or between its
operands.  Then it has the same statements, on the lines to which they were moved.  A run leaves the
same state, and it prints the same but for the number of the line in a diagnostic; if it ends with
status 0, it is the same run. -/
theorem relaid_text_runs_alike {text text' : String} {number : Int → Int}
    (relaid : Relaid text text' number) :
    ∃ program, Statement.parse (Source.lines text) = .ok program ∧
      Statement.parse (Source.lines text') = .ok (program.map (Statement.renumber number)) ∧
      ∀ s : Assembler,
        (s.run text' = s.run text ∨
          ∃ diagnostic final, s.run text = ⟨Diagnostic.outcome diagnostic, final⟩ ∧
            s.run text' = ⟨(diagnostic.renumber number).outcome, final⟩) ∧
        ((s.run text).outcome.ending = .exited 0 ∨ (s.run text').outcome.ending = .exited 0 →
          s.run text' = s.run text) := by
  have renumbered := Statement.ofText_relaid relaid
  refine ⟨Statement.ofText text, Statement.parse_lines text, ?_, fun s => ?_⟩
  · rw [Statement.parse_lines, renumbered]
  · have alike := Assembler.run_renumber renumbered s
    refine ⟨alike, fun zero => ?_⟩
    rcases alike with same | ⟨diagnostic, final, old, new⟩
    · exact same
    · rw [old, new] at zero
      rcases zero with zero | zero
      · exact absurd zero diagnostic.ending_ne
      · exact absurd zero (Diagnostic.ending_ne _)

/-- A loop, with as few characters as possible. -/
def denseSource : String :=
  "LOOP:\nMOV A,#1\nSJMP LOOP"

/-- The same loop with a comment on a line of its own, more blanks and another line ending. -/
def airySource : String :=
  "LOOP:\n  ; load\nMOV A, #1\r\nSJMP LOOP"

/-- Both print the same records. -/
theorem relaid_text_runs_alike_airy :
    ((Assembler.ofSize 8).run denseSource).outcome.ending = .exited 0 ∧
      (Assembler.ofSize 8).run airySource = (Assembler.ofSize 8).run denseSource := by
  have commented : Relaid denseSource "LOOP:\n  ; load\nMOV A,#1\nSJMP LOOP" (movedDown 1) :=
    @Relaid.inserted _ _ ["LOOP:".toList] ["MOV A,#1".toList, "SJMP LOOP".toList] "  ".toList
      "; load".toList (by decide +kernel) (by decide +kernel) (by decide +kernel)
        (by decide +kernel)
  have letters : ∀ c ∈ ['M', 'O', 'V'], Text.isBlank c = false := by
    intro c member
    simp only [List.mem_cons, List.not_mem_nil, or_false] at member
    rcases member with rfl | rfl | rfl <;> decide
  have parted : Respaced "MOV A,#1".toList "MOV A, #1".toList :=
    @Respaced.spaced [] ['M', 'O', 'V'] ['A', ','] [' '] ['#', '1'] ' ' (by decide)
      (by decide) letters
      (by decide) (by decide)
  have closed : Respaced "MOV A, #1".toList "MOV A, #1\r".toList :=
    @Respaced.trailed "MOV A, #1".toList ['\r'] [] (by decide) (by decide)
  have spaced : Relaid "LOOP:\n  ; load\nMOV A,#1\nSJMP LOOP"
      "LOOP:\n  ; load\nMOV A, #1\nSJMP LOOP" id :=
    @Relaid.respaced _ _ ["LOOP:".toList, "  ; load".toList] ["SJMP LOOP".toList] _ _ parted
      (by decide +kernel) (by decide +kernel)
  have returned : Relaid "LOOP:\n  ; load\nMOV A, #1\nSJMP LOOP" airySource id :=
    @Relaid.respaced _ _ ["LOOP:".toList, "  ; load".toList] ["SJMP LOOP".toList] _ _ closed
      (by decide +kernel) (by decide +kernel)
  obtain ⟨_, _, _, alike⟩ := relaid_text_runs_alike ((commented.trans spaced).trans returned)
  have zero : ((Assembler.ofSize 8).run denseSource).outcome.ending = .exited 0 := by decide +kernel
  exact ⟨zero, (alike (Assembler.ofSize 8)).2 (.inl zero)⟩

end Mcs51
