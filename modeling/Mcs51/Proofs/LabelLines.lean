/-
  Mcs51.Proofs.LabelLines — labels that share a line.

  A line that begins with a label defines it and says nothing else: what stands behind the colon is
  dropped, whatever it is.  So a label may share its line only with text that would have no effect
  on a line of its own.  That no other text may stand there is shown with probes, small programs in
  which a line that is heeded moves a mark or defines a label.

  Main definitions:
    * `Source.labelLine` : a label, and what stands behind it;
    * `Body.RefusedBehind` : the lines that no program has below a label;
    * `Layout.probe` : the program that tests a line.

  Main statements:
    * `Statement.said?_labelLine` : a line that defines a label says nothing else;
    * `Statement.spells_of_said?` : all other lines are read whole;
    * `label_line_splits_iff` : when a label may share its line.
-/
import Mcs51.Proofs.SourceLayout
import Mcs51.Proofs.TextLayout

namespace Mcs51

/-! ## §1. Lines that define labels. -/

namespace Source

/-- A line that defines a label, with what stands behind the colon. -/
def labelLine (name rest : List Char) : List Char :=
  name ++ ':' :: rest

/-- The text with these lines. -/
def ofLines (lines : List (List Char)) : String :=
  String.ofList (['\n'].intercalate lines)

theorem lines_ofLines {lines : List (List Char)} (nonempty : lines ≠ [])
    (plain : ∀ line ∈ lines, '\n' ∉ line) : Text.lines (ofLines lines).toList = lines := by
  unfold Text.lines ofLines
  rw [String.toList_ofList]
  exact List.splitOn_intercalate '\n' plain nonempty

/-- Nothing of a label is dropped. -/
theorem clean_labelLine {name : List Char} (word : ∀ c ∈ name, Text.isWordChar c = true)
    (rest : List Char) :
    clean (labelLine name rest) = labelLine name (rest.takeWhile (· != ';')) := by
  have undropped : Text.dropBlanks (labelLine name rest) = labelLine name rest := by
    unfold Text.dropBlanks labelLine
    cases name with
    | nil => exact List.dropWhile_cons_of_neg (by decide)
    | cons c letters =>
      have solid := Text.isBlank_of_isWordChar (word c List.mem_cons_self)
      exact List.dropWhile_cons_of_neg (by simp [solid])
  have no_comment : ∀ c ∈ name, (c != ';') = true := by
    intro c member
    have other : c ≠ ';' := by
      rintro rfl
      exact absurd (word ';' member) (by decide)
    simpa using other
  unfold clean
  rw [undropped]
  unfold labelLine
  rw [List.takeWhile_append_of_pos no_comment, List.takeWhile_cons_of_pos (by decide)]

end Source

open Source

/-- Does the line hold no more than this, apart from blanks and the case of letters?  Only behind a
label there may be more. -/
def Body.Spells : Body → List Char → Prop
  | .label name, line => ∃ more, line = labelLine name.toList more
  | .operation mnemonic operands, line =>
    mnemonic.toList ++ [','].intercalate (operands.map String.toList) = Text.upper (Text.solid line)

namespace Statement

/-- **A line that defines a label says nothing else**, whatever stands behind the colon. -/
theorem said?_labelLine {name : List Char} (word : ∀ c ∈ name, Text.isWordChar c = true)
    (rest : List Char) : said? (labelLine name rest) = some (.label (String.ofList name)) := by
  have captured : Shape.label.capture? (labelLine name (rest.takeWhile (· != ';'))) = some name :=
    Shape.capture?_label_iff.2 ⟨word, _, rfl⟩
  have nonempty : labelLine name (rest.takeWhile (· != ';')) ≠ [] := by simp [labelLine]
  rw [Shape.capture?_label_firstWord] at captured
  unfold said? Body.ofWords
  rw [clean_labelLine word, if_neg nonempty, captured]

/-- Other lines are read whole: an operation and its operands hold all the characters of their line
but the blanks, in capitals. -/
theorem spells_of_said? {line : List Char} {body : Body} (reads : said? line = some body) :
    body.Spells (clean line) := by
  unfold said? at reads
  split at reads
  · exact absurd reads (by simp)
  next nonempty =>
    obtain rfl := Option.some.inj reads
    unfold Body.ofWords
    split
    next name captured =>
      rw [← Shape.capture?_label_firstWord] at captured
      obtain ⟨_, more, line_eq⟩ := Shape.capture?_label_iff.1 captured
      exact ⟨more, by rw [line_eq, String.toList_ofList]; rfl⟩
    next =>
      obtain ⟨others, _, solid_eq⟩ := Text.exists_words (firstWord_clean_ne_nil nonempty)
      unfold operandsOf Text.fields
      rw [Body.Spells, List.map_map, ← solid_eq, List.drop_left]
      have joined := @List.intercalate_splitOn _ (Text.upper others.flatten) _ _ ','
      simp only [List.flatten_singleton, Function.comp_def, String.toList_ofList, List.map_id',
        Text.upper_append]
      exact congrArg _ joined

theorem bodies_numbered (number : Nat) (lines : List (List Char)) :
    bodies (numbered number lines) = lines.filterMap said? := by
  induction lines generalizing number with
  | nil => rfl
  | cons line rest ih =>
    have head : bodies ((said? line).map (Statement.mk number)).toList = (said? line).toList := by
      cases said? line <;> rfl
    unfold bodies at head ih ⊢
    rw [numbered, List.map_append, ih, head, List.filterMap_cons]
    cases said? line <;> rfl

theorem bodies_ofText (text : String) :
    bodies (ofText text) = (Text.lines text.toList).filterMap said? :=
  bodies_numbered 1 _

end Statement

/-! ## §2. What stands behind a label is dropped. -/

/-- Is the line refused behind the definition of a label, wherever both stand?  It defines the label
again, or it is an operation that is not understood. -/
def Body.RefusedBehind (name : String) (body : Body) : Prop :=
  body = .label name ∨ body.isEnd = false ∧ ¬body.Understood

section Split

variable {name rest : List Char} {before after : List (List Char)} {text split : String}

/-- A text is read in the same way without what stands behind a label. -/
theorem Statement.ofText_of_labelLine (word : ∀ c ∈ name, Text.isWordChar c = true)
    {other : List Char}
    (old : Text.lines text.toList = before ++ labelLine name rest :: after)
    (new : Text.lines split.toList = before ++ labelLine name other :: after) :
    ofText split = ofText text := by
  unfold ofText
  rw [old, new]
  refine numbered_replace ?_ 1 before after
  rw [said?_labelLine word, said?_labelLine word]

/-- The lines behind an end directive are not placed. -/
theorem Assembler.assemble_numbered_of_end {before : List (List Char)}
    (ends : ∃ body ∈ before.filterMap Statement.said?, body.isEnd = true)
    (lines others : List (List Char)) :
    assemble (Statement.numbered 1 (before ++ lines)) =
      assemble (Statement.numbered 1 (before ++ others)) := by
  obtain ⟨body, member, ends⟩ := ends
  rw [← Statement.bodies_numbered 1] at member
  obtain ⟨ending, among, rfl⟩ := List.mem_map.1 member
  obtain ⟨earlier, later, split⟩ := List.append_of_mem among
  have cut : ∀ more, process (earlier ++ ending :: later ++ more) =
      process (earlier ++ [ending]) := by
    intro more
    rw [List.append_assoc]
    exact process_of_isEnd ends earlier (later ++ more)
  unfold assemble
  rw [Statement.numbered_append, Statement.numbered_append, split, cut, cut]

/-- A program that is placed has no line that is refused behind a label, unless it ends before. -/
theorem Layout.not_refusedBehind {size : Nat} {program : List Statement} {s : Assembler}
    (assembled : Assembler.assemble program (Assembler.ofSize size) = .ok () s)
    {earlier later : List Body} {name : String} {body : Body}
    (lines : Statement.bodies program = earlier ++ .label name :: body :: later)
    (running : ∀ other ∈ earlier, other.isEnd = false) : ¬body.RefusedBehind name := by
  have leaves := leaves_of_assemble assembled
  have understood := accepted_iff.1 leaves.accepted
  have distinct := (leaves.laidOut (distinct_of_assemble assembled)).distinct
  have reached : beforeEnd (Statement.bodies program) =
      earlier ++ .label name :: beforeEnd (body :: later) := by
    unfold beforeEnd
    rw [lines, List.takeWhile_append_of_pos (by simpa using running)]
    rfl
  rw [reached] at understood distinct
  rintro (rfl | ⟨goes_on, refused⟩)
  · -- the label would be defined twice
    have twice : beforeEnd (Body.label name :: later) = .label name :: beforeEnd later := rfl
    rw [twice, List.filterMap_append] at distinct
    exact absurd (List.nodup_append.1 distinct).2.1 (by simp [Body.label?])
  · have here : beforeEnd (body :: later) = body :: beforeEnd later :=
      List.takeWhile_cons_of_pos (by simp [goes_on])
    exact refused (understood body (by simp [here]))

/-- **A line that says nothing, or that is refused anyway, may stand behind a label or below
it.** -/
theorem Assembler.build_split_eq {size : Nat} {s t : Assembler}
    (word : ∀ c ∈ name, Text.isWordChar c = true)
    (refused : ∀ body, Statement.said? rest = some body → body.RefusedBehind (String.ofList name))
    (old : Text.lines text.toList = before ++ labelLine name rest :: after)
    (new : Text.lines split.toList = before ++ labelLine name [] :: rest :: after)
    (built : build text (ofSize size) = .ok () s) (built' : build split (ofSize size) = .ok () t) :
    s = t := by
  have same : Statement.said? (labelLine name []) = Statement.said? (labelLine name rest) := by
    rw [Statement.said?_labelLine word, Statement.said?_labelLine word]
  cases meaning : Statement.said? rest with
  | none =>
    -- the line below the label only moves the others down
    have renumbered : Statement.ofText split =
        (Statement.ofText text).map (Statement.renumber (movedDown (before.length + 1))) := by
      have inserted := Statement.numbered_insert meaning (before ++ [labelLine name []]) after
      rw [List.append_assoc, List.append_assoc, List.length_append] at inserted
      unfold Statement.ofText
      rw [old, new, ← Statement.numbered_replace same]
      exact inserted
    have again := build_renumber renumbered built
    rw [built'] at again
    exact (EStateM.Result.ok.inj again).2.symm
  | some body =>
    by_cases ends : ∃ other ∈ before.filterMap Statement.said?, other.isEnd = true
    · have placed : assemble (Statement.ofText split) (ofSize size) =
          assemble (Statement.ofText text) (ofSize size) := by
        unfold Statement.ofText
        rw [old, new, assemble_numbered_of_end ends]
      rw [build_eq_of_assemble_eq placed, built] at built'
      exact (EStateM.Result.ok.inj built').2
    · -- then the line below the label is reached, and the program is not placed
      obtain ⟨program, placed, parsed, assembled, _⟩ := build_eq_ok built'
      obtain rfl := Except.ok.inj ((Statement.parse_lines split).symm.trans parsed)
      have lines : Statement.bodies (Statement.ofText split) =
          before.filterMap Statement.said? ++
            .label (String.ofList name) :: body :: after.filterMap Statement.said? := by
        rw [Statement.bodies_ofText, new, List.filterMap_append, List.filterMap_cons,
            Statement.said?_labelLine word, List.filterMap_cons, meaning]
      have running : ∀ other ∈ before.filterMap Statement.said?, other.isEnd = false := by
        intro other member
        by_contra last
        exact ends ⟨other, member, by simpa using last⟩
      exact absurd (refused body meaning) (Layout.not_refusedBehind assembled lines running)

end Split

/-! ## §3. Programs that are built. -/

/-- Are these the labels of a table, with their addresses? -/
def LabelTable.Lists (table : LabelTable) (entries : List (String × Nat)) : Prop :=
  ∀ label address, table.find? label = some address ↔ ∃ n : Nat, (label, n) ∈ entries ∧ address = n

namespace Layout

/-- A cell was written by a placement, or it was there before. -/
theorem mem_writeAll {memory : Memory} {ps : List Placement}
    (fits : ∀ p ∈ ps, p.stop ≤ memory.cells.size)
    {cell : Int} (member : cell ∈ (writeAll memory ps).cells) :
    cell ∈ memory.cells ∨ ∃ p ∈ ps, cell ∈ p.stored := by
  induction ps generalizing memory with
  | nil => exact .inl member
  | cons p rest ih =>
    have fits_rest : ∀ q ∈ rest, q.stop ≤ (memory.write p.address p.stored).cells.size := by
      intro q later
      rw [Memory.size_write]
      exact fits q (List.mem_cons_of_mem p later)
    rcases ih fits_rest member with before | ⟨q, later, among⟩
    · obtain ⟨i, found⟩ := Array.mem_iff_getElem?.1 before
      rw [getElem?_write_placement (fits p List.mem_cons_self)] at found
      split at found
      · exact .inr ⟨p, List.mem_cons_self, List.mem_of_getElem? found⟩
      · exact .inl (Array.mem_of_getElem? found)
    · exact .inr ⟨q, List.mem_cons_of_mem p later, among⟩

/-- Instructions without placeholders leave none. -/
theorem quiet_of_plain {size : Nat} {ps : List Placement} (fits : ∀ p ∈ ps, p.stop ≤ size)
    (plain : ∀ p ∈ ps, (placeholder : Int) ∉ p.stored) :
    ∀ cell ∈ (writeAll (Memory.blank size) ps).cells.toList, cell ≠ (placeholder : Int) := by
  have size_blank : (Memory.blank size).cells.size = size := by simp [Memory.blank]
  rintro cell member rfl
  rcases mem_writeAll (by rwa [size_blank]) (Array.mem_toList_iff.1 member) with
    before | ⟨p, among, stored⟩
  · exact absurd (Array.mem_replicate.1 before).2 (by decide)
  · exact plain p among stored

/-- **A program that leaves no placeholder is built**, with the labels that its lines define. -/
theorem exists_build_of_quiet {size : Nat} (reachable : size ≤ Memory.maxAddress) {text : String}
    {lines : List Body} (read : Statement.bodies (Statement.ofText text) = lines)
    (accepted : Accepted lines) (fits : ∀ p ∈ placements lines, p.stop ≤ size)
    (distinct : ((definitions lines).map Prod.fst).Nodup)
    (quiet : ∀ cell ∈ (writeAll (Memory.blank size) (placements lines)).cells.toList,
      cell ≠ (placeholder : Int)) :
    ∃ t, Assembler.build text (Assembler.ofSize size) = .ok () t ∧
      t.memory = writeAll (Memory.blank size) (placements lines) ∧
      t.labels.Lists (definitions lines) := by
  subst read
  obtain ⟨s, assembled⟩ := assemble_of_accepted reachable accepted fits distinct
  have leaves := leaves_of_assemble assembled
  rw [← leaves.memory] at quiet
  have scanned : Linking.scan 0 s.memory.cells.toList ⟨#[], s.labels, s.references⟩ =
      .ok () (Linking.keep ⟨#[], s.labels, s.references⟩ s.memory.cells.toList) := by
    have kept := Linking.scan_keep quiet [] ⟨#[], s.labels, s.references⟩
    rw [List.append_nil] at kept
    exact kept
  refine ⟨s.withLinking (Linking.keep ⟨#[], s.labels, s.references⟩ s.memory.cells.toList), ?_,
    ?_, leaves.labels⟩
  · rw [Assembler.build_eq_link (Statement.parse_lines text) assembled]
    unfold Assembler.link
    rw [scanned]
  · rw [← leaves.memory]
    simp [Assembler.withLinking, Linking.keep]

end Layout

/-! ## §4. Programs that tell lines apart. -/

namespace Layout

/-- The code of the instruction that does nothing. -/
def idle : Encoding :=
  ⟨[0x01], none, false⟩

/-- Instructions that do nothing, in the first four cells. -/
def blanket : List Placement :=
  [⟨0, "NOP", idle⟩, ⟨1, "NOP", idle⟩, ⟨2, "NOP", idle⟩, ⟨3, "NOP", idle⟩]

theorem covers_blanket {i : Nat} : (∃ p ∈ blanket, p.Covers i) ↔ i < 4 := by
  simp only [blanket, List.mem_cons, List.not_mem_nil, or_false, exists_eq_or_imp, exists_eq_left,
    Placement.Covers, Placement.stop, idle, List.length_singleton]
  omega

theorem stop_of_mem_blanket {p : Placement} (member : p ∈ blanket) : p.stop ≤ 4 := by
  simp only [blanket, List.mem_cons, List.not_mem_nil, or_false] at member
  rcases member with rfl | rfl | rfl | rfl <;> decide

/-- Whatever was written into the first four cells, no placeholder is left when they are covered. -/
theorem quiet_of_blanket {size : Nat} (large : 4 ≤ size) {ps : List Placement}
    (low : ∀ p ∈ ps, p.stop ≤ 4) :
    ∀ cell ∈ (writeAll (Memory.blank size) (ps ++ blanket)).cells.toList,
      cell ≠ (placeholder : Int) := by
  have low_all : ∀ p ∈ ps ++ blanket, p.stop ≤ 4 := by
    intro p member
    rcases List.mem_append.1 member with first | second
    · exact low p first
    · exact stop_of_mem_blanket second
  have size_blank : (Memory.blank size).cells.size = size := by simp [Memory.blank]
  intro cell member
  obtain ⟨i, found⟩ := List.mem_iff_getElem?.1 member
  rw [Array.getElem?_toList] at found
  by_cases covered : i < 4
  · obtain ⟨p, among, covers⟩ := covers_blanket.2 covered
    have later : (writeAll (Memory.blank size) (ps ++ blanket)).cells[i]? =
        p.stored[i - p.address]? := by
      unfold writeAll
      rw [List.foldl_append]
      refine getElem?_writeAll_of_mem ?_ (by decide) among covers
      intro q others
      rw [← writeAll, size_writeAll, size_blank]
      exact (stop_of_mem_blanket others).trans large
    have stored : p.stored = [1] := by
      simp only [blanket, List.mem_cons, List.not_mem_nil, or_false] at among
      rcases among with rfl | rfl | rfl | rfl <;> rfl
    rw [later, stored] at found
    obtain rfl := List.mem_singleton.1 (List.mem_of_getElem? found)
    decide
  · have uncovered : ∀ p ∈ ps ++ blanket, ¬p.Covers i := by
      intro p among covers
      exact covered (covers.2.trans_le (low_all p among))
    rw [getElem?_writeAll_of_uncovered (fun p among => by
      rw [size_blank]
      exact (low_all p among).trans large) uncovered] at found
    have erased := Array.mem_of_getElem? found
    obtain ⟨_, rfl⟩ := Array.mem_replicate.1 erased
    decide

/-- The lines of a probe: behind what is tested they define a mark, and then they cover the first
four cells. -/
def probe (origin : Nat) (name mark : String) (tested : List Body) : List Body :=
  .operation "ORG" [String.singleton origin.digitChar] :: .label name ::
    (tested ++ .label mark :: .operation "ORG" ["0"] :: List.replicate 4 (.operation "NOP" [""]))

section Probe

variable {origin : Nat} {name mark : String} {tested : List Body}

/-- What the lines behind the tested ones do. -/
theorem actions_behind_tested (mark : String) :
    actions (.label mark :: .operation "ORG" ["0"] :: List.replicate 4 (.operation "NOP" [""])) =
      .define mark :: .goTo 0 :: List.replicate 4 (.emit "NOP" idle) := by
  rw [actions_cons rfl rfl]
  exact congrArg _ (by decide +kernel)

theorem action?_start (small : origin < 2) :
    (Body.operation "ORG" [String.singleton origin.digitChar]).action? = some (.goTo origin) := by
  have both : ∀ n < 2, (Body.operation "ORG" [String.singleton n.digitChar]).action? =
      some (.goTo n) := by decide +kernel
  exact both origin small

theorem actions_probe (small : origin < 2) (running : ∀ body ∈ tested, body.isEnd = false) :
    actions (probe origin name mark tested) = .goTo origin :: .define name ::
      (actions tested ++ .define mark :: .goTo 0 :: List.replicate 4 (.emit "NOP" idle)) := by
  unfold probe
  rw [actions_cons rfl (action?_start small), actions_cons rfl rfl, actions_append running,
      actions_behind_tested]

theorem timeline_probe (small : origin < 2) (running : ∀ body ∈ tested, body.isEnd = false) :
    timeline (probe origin name mark tested) = (0, .goTo origin) :: (origin, .define name) ::
      (timelineFrom origin (actions tested) ++
        (counterAfter origin (actions tested), .define mark) ::
        (counterAfter origin (actions tested), .goTo 0) ::
        blanket.map fun p => (p.address, .emit p.mnemonic p.encoding)) := by
  unfold timeline
  rw [actions_probe small running, timelineFrom, timelineFrom, timelineFrom_append]
  rfl

theorem placements_probe (small : origin < 2) (running : ∀ body ∈ tested, body.isEnd = false) :
    placements (probe origin name mark tested) =
      (timelineFrom origin (actions tested)).filterMap placed? ++ blanket := by
  unfold placements
  rw [timeline_probe small running, List.filterMap_cons_none rfl, List.filterMap_cons_none rfl,
      List.filterMap_append]
  rfl

theorem definitions_probe (small : origin < 2) (running : ∀ body ∈ tested, body.isEnd = false) :
    definitions (probe origin name mark tested) =
      (name, origin) :: ((timelineFrom origin (actions tested)).filterMap defined? ++
        [(mark, counterAfter origin (actions tested))]) := by
  have named : defined? (origin, .define name) = some (name, origin) := rfl
  unfold definitions
  rw [timeline_probe small running, List.filterMap_cons_none rfl, List.filterMap_cons_some named,
      List.filterMap_append]
  rfl

theorem accepted_probe (small : origin < 2) (running : ∀ body ∈ tested, body.isEnd = false)
    (understood : ∀ body ∈ tested, body.Understood) : Accepted (probe origin name mark tested) := by
  have ends : Accepted (.operation "ORG" ["0"] :: List.replicate 4 (.operation "NOP" [""])) := by
    decide +kernel
  have accepted : Accepted tested := fun body member =>
    (Body.action?_isSome_iff body).2 (understood body ((List.takeWhile_sublist _).subset member))
  unfold probe
  rw [accepted_cons rfl, accepted_cons rfl, accepted_append running, accepted_cons rfl,
      action?_start small]
  exact ⟨rfl, rfl, accepted, rfl, ends⟩

/-- **A probe is built** if the tested lines write into the first four cells only and define no
label a second time. -/
theorem exists_build_probe {size : Nat} (large : 4 ≤ size) (reachable : size ≤ Memory.maxAddress)
    {text : String} (small : origin < 2)
    (read : Statement.bodies (Statement.ofText text) = probe origin name mark tested)
    (running : ∀ body ∈ tested, body.isEnd = false) (understood : ∀ body ∈ tested, body.Understood)
    (low : ∀ p ∈ (timelineFrom origin (actions tested)).filterMap placed?, p.stop ≤ 4)
    (distinct : ((definitions (probe origin name mark tested)).map Prod.fst).Nodup) :
    ∃ t, Assembler.build text (Assembler.ofSize size) = .ok () t ∧
      t.labels.Lists (definitions (probe origin name mark tested)) := by
  have built := exists_build_of_quiet reachable read (accepted_probe small running understood) ?_
    distinct ?_
  · obtain ⟨t, builds, _, labels⟩ := built
    exact ⟨t, builds, labels⟩
  · rw [placements_probe small running]
    intro p member
    rcases List.mem_append.1 member with first | second
    · exact (low p first).trans large
    · exact (stop_of_mem_blanket second).trans large
  · rw [placements_probe small running]
    exact quiet_of_blanket large low

end Probe

end Layout

namespace Source

/-- The first line of a probe. -/
def probeHead (origin : Nat) : List Char :=
  ['O', 'R', 'G', ' ', origin.digitChar]

/-- The lines of a probe behind those that are tested. -/
def probeTail (mark : List Char) : List (List Char) :=
  labelLine mark [] :: "ORG 0".toList :: List.replicate 4 "NOP".toList

theorem no_newline_of_word {name : List Char} (word : ∀ c ∈ name, Text.isWordChar c = true) :
    '\n' ∉ name :=
  fun member => absurd (word '\n' member) (by decide)

theorem no_newline_labelLine {name rest : List Char} (word : ∀ c ∈ name, Text.isWordChar c = true)
    (plain : '\n' ∉ rest) : '\n' ∉ labelLine name rest := by
  simp [labelLine, no_newline_of_word word, plain]

/-- There is a text of a probe, whatever is tested. -/
theorem exists_probe {origin : Nat} (small : origin < 2) {name mark other : List Char}
    (word : ∀ c ∈ name, Text.isWordChar c = true) (marked : ∀ c ∈ mark, Text.isWordChar c = true)
    (plain : '\n' ∉ other) {tested : List (List Char)} (plain' : ∀ line ∈ tested, '\n' ∉ line) :
    ∃ text : String, Text.lines text.toList =
        [probeHead origin] ++ labelLine name other :: (tested ++ probeTail mark) ∧
      Statement.bodies (Statement.ofText text) = Layout.probe origin (String.ofList name)
        (String.ofList mark) (tested.filterMap Statement.said?) := by
  have head : ∀ n < 2, '\n' ∉ probeHead n ∧ Statement.said? (probeHead n) =
      some (.operation "ORG" [String.singleton n.digitChar]) := by decide +kernel
  have tail : ∀ line ∈ "ORG 0".toList :: List.replicate 4 "NOP".toList, '\n' ∉ line := by
    decide +kernel
  have said_tail : ("ORG 0".toList :: List.replicate 4 "NOP".toList).filterMap Statement.said? =
      .operation "ORG" ["0"] :: List.replicate 4 (.operation "NOP" [""]) := by decide +kernel
  have lines : Text.lines (ofLines ([probeHead origin] ++ labelLine name other ::
      (tested ++ probeTail mark))).toList =
        [probeHead origin] ++ labelLine name other :: (tested ++ probeTail mark) := by
    refine lines_ofLines (by simp) fun line member => ?_
    rcases List.mem_cons.1 member with rfl | member
    · exact (head origin small).1
    rcases List.mem_cons.1 member with rfl | member
    · exact no_newline_labelLine word plain
    rcases List.mem_append.1 member with member | member
    · exact plain' line member
    rcases List.mem_cons.1 member with rfl | member
    · exact no_newline_labelLine marked (by simp)
    · exact tail line member
  refine ⟨_, lines, ?_⟩
  rw [Statement.bodies_ofText, lines]
  unfold probeTail Layout.probe
  rw [List.singleton_append, List.filterMap_cons_some (head origin small).2,
      List.filterMap_cons_some (Statement.said?_labelLine word other), List.filterMap_append,
      List.filterMap_cons_some (Statement.said?_labelLine marked []), said_tail]

end Source

/-- There is a word that is neither of two names. -/
theorem exists_mark (name other : String) : ∃ mark : List Char,
    (∀ c ∈ mark, Text.isWordChar c = true) ∧ String.ofList mark ≠ name ∧
      String.ofList mark ≠ other := by
  -- it is longer than both
  have longer : ∀ text : String, text.length ≤ name.length + other.length →
      String.ofList (List.replicate (name.length + other.length + 1) 'A') ≠ text := by
    intro text short same
    have length_eq := congrArg String.length same
    rw [String.length_ofList, List.length_replicate] at length_eq
    omega
  refine ⟨_, ?_, longer name (by omega), longer other (by omega)⟩
  intro c member
  rw [List.eq_of_mem_replicate member]
  decide

namespace Layout

section Heeded

variable {size : Nat} {name rest mark : List Char} {origin : Nat} {body : Body}

/-- Without a tested line the mark stands at the origin. -/
theorem definitions_probe_nil (small : origin < 2) (name mark : String) :
    definitions (probe origin name mark []) = [(name, origin), (mark, origin)] :=
  definitions_probe small (List.forall_mem_nil _)

/-- A tested line moves the mark, or it defines a label itself. -/
theorem definitions_probe_singleton (small : origin < 2) (running : body.isEnd = false)
    {action : Action} (performed : body.action? = some action) (name mark : String) :
    definitions (probe origin name mark [body]) =
      (name, origin) :: ((defined? (origin, action)).toList ++ [(mark, action.next origin)]) := by
  have one : actions [body] = [action] := actions_cons running performed []
  rw [definitions_probe small (by simpa using running), one]
  cases action <;> rfl

/-- Behind an end directive no mark is defined. -/
theorem definitions_probe_end (small : origin < 2) (ends : body.isEnd = true) (name mark : String) :
    definitions (probe origin name mark [body]) = [(name, origin)] ∧
      placements (probe origin name mark [body]) = [] := by
  have all : actions (probe origin name mark [body]) = [.goTo origin, .define name] := by
    unfold probe
    rw [actions_cons rfl (action?_start small), actions_cons rfl rfl]
    exact congrArg _ (congrArg _ (actions_cons_of_isEnd ends _))
  unfold definitions placements timeline
  rw [all]
  exact ⟨rfl, rfl⟩

/-- A tested line that is understood is built, if it stays in the first four cells and defines no
label a second time. -/
theorem exists_build_tested {name mark : String} (large : 4 ≤ size)
    (reachable : size ≤ Memory.maxAddress) (small : origin < 2) (running : body.isEnd = false)
    {action : Action} (performed : body.action? = some action)
    (low : ∀ p, placed? (origin, action) = some p → p.stop ≤ 4) (other : mark ≠ name)
    (fresh : ∀ entry, defined? (origin, action) = some entry → entry.1 ≠ name ∧ entry.1 ≠ mark)
    {split : String}
    (read : Statement.bodies (Statement.ofText split) = probe origin name mark [body]) :
    ∃ t, Assembler.build split (Assembler.ofSize size) = .ok () t ∧
      t.labels.Lists ((name, origin) ::
        ((defined? (origin, action)).toList ++ [(mark, action.next origin)])) := by
  have one : actions [body] = [action] := actions_cons running performed []
  have defined := definitions_probe_singleton small running performed name mark
  have built := exists_build_probe large reachable small read (by simpa using running) ?_ ?_ ?_
  · rwa [defined] at built
  · intro line member
    rw [List.mem_singleton.1 member]
    exact (Body.action?_isSome_iff body).1 (by rw [performed]; rfl)
  · rw [one]
    intro p member
    obtain ⟨moment, among, placed⟩ := List.mem_filterMap.1 member
    rw [List.mem_singleton.1 among] at placed
    exact low p placed
  · rw [defined]
    cases entry : defined? (origin, action) with
    | none => simpa using other.symm
    | some entry' =>
      have away := fresh entry' entry
      simp [away.1.symm, away.2, other.symm]

/-- Behind an end directive a probe is built all the same. -/
theorem exists_build_end {name mark : String} (reachable : size ≤ Memory.maxAddress)
    (small : origin < 2) (ends : body.isEnd = true) {split : String}
    (read : Statement.bodies (Statement.ofText split) = probe origin name mark [body]) :
    ∃ t, Assembler.build split (Assembler.ofSize size) = .ok () t ∧
      t.labels.Lists [(name, origin)] := by
  obtain ⟨defined, placed⟩ := definitions_probe_end small ends name mark
  have built := exists_build_of_quiet reachable read ?_ ?_ ?_ ?_
  · obtain ⟨t, builds, _, labels⟩ := built
    rw [defined] at labels
    exact ⟨t, builds, labels⟩
  · unfold probe
    rw [accepted_cons rfl, accepted_cons rfl, action?_start small]
    exact ⟨rfl, rfl, accepted_cons_of_isEnd ends _⟩
  · rw [placed]
    exact List.forall_mem_nil _
  · rw [defined]
    exact List.nodup_singleton _
  · rw [placed]
    exact quiet_of_plain (List.forall_mem_nil _) (List.forall_mem_nil _)

/-- Does a probe tell that the line was heeded?  It is built, and the labels at the origin are not
just the first one and the mark. -/
def Tells (size origin : Nat) (name mark : String) (body : Body) : Prop :=
  ∀ split, Statement.bodies (Statement.ofText split) = probe origin name mark [body] →
    ∃ t label, Assembler.build split (Assembler.ofSize size) = .ok () t ∧
      ¬(t.labels.find? label = some ↑origin ↔ label = name ∨ label = mark)

/-- Behind an end directive there is no mark. -/
theorem tells_of_end {name mark : String} (reachable : size ≤ Memory.maxAddress)
    (small : origin < 2)
    (other : mark ≠ name) (ends : body.isEnd = true) : Tells size origin name mark body := by
  intro split read
  obtain ⟨t, built, labels⟩ := exists_build_end reachable small ends read
  refine ⟨t, mark, built, ?_⟩
  rw [labels mark]
  simp [other]

/-- A label is defined that is neither the first one nor the mark. -/
theorem tells_of_label {name mark again : String} (large : 4 ≤ size)
    (reachable : size ≤ Memory.maxAddress) (small : origin < 2) (other : mark ≠ name)
    (not_name : again ≠ name) (not_mark : again ≠ mark) :
    Tells size origin name mark (.label again) := by
  intro split read
  have low : ∀ p, placed? (origin, .define again) = some p → p.stop ≤ 4 := by simp [placed?]
  have fresh : ∀ entry, defined? (origin, .define again) = some entry →
      entry.1 ≠ name ∧ entry.1 ≠ mark := by simp [defined?, not_name, not_mark]
  obtain ⟨t, built, labels⟩ :=
    exists_build_tested large reachable small rfl rfl low other fresh read
  refine ⟨t, again, built, ?_⟩
  rw [labels again]
  simp [defined?, not_name, not_mark]

/-- A line that moves the counter moves the mark. -/
theorem tells_of_moved {name mark : String} (large : 4 ≤ size)
    (reachable : size ≤ Memory.maxAddress)
    (small : origin < 2) (other : mark ≠ name) (running : body.isEnd = false) {action : Action}
    (performed : body.action? = some action) (moves : action.next origin ≠ origin)
    (low : ∀ p, placed? (origin, action) = some p → p.stop ≤ 4) :
    Tells size origin name mark body := by
  intro split read
  have unnamed : defined? (origin, action) = none := by
    cases action with
    | define label => exact absurd rfl moves
    | goTo address => rfl
    | emit mnemonic encoding => rfl
  obtain ⟨t, built, labels⟩ :=
    exists_build_tested large reachable small running performed low other (by simp [unnamed]) read
  refine ⟨t, mark, built, ?_⟩
  rw [labels mark]
  have away : ¬(origin : Int) = (action.next origin : Nat) := by omega
  simpa [unnamed, other] using away

/-- **A line that is heeded below a label can be told.** -/
theorem exists_tells {name mark : String} (large : 4 ≤ size) (reachable : size ≤ Memory.maxAddress)
    (heeded : ¬body.RefusedBehind name) (other : mark ≠ name) (other' : body ≠ .label mark) :
    ∃ origin < 2, Tells size origin name mark body := by
  obtain ⟨not_again, heeded⟩ := not_or.1 heeded
  by_cases ends : body.isEnd = true
  · exact ⟨0, by decide, tells_of_end reachable (by decide) other ends⟩
  have running : body.isEnd = false := by simpa using ends
  have understood : body.Understood := by_contra fun refused => heeded ⟨running, refused⟩
  obtain ⟨action, performed⟩ :=
    Option.isSome_iff_exists.1 ((Body.action?_isSome_iff body).2 understood)
  cases Body.reads_of_action? performed with
  | label again =>
    refine ⟨0, by decide, tells_of_label large reachable (by decide) other ?_ ?_⟩
    · exact fun same => not_again (congrArg Body.label same)
    · exact fun same => other' (congrArg Body.label same)
  | @origin operands address reached =>
    -- the probe begins at another address than the line goes to
    obtain ⟨origin, small, moves⟩ : ∃ origin < 2, address ≠ origin := by
      by_cases zero : address = 0
      · exact ⟨1, by decide, by omega⟩
      · exact ⟨0, by decide, zero⟩
    exact ⟨origin, small, tells_of_moved large reachable small other running performed moves
      (by simp [placed?])⟩
  | @instruction mnemonic operands encoding not_origin encoded =>
    have length := Body.length_of_encoding? encoded
    have moves : 0 + encoding.cells.length ≠ 0 := by omega
    have low : ∀ p, placed? (0, .emit mnemonic encoding) = some p → p.stop ≤ 4 := by
      intro p placed
      obtain rfl := Option.some.inj placed
      show 0 + encoding.cells.length ≤ 4
      omega
    exact ⟨0, by decide, tells_of_moved large reachable (by decide) other running performed
      moves low⟩

/-- **Some program shows that a line is heeded**: it is built with the line behind a label and with
the line below it, and some label is not at the same address. -/
theorem exists_split_ne (large : 4 ≤ size) (reachable : size ≤ Memory.maxAddress)
    (word : ∀ c ∈ name, Text.isWordChar c = true) (plain : '\n' ∉ rest)
    (meaning : Statement.said? rest = some body)
    (heeded : ¬body.RefusedBehind (String.ofList name)) :
    ∃ (before after : List (List Char)) (text split : String) (s t : Assembler) (label : String),
      Text.lines text.toList = before ++ labelLine name rest :: after ∧
      Text.lines split.toList = before ++ labelLine name [] :: rest :: after ∧
      Assembler.build text (Assembler.ofSize size) = .ok () s ∧
      Assembler.build split (Assembler.ofSize size) = .ok () t ∧
      s.labels.find? label ≠ t.labels.find? label := by
  obtain ⟨mark, marked, not_name, not_label⟩ :=
    exists_mark (String.ofList name) (body.label?.getD "")
  have other : body ≠ .label (String.ofList mark) := by
    rintro rfl
    exact not_label rfl
  obtain ⟨origin, small, tells⟩ := exists_tells large reachable heeded not_name other
  obtain ⟨text, old, read⟩ := @exists_probe origin small name mark rest word marked plain []
    (List.forall_mem_nil _)
  obtain ⟨split, new, read'⟩ := @exists_probe origin small name mark [] word marked List.not_mem_nil
    [rest] (by simpa using plain)
  rw [List.filterMap_cons_some meaning] at read'
  obtain ⟨t, label, built', differs⟩ := tells split read'
  obtain ⟨s, built, labels⟩ := exists_build_probe large reachable small read
    (List.forall_mem_nil _) (List.forall_mem_nil _) (List.forall_mem_nil _) (by
      rw [List.filterMap_nil, definitions_probe_nil small]
      simpa using not_name.symm)
  refine ⟨_, _, text, split, s, t, label, old, new, built, built', fun same => differs ?_⟩
  rw [← same, labels label, List.filterMap_nil, definitions_probe_nil small]
  simp [or_and_right, exists_or]

end Heeded

end Layout

/-! ## §5. Labels that share a line. -/

/-- Two states with the same program: the same cells, labels and references. -/
structure Assembler.SameProgram (s t : Assembler) : Prop where
  memory : s.memory = t.memory
  labels : ∀ label, s.labels.find? label = t.labels.find? label
  references : s.references = t.references

/-- **A label may share its line only with what says nothing or is refused anyway.**  Whatever
stands behind the colon is dropped: the program runs as if it were not there.  Put on a line of its
own it changes no program that is built either way exactly if it is blank or a comment, defines the
same label again, or is an operation that is not understood.  All other lines are read whole. -/
theorem label_line_splits_iff {size : Nat} (large : 4 ≤ size) (reachable : size ≤ Memory.maxAddress)
    {name rest : List Char} (word : ∀ c ∈ name, Text.isWordChar c = true) (plain : '\n' ∉ rest) :
    (∀ (before after : List (List Char)) (text bare : String),
        Text.lines text.toList = before ++ labelLine name rest :: after →
        Text.lines bare.toList = before ++ labelLine name [] :: after →
        ∀ s : Assembler, s.run text = s.run bare) ∧
      ((∀ (before after : List (List Char)) (text split : String) (s t : Assembler),
          Text.lines text.toList = before ++ labelLine name rest :: after →
          Text.lines split.toList = before ++ labelLine name [] :: rest :: after →
          Assembler.build text (Assembler.ofSize size) = .ok () s →
          Assembler.build split (Assembler.ofSize size) = .ok () t → s.SameProgram t) ↔
        ∀ body, Statement.said? rest = some body → body.RefusedBehind (String.ofList name)) ∧
      ∀ line body, Statement.said? line = some body → body.Spells (clean line) := by
  refine ⟨?_, ⟨?_, ?_⟩, fun line body => Statement.spells_of_said?⟩
  · intro before after text bare old new s
    have same := Statement.ofText_of_labelLine word old new
    exact Assembler.run_eq_of_assemble_eq (by rw [same])
  · intro alike body meaning
    by_contra heeded
    obtain ⟨before, after, text, split, s, t, label, old, new, built, built', differs⟩ :=
      Layout.exists_split_ne large reachable word plain meaning heeded
    exact differs ((alike before after text split s t old new built built').labels label)
  · intro refused before after text split s t old new built built'
    obtain rfl := Assembler.build_split_eq word refused old new built built'
    exact ⟨rfl, fun _ => rfl, rfl⟩

/-- The state after a loop was built whose label shares a line with a comment. -/
def remarkedLinked : Assembler where
  memory := ⟨#[0x80, 0xFE, -1, -1]⟩
  counter := 2
  labels := ⟨[("LOOP", 0)]⟩
  references := [⟨"SJMP", "LOOP"⟩]

/-- A comment may stand behind a label or below it, or be left out. -/
theorem label_line_splits_iff_comment :
    Assembler.build "LOOP: ; again\nSJMP LOOP" (Assembler.ofSize 4) = .ok () remarkedLinked ∧
      (∃ t, Assembler.build "LOOP:\n ; again\nSJMP LOOP" (Assembler.ofSize 4) = .ok () t ∧
        remarkedLinked.SameProgram t) ∧
      ∀ s : Assembler, s.run "LOOP: ; again\nSJMP LOOP" = s.run "LOOP:\nSJMP LOOP" := by
  have word : ∀ c ∈ "LOOP".toList, Text.isWordChar c = true :=
    List.all_eq_true.1 (by decide +kernel)
  have silent : Statement.said? " ; again".toList = none := by decide +kernel
  have built : Assembler.build "LOOP: ; again\nSJMP LOOP" (Assembler.ofSize 4)
      = .ok () remarkedLinked := by decide +kernel
  have built' : Assembler.build "LOOP:\n ; again\nSJMP LOOP" (Assembler.ofSize 4)
      = .ok () remarkedLinked := by decide +kernel
  have shares :=
    @label_line_splits_iff 4 (by decide) (by decide) "LOOP".toList " ; again".toList word
    (by decide +kernel)
  have refused : ∀ body, Statement.said? " ; again".toList = some body →
      body.RefusedBehind (String.ofList "LOOP".toList) := by
    intro body meaning
    exact absurd (silent.symm.trans meaning) (by simp)
  have same := shares.2.1.2 refused [] ["SJMP LOOP".toList] _ _ _ _ (by decide +kernel)
    (by decide +kernel) built built'
  exact ⟨built, ⟨_, built', same⟩,
    shares.1 [] ["SJMP LOOP".toList] _ _ (by decide +kernel) (by decide +kernel)⟩

/-- **An instruction behind a label is lost.**  Below the label it is stored. -/
theorem instruction_behind_label_is_lost :
    ∃ s t, Assembler.build "MAIN: NOP" Assembler.fresh = .ok () s ∧
      Assembler.build "MAIN:\nNOP" Assembler.fresh = .ok () t ∧
      s.memory.cells[0]? = some Memory.erased ∧ t.memory.cells[0]? = some 1 := by
  have shared : Statement.bodies (Statement.ofText "MAIN: NOP") = [.label "MAIN"] := by
    decide +kernel
  have below : Statement.bodies (Statement.ofText "MAIN:\nNOP") =
      [.label "MAIN", .operation "NOP" [""]] := by decide +kernel
  have nothing : Layout.placements [.label "MAIN"] = [] := by decide +kernel
  have stored : Layout.placements [.label "MAIN", .operation "NOP" [""]] =
      [⟨0, "NOP", Layout.idle⟩] := by decide +kernel
  have fits : ∀ p ∈ [(⟨0, "NOP", Layout.idle⟩ : Placement)], p.stop ≤ 65536 := by decide
  obtain ⟨s, built, memory, _⟩ := @Layout.exists_build_of_quiet 65536 (by decide) _ _ shared
    (by decide +kernel) (by rw [nothing]; decide) (by decide +kernel)
    (by rw [nothing]; exact Layout.quiet_of_plain (by decide) (by decide))
  obtain ⟨t, built', memory', _⟩ := @Layout.exists_build_of_quiet 65536 (by decide) _ _ below
    (by decide +kernel) (by rw [stored]; exact fits) (by decide +kernel)
    (by rw [stored]; exact Layout.quiet_of_plain fits (by decide))
  refine ⟨s, t, built, built', ?_, ?_⟩
  · rw [memory, nothing]
    show (Array.replicate 65536 Memory.erased)[0]? = _
    rw [Array.getElem?_replicate, if_pos (by decide)]
  · rw [memory', stored, Layout.getElem?_writeAll_of_mem (by simpa [Memory.blank] using fits)
      (List.pairwise_singleton _ _) List.mem_cons_self (by decide)]
    rfl

end Mcs51
