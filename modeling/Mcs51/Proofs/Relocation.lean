/-
  Mcs51.Proofs.Relocation — programs that can be moved.

  An origin in front of a program moves everything behind it.  If the program sets the counter
  nowhere else and refers to labels by distance only, then it is the same program at another place:
  the cells are the same, the labels are moved with them, and every branch still reaches its label.

  Main definitions:
    * `Source.withOrigin`, `Layout.withOrigin` : a text and its lines with an origin in front;
    * `Body.Floats` : a line that means the same wherever it stands;
    * `Placement.moved` : an instruction at another place.

  Main statements:
    * `Statement.bodies_withOrigin` : what the new text says;
    * `Layout.timelineFrom_add` : a timeline that begins later;
    * `Placement.linked_moved` : a branch by distance does not depend on where it stands;
    * `build_relocates` : the two runs compared.
-/
import Mcs51.Proofs.Growth
import Mcs51.Proofs.SourceLayout

namespace Mcs51

/-! ## §1. An origin in front of a program. -/

/-- The text with an origin in front of it, in base 10. -/
def Source.withOrigin (address : Nat) (text : String) : String :=
  "ORG " ++ toString address ++ "\n" ++ text

/-- The lines behind an origin. -/
def Layout.withOrigin (address : Nat) (bodies : List Body) : List Body :=
  .operation "ORG" [String.ofList (Nat.toDigits 10 address)] :: bodies

/-- The digits of a number are none of the characters that divide a line, and they are capitals. -/
theorem Digits.plain_of_mem_toDigits {n : Nat} {c : Char} (member : c ∈ Nat.toDigits 10 n) :
    (Text.isBlank c = false ∧ c ≠ ';' ∧ c ≠ '\n' ∧ c ≠ ',') ∧ Text.upperChar c = [c] ∧
      isDecimal c = true := by
  have all : ∀ d < 10, (Text.isBlank d.digitChar = false ∧ d.digitChar ≠ ';' ∧ d.digitChar ≠ '\n' ∧
      d.digitChar ≠ ',') ∧ Text.upperChar d.digitChar = [d.digitChar] ∧
      isDecimal d.digitChar = true := by
    decide
  obtain ⟨d, small, rfl⟩ := exists_digitChar_of_mem_toDigits (by decide) member
  exact all d small

theorem Text.upper_of_forall {text : List Char} (capital : ∀ c ∈ text, upperChar c = [c]) :
    upper text = text := by
  unfold upper
  rw [List.flatMap_congr capital, List.flatMap_singleton']

/-- A decimal number is read as it was written. -/
theorem Numeral.ofText?_toDigits (n : Nat) :
    Numeral.ofText? (Nat.toDigits 10 n) = some (.dec (Nat.toDigits 10 n)) := by
  have decimal : ∀ c ∈ Nat.toDigits 10 n, Digits.isDecimal c = true :=
    fun c member => (Digits.plain_of_mem_toDigits member).2.2
  have hex : ∀ c ∈ Nat.toDigits 10 n, Digits.isHexCapital c = true := by
    intro c member
    simp [Digits.isHexCapital, decimal c member]
  have nonempty : Nat.toDigits 10 n ≠ [] := List.length_pos_iff.1 Nat.length_toDigits_pos
  have no_mark : Shape.hex.capture? (Nat.toDigits 10 n) = none := by
    simp [Shape.capture?, Shape.hex, Text.stripOpening?, Repetition.take?,
      List.takeWhile_eq_self_iff.2 hex, nonempty]
  have digits : Shape.dec.capture? (Nat.toDigits 10 n) = some (Nat.toDigits 10 n) := by
    simp [Shape.capture?, Shape.dec, Text.stripOpening?, Repetition.take?, Shape.atEnd,
      List.takeWhile_eq_self_iff.2 decimal, nonempty]
  unfold Numeral.ofText?
  rw [no_mark, digits]
  rfl

/-- An origin goes to the number that was written, if it is the address of a cell. -/
theorem origin_toDigits {n : Nat} (reachable : n ≤ Memory.maxAddress) :
    origin [String.ofList (Nat.toDigits 10 n)] = .ok n := by
  have short : (Nat.toDigits 10 n).length ≤ maxDecimalDigits := by
    -- no address has more than nineteen digits
    have small : n < 10 ^ 19 := by
      unfold Memory.maxAddress at reachable
      omega
    have := (Nat.length_toDigits_le_iff (by decide) (by decide)).2 small
    unfold maxDecimalDigits
    omega
  have value : Numeral.value (.dec (Nat.toDigits 10 n)) = .ok n := by
    unfold Numeral.value
    dsimp only
    rw [if_pos short, Digits.value_toDigits (by decide) (by decide)]
  simp only [origin, String.toList_ofList, Numeral.ofText?_toDigits, numberOf, value]
  rfl

/-- The line in front, character by character. -/
def Source.originLine (address : Nat) : List Char :=
  'O' :: 'R' :: 'G' :: ' ' :: Nat.toDigits 10 address

theorem Source.toList_withOrigin (address : Nat) (text : String) :
    (withOrigin address text).toList = originLine address ++ '\n' :: text.toList := by
  simp [withOrigin, originLine]

theorem Source.forall_mem_originLine {address : Nat} {P : Char → Prop}
    (front : ∀ c ∈ ['O', 'R', 'G', ' '], P c) (digits : ∀ c ∈ Nat.toDigits 10 address, P c) :
    ∀ c ∈ originLine address, P c := by
  intro c member
  have parts : c ∈ ['O', 'R', 'G', ' '] ++ Nat.toDigits 10 address := member
  rcases List.mem_append.1 parts with letter | digit
  · exact front c letter
  · exact digits c digit

/-- Nothing of the line in front is dropped. -/
theorem Source.kept?_originLine (address : Nat) :
    kept? (originLine address) = some (String.ofList (originLine address)) := by
  have no_comment : ∀ c ∈ originLine address, (c != ';') = true := by
    refine forall_mem_originLine (List.all_eq_true.1 rfl) fun c digit => ?_
    simpa using (Digits.plain_of_mem_toDigits digit).1.2.1
  have unindented : Text.dropBlanks (originLine address) = originLine address := by
    unfold Text.dropBlanks originLine
    rw [List.dropWhile_cons_of_neg (by decide)]
  have whole : clean (originLine address) = originLine address := by
    unfold clean
    rw [unindented, List.takeWhile_eq_self_iff.2 no_comment]
  unfold kept?
  rw [whole]
  rfl

/-- The line in front says that the program begins at the address. -/
theorem Statement.bodyOf_originLine (address : Nat) :
    bodyOf (String.ofList (Source.originLine address)) =
      .ok (.operation "ORG" [String.ofList (Nat.toDigits 10 address)]) := by
  have no_label : Shape.label.capture? (Source.originLine address) = none := by
    have word : (Source.originLine address).takeWhile Text.isWordChar = ['O', 'R', 'G'] := by
      unfold Source.originLine
      rw [List.takeWhile_cons_of_pos (by decide), List.takeWhile_cons_of_pos (by decide),
          List.takeWhile_cons_of_pos (by decide), List.takeWhile_cons_of_neg (by decide)]
    simp only [Shape.capture?, Shape.label, Text.stripOpening?, Repetition.take?, word]
    rfl
  have solid : ∀ c ∈ Nat.toDigits 10 address, Text.isBlank c = false :=
    fun c member => (Digits.plain_of_mem_toDigits member).1.1
  have no_comma : ',' ∉ Nat.toDigits 10 address :=
    fun member => (Digits.plain_of_mem_toDigits member).1.2.2.2 rfl
  have nonempty : Nat.toDigits 10 address ≠ [] := List.length_pos_iff.1 Nat.length_toDigits_pos
  have words : Text.words (Source.originLine address) =
      [['O', 'R', 'G'], Nat.toDigits 10 address] := by
    have blank : (['O', 'R', 'G'] ++ ' ' :: Nat.toDigits 10 address).splitOnP Text.isBlank =
        [['O', 'R', 'G']] ++ [Nat.toDigits 10 address] := by
      rw [List.splitOnP_append_cons _ _ (by decide), List.splitOnP_eq_singleton solid]
      rfl
    show ((['O', 'R', 'G'] ++ ' ' :: Nat.toDigits 10 address).splitOnP Text.isBlank).filter _ = _
    rw [blank]
    simp [nonempty]
  have operands : operandsOf [Nat.toDigits 10 address] =
      [String.ofList (Nat.toDigits 10 address)] := by
    unfold operandsOf Text.fields
    rw [List.flatten_singleton,
        Text.upper_of_forall fun c member => (Digits.plain_of_mem_toDigits member).2.1,
        List.splitOn_eq_singleton no_comma]
    rfl
  unfold bodyOf
  rw [String.toList_ofList, no_label, words]
  show Except.ok (Body.operation _ (operandsOf [Nat.toDigits 10 address])) = _
  rw [operands]
  rfl

/-- **What the text with an origin in front says.** -/
theorem Statement.bodies_withOrigin {address : Nat} {text : String}
    {program program' : List Statement}
    (read : parse (Source.lines text) = .ok program)
    (read' : parse (Source.lines (Source.withOrigin address text)) = .ok program') :
    bodies program' = Layout.withOrigin address (bodies program) := by
  have other : ∀ c ∈ Source.originLine address, c ≠ '\n' :=
    Source.forall_mem_originLine (by simp) fun c digit =>
      (Digits.plain_of_mem_toDigits digit).1.2.2.1
  have one_line : '\n' ∉ Source.originLine address := fun member => other _ member rfl
  have texts : (Source.lines (Source.withOrigin address text)).map Line.text =
      String.ofList (Source.originLine address) :: (Source.lines text).map Line.text := by
    rw [Source.texts_lines, Source.texts_lines, Source.toList_withOrigin]
    unfold Text.lines
    rw [List.splitOn_append_cons_self_of_not_mem one_line,
        List.filterMap_cons_some (Source.kept?_originLine address)]
  have all := bodies_of_parse read'
  rw [texts, List.mapM_cons, bodyOf_originLine, bodies_of_parse read] at all
  exact (Except.ok.inj all).symm

/-! ## §2. Timelines that begin later. -/

/-- Does the line mean the same wherever it stands?  It sets no counter, and it refers to no label
by its address. -/
def Body.Floats (body : Body) : Prop :=
  body.isOrigin = false ∧ ∀ reference ∈ body.reference?,
    reference.mnemonic ∉ ["AJMP", "ACALL", "LJMP", "LCALL", "JMP"]

instance (body : Body) : Decidable body.Floats :=
  inferInstanceAs (Decidable (_ ∧ ∀ reference ∈ body.reference?, _))

/-- The instruction at another place. -/
def Placement.moved (distance : Nat) (p : Placement) : Placement :=
  { p with address := p.address + distance }

@[simp] theorem Placement.stop_moved (distance : Nat) (p : Placement) :
    (p.moved distance).stop = p.stop + distance := by
  show p.address + distance + p.encoding.cells.length =
    p.address + p.encoding.cells.length + distance
  omega

theorem Placement.covers_moved {distance : Nat} {p : Placement} {i : Nat} :
    (p.moved distance).Covers (i + distance) ↔ p.Covers i := by
  unfold Covers
  rw [stop_moved]
  show p.address + distance ≤ i + distance ∧ _ ↔ _
  omega

namespace Layout

/-- A moment that comes later by some cells. -/
def later (distance : Nat) (moment : Nat × Action) : Nat × Action :=
  (moment.1 + distance, moment.2)

/-- **A timeline that begins later by some cells**: if no action sets the counter, all moments come
later by as much. -/
theorem timelineFrom_add {actions : List Action} (straight : Straight actions)
    (counter distance : Nat) :
    timelineFrom (counter + distance) actions =
      (timelineFrom counter actions).map (later distance) := by
  induction actions generalizing counter with
  | nil => rfl
  | cons action rest ih =>
    have others := ih fun other member => straight other (List.mem_cons_of_mem action member)
    -- only an origin could forget where the actions began
    have next : action.next (counter + distance) = action.next counter + distance := by
      cases action with
      | define label => rfl
      | goTo address => exact absurd rfl (straight _ List.mem_cons_self address)
      | emit mnemonic encoding =>
        show counter + distance + _ = counter + _ + distance
        omega
    rw [timelineFrom, timelineFrom, next, others]
    rfl

theorem placed?_later (distance : Nat) (moment : Nat × Action) :
    placed? (later distance moment) = (placed? moment).map (Placement.moved distance) := by
  obtain ⟨counter, action⟩ := moment
  cases action <;> rfl

theorem defined?_later (distance : Nat) (moment : Nat × Action) :
    defined? (later distance moment) =
      (defined? moment).map fun entry => (entry.1, entry.2 + distance) := by
  obtain ⟨counter, action⟩ := moment
  cases action <;> rfl

/-- The counter never goes back, and no instruction reaches behind it. -/
theorem stop_le_counterAfter {actions : List Action} (straight : Straight actions) {counter : Nat} :
    counter ≤ counterAfter counter actions ∧
      ∀ p ∈ (timelineFrom counter actions).filterMap placed?,
        p.stop ≤ counterAfter counter actions := by
  induction actions generalizing counter with
  | nil => exact ⟨Nat.le_refl counter, fun p member => absurd member List.not_mem_nil⟩
  | cons action rest ih =>
    have straight_rest : Straight rest := fun other member =>
      straight other (List.mem_cons_of_mem action member)
    obtain ⟨goes_on, stops⟩ := @ih straight_rest (action.next counter)
    have after : counterAfter counter (action :: rest) = counterAfter (action.next counter) rest :=
      rfl
    rw [after]
    cases action with
    | define label => exact ⟨goes_on, stops⟩
    | goTo address => exact absurd rfl (straight _ List.mem_cons_self address)
    | emit mnemonic encoding =>
      have here : counter + encoding.cells.length ≤
          counterAfter (counter + encoding.cells.length) rest :=
        goes_on
      refine ⟨by show counter ≤ counterAfter (counter + encoding.cells.length) rest; omega, ?_⟩
      intro p member
      rcases List.mem_cons.1 member with rfl | among
      · exact here
      · exact stops p among

theorem counterAfter_add {actions : List Action} (straight : Straight actions)
    (counter distance : Nat) :
    counterAfter (counter + distance) actions = counterAfter counter actions + distance := by
  induction actions generalizing counter with
  | nil => rfl
  | cons action rest ih =>
    have others := ih fun other member => straight other (List.mem_cons_of_mem action member)
    cases action with
    | define label => exact others counter
    | goTo address => exact absurd rfl (straight _ List.mem_cons_self address)
    | emit mnemonic encoding =>
      show counterAfter (counter + distance + encoding.cells.length) rest = _
      rw [show counter + distance + encoding.cells.length =
        counter + encoding.cells.length + distance by
        omega]
      exact others _

end Layout

/-! ## §3. Instructions that refer to labels by distance. -/

/-- The only operations that refer to labels and are neither jumps nor calls refer to them by
distance. -/
theorem LinkKind.eq_relative {mnemonic : String} {kind : LinkKind}
    (known : ofMnemonic? mnemonic = some kind)
    (branch : mnemonic ∉ ["AJMP", "ACALL", "LJMP", "LCALL", "JMP"]) : kind = .relative := by
  unfold ofMnemonic? at known
  split at known <;> simp_all

namespace Placement

/-- If the instruction refers to a label, it does so by distance. -/
def ByDistance (p : Placement) : Prop :=
  ∀ label, p.encoding.label = some label → LinkKind.ofMnemonic? p.mnemonic = some .relative

/-- **A branch by distance is the same at another place**, if its label has been moved with it. -/
theorem linked_moved {labels labels' : LabelTable} {distance : Nat} {p : Placement}
    (byDistance : p.ByDistance)
    (moved_labels : ∀ label, labels'.find? label =
      (labels.find? label).map (· + (distance : Int))) :
    (p.moved distance).linked labels' = p.linked labels := by
  have same_fixed : (p.moved distance).fixed = p.fixed := rfl
  have same_label : (p.moved distance).encoding.label = p.encoding.label := rfl
  have same_kind : LinkKind.ofMnemonic? (p.moved distance).mnemonic =
      LinkKind.ofMnemonic? p.mnemonic := rfl
  unfold linked patched
  rw [same_fixed, same_label, same_kind]
  cases labelled : p.encoding.label with
  | none => rfl
  | some label =>
    rw [byDistance label labelled]
    dsimp only
    rw [moved_labels label]
    cases labels.find? label with
    | none => rfl
    | some address =>
      -- the label and the end of the branch have moved by the same number of cells
      show Assembler.asStored p.fixed ++
          [offsetCell (address + distance - (p.address + distance + p.fixed.length : Nat) - 1)] =
        Assembler.asStored p.fixed ++
          [offsetCell (address - (p.address + p.fixed.length : Nat) - 1)]
      congr 3
      omega

end Placement

namespace Layout

/-- Lines that float only go on from where they begin. -/
theorem straight_of_floats {bodies : List Body} (floats : ∀ body ∈ beforeEnd bodies, body.Floats) :
    Straight (actions bodies) := by
  intro action member address same
  obtain ⟨body, among, does⟩ := List.mem_filterMap.1 member
  have reads := Body.reads_of_action? does
  subst same
  cases reads with
  | origin reached =>
    have not_origin := (floats _ among).1
    exact absurd not_origin (by simp [Body.isOrigin])

/-- Lines that float place no other branches than those by distance. -/
theorem byDistance_of_floats {bodies : List Body} (floats : ∀ body ∈ beforeEnd bodies, body.Floats)
    {p : Placement} (member : p ∈ placements bodies) : p.ByDistance := by
  intro label labelled
  have shaped := shaped_of_mem_placements member
  obtain ⟨kind, known⟩ := Option.isSome_iff_exists.1 (shaped.linked label labelled)
  obtain ⟨⟨counter, action⟩, moment, placed⟩ := List.mem_filterMap.1 member
  obtain ⟨body, among, does⟩ := List.mem_filterMap.1 (mem_of_mem_timelineFrom moment)
  cases action with
  | define name => exact absurd placed (by simp [placed?])
  | goTo address => exact absurd placed (by simp [placed?])
  | emit mnemonic encoding =>
    obtain rfl := Option.some.inj placed
    have reads := Body.reads_of_action? does
    cases reads with
    | @instruction _ operands _ _ encoded =>
      have refers : (Body.operation mnemonic operands).reference? = some ⟨mnemonic, label⟩ := by
        show (Body.operation mnemonic operands).encoding?.bind _ = _
        rw [encoded]
        exact congrArg (Option.map _) labelled
      have branch := (floats _ among).2 ⟨mnemonic, label⟩ refers
      rw [known, LinkKind.eq_relative known branch]

theorem Ascending.moved {position distance : Nat} {ps : List Placement}
    (h : Ascending position ps) :
    Ascending (position + distance) (ps.map (Placement.moved distance)) := by
  induction ps generalizing position with
  | nil => trivial
  | cons p rest ih =>
    refine ⟨Nat.add_le_add_right h.1 distance, ?_⟩
    rw [Placement.stop_moved]
    exact ih h.2

section Moved

variable {labels labels' : LabelTable} {size distance : Nat} {ps : List Placement}

/-- Placements that linking can deal with can be moved inside the memory. -/
theorem Linkable.moved (ready : Linkable labels size ps) (byDistance : ∀ p ∈ ps, p.ByDistance)
    (moved_labels : ∀ label, labels'.find? label = (labels.find? label).map (· + (distance : Int)))
    (fits : ∀ p ∈ ps, p.stop + distance ≤ size) :
    Linkable labels' size (ps.map (Placement.moved distance)) := by
  refine ⟨ready.ascends.moved.mono (Nat.zero_le _), ?_, ?_, ?_, ?_⟩
  all_goals
    intro q member
    obtain ⟨p, among, rfl⟩ := List.mem_map.1 member
  · rw [Placement.stop_moved]
    exact fits p among
  · exact ready.shaped p among
  · exact ready.quiet p among
  · intro label labelled
    obtain ⟨_, address, _, found, _⟩ := ready.settles p among label labelled
    refine ⟨.relative, address + distance, byDistance p among label labelled, ?_, rfl⟩
    rw [moved_labels label, found]
    rfl

/-- A cell that no placement covers is erased, also in a linked memory. -/
theorem getElem?_linkedMemory_of_uncovered (ready : Linkable labels size ps) {i : Nat}
    (inside : i < size) (uncovered : ∀ p ∈ ps, ¬p.Covers i) :
    (linkedMemory labels size ps).cells[i]? = some Memory.erased := by
  rw [← Array.getElem?_toList]
  exact getElem?_render_of_uncovered ready.ascends ready.fills (Nat.zero_le i) inside uncovered

/-- **The memory of moved placements is moved**, as far as there is room for it. -/
theorem getElem?_linkedMemory_moved (ready : Linkable labels size ps)
    (byDistance : ∀ p ∈ ps, p.ByDistance)
    (moved_labels : ∀ label, labels'.find? label = (labels.find? label).map (· + (distance : Int)))
    (fits : ∀ p ∈ ps, p.stop + distance ≤ size) {i : Nat} (inside : i + distance < size) :
    (linkedMemory labels' size (ps.map (Placement.moved distance))).cells[i + distance]? =
      (linkedMemory labels size ps).cells[i]? := by
  have ready' := ready.moved byDistance moved_labels fits
  by_cases covered : ∃ p ∈ ps, p.Covers i
  · obtain ⟨p, member, covers⟩ := covered
    have offset : i + distance - (p.moved distance).address = i - p.address := by
      show i + distance - (p.address + distance) = _
      omega
    rw [getElem?_linkedMemory_of_mem ready' (List.mem_map_of_mem member)
          (Placement.covers_moved.2 covers),
        getElem?_linkedMemory_of_mem ready member covers,
        Placement.linked_moved (byDistance p member) moved_labels, offset]
  · have uncovered : ∀ p ∈ ps, ¬p.Covers i := fun p member covers => covered ⟨p, member, covers⟩
    rw [getElem?_linkedMemory_of_uncovered ready (by omega) uncovered]
    refine getElem?_linkedMemory_of_uncovered ready' inside ?_
    intro q member covers
    obtain ⟨p, among, rfl⟩ := List.mem_map.1 member
    exact uncovered p among (Placement.covers_moved.1 covers)

/-- Around moved placements the memory is erased. -/
theorem getElem?_linkedMemory_of_outside {bound : Nat}
    (ready : Linkable labels size (ps.map (Placement.moved distance)))
    (stops : ∀ p ∈ ps, p.stop ≤ bound) {i : Nat} (inside : i < size)
    (outside : i < distance ∨ distance + bound ≤ i) :
    (linkedMemory labels size (ps.map (Placement.moved distance))).cells[i]? =
      some Memory.erased := by
  refine getElem?_linkedMemory_of_uncovered ready inside ?_
  intro q member covers
  obtain ⟨p, among, rfl⟩ := List.mem_map.1 member
  have behind : p.address + distance ≤ i := covers.1
  have before : i < p.stop + distance := Placement.stop_moved distance p ▸ covers.2
  have := stops p among
  omega

end Moved

/-! ## §4. The program at another place. -/

section Program

variable {size address : Nat} {bodies : List Body}

/-- If linking a program without absolute addresses succeeds, it deals with one instruction after
the other. -/
theorem Leaves.linkable_of_link {s linked : Assembler} (leaves : Leaves size bodies s)
    (straight : Straight (actions bodies)) (byDistance : ∀ p ∈ placements bodies, p.ByDistance)
    (links : Assembler.link s = .ok () linked) : Linkable s.labels size (placements bodies) := by
  have forward : Forward bodies := by
    intro moment member
    cases action : moment.2 with
    | define label => trivial
    | goTo target => exact absurd action (straight _ (mem_of_mem_timelineFrom member) target)
    | emit mnemonic encoding => trivial
  obtain ⟨linking, searched, _⟩ := Assembler.link_eq_ok links
  rw [leaves.toList_cells forward] at searched
  have quiet : Quiet bodies :=
    (quiet_of_scan (fun _ => shaped_of_mem_placements) (by exact leaves.references) searched).1
  refine leaves.linkable forward quiet (leaves.defined_of_link forward quiet links) ?_
  -- a flexible jump would refer to its label by address
  intro p member jump label labelled
  have known := byDistance p member label labelled
  rw [jump] at known
  exact absurd known (by decide)

theorem Leaves.link_of_linkable {s : Assembler} (leaves : Leaves size bodies s)
    (ready : Linkable s.labels size (placements bodies)) :
    Assembler.link s =
      .ok () { s with memory := linkedMemory s.labels size (placements bodies) } := by
  refine Layout.link_of_linkable ready ?_ leaves.references
  rw [leaves.memory]
  exact toList_writeAll_eq_render ready.ascends ready.fits

theorem action?_origin (reachable : address ≤ Memory.maxAddress) :
    (Body.operation "ORG" [String.ofList (Nat.toDigits 10 address)]).action? =
      some (.goTo address) := by
  unfold Body.action?
  dsimp only
  rw [if_pos rfl, origin_toDigits reachable]
  rfl

/-- Behind an origin everything comes later by as many cells. -/
theorem timeline_withOrigin (reachable : address ≤ Memory.maxAddress)
    (straight : Straight (actions bodies)) :
    timeline (withOrigin address bodies) =
      (0, .goTo address) :: (timeline bodies).map (later address) := by
  have from_there := timelineFrom_add straight 0 address
  rw [Nat.zero_add] at from_there
  unfold timeline withOrigin
  rw [actions_cons rfl (action?_origin reachable), timelineFrom]
  exact congrArg _ from_there

theorem placements_withOrigin (reachable : address ≤ Memory.maxAddress)
    (straight : Straight (actions bodies)) :
    placements (withOrigin address bodies) = (placements bodies).map (Placement.moved address) := by
  unfold placements
  rw [timeline_withOrigin reachable straight, List.filterMap_cons_none rfl, List.filterMap_map,
      List.map_filterMap]
  exact List.filterMap_congr fun moment _ => placed?_later address moment

theorem definitions_withOrigin (reachable : address ≤ Memory.maxAddress)
    (straight : Straight (actions bodies)) :
    definitions (withOrigin address bodies) =
      (definitions bodies).map fun entry => (entry.1, entry.2 + address) := by
  unfold definitions
  rw [timeline_withOrigin reachable straight, List.filterMap_cons_none rfl, List.filterMap_map,
      List.map_filterMap]
  exact List.filterMap_congr fun moment _ => defined?_later address moment

/-- The labels of a program behind an origin are moved. -/
theorem Leaves.labels_withOrigin {s s' : Assembler} (reachable : address ≤ Memory.maxAddress)
    (straight : Straight (actions bodies)) (leaves : Leaves size bodies s)
    (leaves' : Leaves size (withOrigin address bodies) s') (label : String) :
    s'.labels.find? label = (s.labels.find? label).map (· + (address : Int)) := by
  -- a label is found where it was defined, and all definitions have moved
  refine Option.ext fun place => ?_
  rw [leaves'.labels label place, definitions_withOrigin reachable straight, Option.map_eq_some_iff]
  constructor
  · rintro ⟨n, member, rfl⟩
    obtain ⟨⟨name, m⟩, among, same⟩ := List.mem_map.1 member
    obtain ⟨rfl, rfl⟩ := Prod.mk.inj same
    exact ⟨m, (leaves.labels name m).2 ⟨m, among, rfl⟩, by push_cast; rfl⟩
  · rintro ⟨before, found, rfl⟩
    obtain ⟨m, among, rfl⟩ := (leaves.labels label before).1 found
    exact ⟨m + address, List.mem_map.2 ⟨(label, m), among, rfl⟩, by push_cast; rfl⟩

/-- The counter of a program that only goes on is its end. -/
theorem Leaves.stop_le_counter {s : Assembler} {k : Nat} (leaves : Leaves size bodies s)
    (straight : Straight (actions bodies)) (ends : s.counter = k) :
    counterAfter 0 (actions bodies) = k ∧ ∀ p ∈ placements bodies, p.stop ≤ k := by
  have counter_eq : counterAfter 0 (actions bodies) = k := by
    have same : (counterAfter 0 (actions bodies) : Int) = k := leaves.counter_eq.symm.trans ends
    omega
  exact ⟨counter_eq, fun p member => counter_eq ▸ (stop_le_counterAfter straight).2 p member⟩

theorem Leaves.counter_withOrigin {s' : Assembler} {k : Nat}
    (reachable : address ≤ Memory.maxAddress)
    (straight : Straight (actions bodies)) (ends : counterAfter 0 (actions bodies) = k)
    (leaves' : Leaves size (withOrigin address bodies) s') : s'.counter = (address + k : Nat) := by
  have later := counterAfter_add straight 0 address
  rw [Nat.zero_add, ends] at later
  refine leaves'.counter_eq.trans (congrArg Nat.cast ?_)
  unfold withOrigin
  rw [actions_cons rfl (action?_origin reachable)]
  exact later.trans (Nat.add_comm k address)

/-- A program that only goes on can be placed behind an origin, if there is room for it. -/
theorem assemble_withOrigin {program program' : List Statement} {s : Assembler}
    (reachable : size ≤ Memory.maxAddress) (bodies_eq : Statement.bodies program' =
      withOrigin address (Statement.bodies program))
    (straight : Straight (actions (Statement.bodies program)))
    (assembled : Assembler.assemble program (Assembler.ofSize size) = .ok () s)
    (fits : ∀ p ∈ placements (Statement.bodies program), p.stop + address ≤ size)
    (inside : address ≤ size) :
    ∃ s', Assembler.assemble program' (Assembler.ofSize size) = .ok () s' := by
  have near : address ≤ Memory.maxAddress := by omega
  have leaves := leaves_of_assemble assembled
  refine assemble_of_accepted reachable ?_ ?_ ?_
  · rw [bodies_eq]
    refine (accepted_cons rfl).2 ⟨?_, leaves.accepted⟩
    rw [action?_origin near]
    rfl
  · intro q member
    rw [bodies_eq, placements_withOrigin near straight] at member
    obtain ⟨p, among, rfl⟩ := List.mem_map.1 member
    rw [Placement.stop_moved]
    exact fits p among
  · rw [bodies_eq, definitions_withOrigin near straight, List.map_map]
    exact distinct_of_assemble assembled

end Program

end Layout

/-- **A program without absolute addresses can be moved.**  Let a program be built whose lines
before the end directive set the counter nowhere and refer to labels by distance only.  Then it can
be built behind any origin that leaves enough room.  Its cells are the same, with branches and all,
and everything around them is erased; its labels are moved by the origin, and there are no
others. -/
theorem build_relocates {size n k : Nat} {text : String} {program : List Statement}
    {final : Assembler}
    (reachable : size ≤ Memory.maxAddress)
    (parsed : Statement.parse (Source.lines text) = .ok program)
    (floats : ∀ body ∈ Layout.beforeEnd (Statement.bodies program), body.Floats)
    (built : Assembler.build text (Assembler.ofSize size) = .ok () final)
    (ends : final.counter = k) (fits : n + k ≤ size) :
    ∃ moved, Assembler.build (Source.withOrigin n text) (Assembler.ofSize size) = .ok () moved ∧
      moved.memory.cells.size = size ∧ final.memory.cells.size = size ∧
      (∀ i < k, moved.memory.cells[n + i]? = final.memory.cells[i]?) ∧
      (∀ i < size, i < n ∨ n + k ≤ i → moved.memory.cells[i]? = some Memory.erased) ∧
      (∀ label, moved.labels.find? label = (final.labels.find? label).map (· + (n : Int))) ∧
      moved.counter = (n + k : Nat) := by
  obtain ⟨_, s, parsed', assembled, links⟩ := Assembler.build_eq_ok built
  obtain rfl := Except.ok.inj (parsed.symm.trans parsed')
  have straight := Layout.straight_of_floats floats
  have byDistance : ∀ p ∈ Layout.placements (Statement.bodies program), p.ByDistance :=
    fun p => Layout.byDistance_of_floats floats
  have leaves := Layout.leaves_of_assemble assembled
  have ready := leaves.linkable_of_link straight byDistance links
  obtain rfl : _ = final :=
    (EStateM.Result.ok.inj ((leaves.link_of_linkable ready).symm.trans links)).2
  -- the counter is the end of the program, so there is room behind the origin
  obtain ⟨counter_eq, stops⟩ := leaves.stop_le_counter straight (by exact ends)
  have room : ∀ p ∈ Layout.placements (Statement.bodies program), p.stop + n ≤ size := by
    intro p member
    have := stops p member
    omega
  have near : n ≤ Memory.maxAddress := by omega
  -- the moved program is read, placed and linked
  obtain ⟨program', read'⟩ := Statement.exists_parse (Source.withOrigin n text)
  have bodies_eq := Statement.bodies_withOrigin parsed read'
  obtain ⟨s', assembled'⟩ :=
    Layout.assemble_withOrigin reachable bodies_eq straight assembled room (by omega)
  have leaves' := Layout.leaves_of_assemble assembled'
  rw [bodies_eq] at leaves'
  have moved_labels := leaves.labels_withOrigin near straight leaves'
  have ready' := ready.moved byDistance moved_labels room
  have placements_eq := Layout.placements_withOrigin near straight
  have links' := leaves'.link_of_linkable (by rw [placements_eq]; exact ready')
  rw [placements_eq] at links'
  have ends' := leaves'.counter_withOrigin near straight counter_eq
  refine ⟨_, (Assembler.build_eq_link read' assembled').trans links',
    Layout.size_linkedMemory ready',
    Layout.size_linkedMemory ready, ?_, ?_, moved_labels, ends'⟩
  · intro i inside
    rw [Nat.add_comm]
    exact Layout.getElem?_linkedMemory_moved ready byDistance moved_labels room (by omega)
  · intro i inside outside
    exact Layout.getElem?_linkedMemory_of_outside ready' stops inside outside

/-- A loop, a branch ahead and a jump that refers to no label. -/
def roamingSource : String :=
  "LOOP:\n DJNZ R7,LOOP\n JNZ DONE\n JMP @A+DPTR\nDONE:\n RET"

/-- Its statements. -/
def roamingProgram : List Statement :=
  [⟨1, .label "LOOP"⟩, ⟨2, .operation "DJNZ" ["R7", "LOOP"]⟩, ⟨3, .operation "JNZ" ["DONE"]⟩,
   ⟨4, .operation "JMP" ["@A+DPTR"]⟩, ⟨5, .label "DONE"⟩, ⟨6, .operation "RET" [""]⟩]

/-- The state after it was built in a small memory. -/
def roamingBuilt : Assembler where
  memory := ⟨#[0xDF, 0xFE, 0x70, 0x01, 0x73, 0x22, -1, -1, -1, -1]⟩
  counter := 6
  labels := ⟨[("DONE", 5), ("LOOP", 0)]⟩
  references := [⟨"DJNZ", "LOOP"⟩, ⟨"JNZ", "DONE"⟩]

/-- Three cells further on, the loop goes back as far as before. -/
theorem build_relocates_loop :
    (∀ body ∈ Layout.beforeEnd (Statement.bodies roamingProgram), body.Floats) ∧
      Assembler.build roamingSource (Assembler.ofSize 10) = .ok () roamingBuilt ∧
      ∃ moved, Assembler.build (Source.withOrigin 3 roamingSource) (Assembler.ofSize 10) =
        .ok () moved ∧
        moved.memory.cells[2]? = some Memory.erased ∧ moved.memory.cells[4]? = some 0xFE ∧
        moved.labels.find? "DONE" = some 8 ∧ moved.counter = 9 := by
  have parsed : Statement.parse (Source.lines roamingSource) = .ok roamingProgram := by
    decide +kernel
  have floats : ∀ body ∈ Layout.beforeEnd (Statement.bodies roamingProgram), body.Floats := by
    decide +kernel
  have built : Assembler.build roamingSource (Assembler.ofSize 10) = .ok () roamingBuilt := by
    decide +kernel
  obtain ⟨moved, built', _, _, same, elsewhere, labels, counter⟩ :=
    @build_relocates 10 3 6 _ _ _ (by decide) parsed floats built rfl (by decide)
  refine ⟨floats, built, moved, built', elsewhere 2 (by decide) (.inl (by decide)), ?_, ?_, counter⟩
  · exact same 1 (by decide)
  · rw [labels]
    decide

end Mcs51
