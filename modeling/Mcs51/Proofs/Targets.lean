/-
  Mcs51.Proofs.Targets — where long jumps lead after jumps have grown.

  A jump that grows moves up the labels above its target.  The code that moves, however, is the code
  behind the jump.  So a label and the instruction it stands in front of can drift apart: the label
  has been moved once for every earlier jump that grew and whose target lies below it, the
  instruction once for every jump before it that grows at all.  A long jump leads to the instruction
  exactly if the two numbers agree.

  Main definitions:
    * `Site.moves` : does linking the instruction move the label?
    * `Site.IsLong` : is the instruction linked by a whole address?

  Main statements:
    * `Layout.sites_split` : how far instructions and labels have moved at a site;
    * `Layout.spell_split` : where the cells of a site stand after linking;
    * `long_jump_reaches_iff` : which long jumps lead to the instruction behind their label.
-/
import Mcs51.Proofs.Growth

namespace Mcs51

/-! ## §1. Whole addresses in two cells. -/

/-- The whole address in two cells, if it is one of the processor. -/
theorem longCells_of_lt {n : Nat} (small : n < 65536) (opcode : Int) :
    longCells opcode n = [opcode, ((n / 256 : Nat) : Int), ((n % 256 : Nat) : Int)] := by
  obtain ⟨upper, lower⟩ := Digits.cut_of_lt 8 (show n < 2 ^ 16 from small)
  rw [longCells_eq, upper, lower]
  rfl

/-- **A long jump holds its target, if that is an address of the processor.**  Otherwise the target
has a digit too many, and what the jump holds lies far below it. -/
theorem longCells_natCast {n : Nat} (lt : n < 131072) (opcode : Int) :
    ∃ hi lo : Int, longCells opcode n = [opcode, hi, lo] ∧
      (n < 65536 → 256 * hi + lo = n) ∧ (65536 ≤ n → 256 * hi + lo + 32768 ≤ n) := by
  by_cases small : n < 65536
  · refine ⟨_, _, longCells_of_lt small opcode, fun _ => ?_, fun le => by omega⟩
    omega
  · have large : 2 ^ 16 ≤ n := by omega
    have size_eq : n.size = 17 :=
      Nat.le_antisymm (Nat.size_le.2 lt) (Nat.lt_size.2 large)
    obtain ⟨upper, lower⟩ := Digits.cut_of_le 8 large
    refine ⟨_, _, longCells_eq opcode n, fun lt => by omega, fun _ => ?_⟩
    rw [upper, lower, size_eq]
    show 256 * ((n / 512 : Nat) : Int) + ((n % 512 : Nat) : Int) + 32768 ≤ n
    omega

/-! ## §2. How far labels move. -/

namespace Site

/-- Does linking the instruction move the label?  It must grow, and its target must lie below. -/
def moves (label : String) (site : Site) : Bool :=
  site.grows &&
    match site.target?, site.labels.find? label with
    | some target, some address => decide (target < address)
    | _, _ => false

/-- Is the instruction linked by a whole address, in three cells? -/
def IsLong (site : Site) : Prop :=
  site.placement.mnemonic = "LJMP" ∨ site.placement.mnemonic = "LCALL" ∨
    (site.placement.mnemonic = "JMP" ∧ site.grows = true)

/-- A label is moved by one cell or not at all. -/
theorem find?_labelsAfter (site : Site) (label : String) :
    site.labelsAfter.find? label =
      (site.labels.find? label).map (· + if site.moves label = true then 1 else 0) := by
  unfold labelsAfter moves
  cases site.target? with
  | none => simp
  | some target =>
    cases grown : site.grows with
    | false => simp
    | true =>
      simp only [if_true, LabelTable.find?_shiftAbove, Bool.true_and]
      cases site.labels.find? label with
      | none => rfl
      | some address =>
        simp only [Option.map_some, LabelTable.shifted, decide_eq_true_eq]
        split <;> simp

/-- Only what grows moves labels. -/
theorem countP_moves_le (before : List Site) (label : String) :
    before.countP (moves label) ≤ before.countP grows :=
  List.countP_mono_left fun _ _ moving => (Bool.and_eq_true_iff.1 moving).1

section Grows

variable {site : Site} {label : String} {address : Int}

/-- Only a flexible jump grows, and it has two placeholders. -/
theorem two_le_of_grows (shaped : site.placement.Shaped) (grown : site.grows = true) :
    site.placement.address + 2 ≤ site.placement.stop := by
  cases labelled : site.placement.encoding.label with
  | none =>
    rw [grows, patch?_of_label_none labelled] at grown
    exact absurd grown (by simp)
  | some label =>
    obtain ⟨kind, known⟩ := Option.isSome_iff_exists.1 (shaped.linked label labelled)
    have waits : site.placement.waiting = kind.width := by
      simp [Placement.waiting, Encoding.waiting, labelled, known]
    have two : 2 ≤ kind.width := by
      cases kind with
      | relative =>
        -- a branch by distance always fits into its cell
        unfold grows patch? at grown
        rw [known] at grown
        cases found : site.target? with
        | none => simp [found] at grown
        | some address => simp [found, LinkKind.patch, Patch.grows] at grown
      | absolute _ | long _ | flexible => simp [LinkKind.width]
    rw [Placement.stop, Placement.length_cells shaped, waits]
    omega

/-- The three cells of an instruction that is linked by a whole address. -/
theorem cells_of_long (shaped : site.placement.Shaped)
    (labelled : site.placement.encoding.label = some label)
    (found : site.labels.find? label = some address) (long : site.IsLong) :
    ∃ opcode, site.cells = longCells opcode address := by
  -- a jump or call is nothing but its patch
  have whole : ∀ {kind : LinkKind}, LinkKind.ofMnemonic? site.placement.mnemonic = some kind →
      kind ≠ .relative → site.patch? = some (kind.patch site.start address) ∧
        site.cells = (kind.patch site.start address).cells := by
    intro kind known absolute
    have bare : site.placement.fixed = [] :=
      shaped.open_of_absolute label kind labelled known absolute
    have patched := patch?_of_label labelled known found
    rw [bare] at patched
    refine ⟨patched, ?_⟩
    simp [cells, patched, bare, Assembler.asStored]
  rcases long with named | named | ⟨named, grown⟩
  · exact ⟨0x02, (whole (show _ = some (.long 0x02) by rw [named]; rfl) (by simp)).2⟩
  · exact ⟨0x12, (whole (show _ = some (.long 0x12) by rw [named]; rfl) (by simp)).2⟩
  · obtain ⟨patched, cells_eq⟩ := whole (show _ = some .flexible by rw [named]; rfl) (by simp)
    refine ⟨0x02, ?_⟩
    rw [grows, patched] at grown
    rw [cells_eq]
    unfold LinkKind.patch at grown ⊢
    dsimp only at grown ⊢
    split at grown
    · exact absurd grown (by simp [Patch.grows])
    next leaves => rw [if_neg leaves]

end Grows

end Site

namespace Layout

/-- **How far things have moved at a site**: the instruction by the jumps before it that grow, and a
label by those of them that move it. -/
theorem sites_split {inserted : Nat} {labels : LabelTable} {ps : List Placement}
    {before after : List Site} {site : Site}
    (split : sites inserted labels ps = before ++ site :: after) :
    site.inserted = inserted + before.countP Site.grows ∧
      ∀ label, site.labels.find? label =
        (labels.find? label).map (· + (before.countP (Site.moves label) : Int)) := by
  induction ps generalizing inserted labels before with
  | nil => exact absurd split (by simp [sites])
  | cons p rest ih =>
    rw [sites] at split
    cases before with
    | nil =>
      obtain ⟨rfl, _⟩ := List.cons.inj split
      simp
    | cons first before =>
      obtain ⟨rfl, split_rest⟩ := List.cons.inj split
      obtain ⟨inserted_eq, found_eq⟩ := ih split_rest
      refine ⟨?_, ?_⟩
      · rw [inserted_eq, List.countP_cons, Site.insertedAfter]
        show inserted + _ + _ = _
        omega
      · intro label
        rw [found_eq label, Site.find?_labelsAfter, Option.map_map, List.countP_cons]
        congr 1
        funext address
        show address + _ + _ = _
        split
        · simp
          omega
        · simp

/-- A site belongs to one of the placements, and room has been used up by the jumps before it. -/
theorem address_of_sites_split {position inserted : Nat} {labels : LabelTable} {ps : List Placement}
    (ascends : Ascending position ps) (shaped : ∀ p ∈ ps, p.Shaped)
    {before after : List Site} {site : Site}
    (split : sites inserted labels ps = before ++ site :: after) :
    site.placement ∈ ps ∧ position + 2 * before.countP Site.grows ≤ site.placement.address := by
  induction ps generalizing position inserted labels before with
  | nil => exact absurd split (by simp [sites])
  | cons p rest ih =>
    rw [sites] at split
    have begins : position ≤ p.address := ascends.1
    cases before with
    | nil =>
      obtain ⟨rfl, _⟩ := List.cons.inj split
      exact ⟨List.mem_cons_self, by simpa using begins⟩
    | cons first before =>
      obtain ⟨rfl, split_rest⟩ := List.cons.inj split
      obtain ⟨member, room⟩ := ih ascends.2
        (fun q member => shaped q (List.mem_cons_of_mem p member)) split_rest
      refine ⟨List.mem_cons_of_mem p member, ?_⟩
      have le : p.address ≤ p.stop := Nat.le_add_right _ _
      rw [List.countP_cons]
      split
      next grown =>
        have two : p.address + 2 ≤ p.stop :=
          Site.two_le_of_grows (shaped p List.mem_cons_self) grown
        omega
      · omega

/-- **The cells of a site stand where the site starts.** -/
theorem spell_split (size : Nat) {position inserted : Nat} {labels : LabelTable}
    {ps : List Placement}
    (ascends : Ascending position ps) (shaped : ∀ p ∈ ps, p.Shaped) (defined : Resolvable labels ps)
    {before after : List Site} {site : Site}
    (split : sites inserted labels ps = before ++ site :: after) :
    ∃ front back, spell size position (sites inserted labels ps) = front ++ (site.cells ++ back) ∧
      position + inserted + front.length = site.start := by
  induction ps generalizing position inserted labels before with
  | nil => exact absurd split (by simp [sites])
  | cons p rest ih =>
    have begins : position ≤ p.address := ascends.1
    rw [sites] at split ⊢
    cases before with
    | nil =>
      obtain ⟨rfl, _⟩ := List.cons.inj split
      refine ⟨List.replicate (p.address - position) Memory.erased, _, rfl, ?_⟩
      rw [List.length_replicate]
      show _ = p.address + inserted
      omega
    | cons first before =>
      obtain ⟨rfl, split_rest⟩ := List.cons.inj split
      obtain ⟨front, back, spelled, start_eq⟩ := ih ascends.2
        (fun q member => shaped q (List.mem_cons_of_mem p member)) (defined.tail inserted)
          split_rest
      refine ⟨List.replicate (p.address - position) Memory.erased
        ++ (Site.cells ⟨p, inserted, labels⟩ ++ front), back, ?_, ?_⟩
      · rw [spell, spelled]
        simp only [List.append_assoc]
      · have length_eq := Site.length_cells (shaped p List.mem_cons_self) (defined.head inserted)
        rw [← start_eq, List.length_append, List.length_append, List.length_replicate, length_eq]
        simp only [Site.insertedAfter, Placement.stop]
        omega

theorem map_placement_sites (inserted : Nat) (labels : LabelTable) (ps : List Placement) :
    (sites inserted labels ps).map Site.placement = ps := by
  induction ps generalizing inserted labels with
  | nil => rfl
  | cons p rest ih => rw [sites, List.map_cons, ih]

/-- Of two sites, the one at the lower address comes first. -/
theorem prefix_of_address_lt {inserted : Nat} {labels : LabelTable} {ps : List Placement}
    {position : Nat} (ascends : Ascending position ps) {before after before' after' : List Site}
    {site there : Site} (split : sites inserted labels ps = before ++ site :: after)
    (split' : sites inserted labels ps = before' ++ there :: after')
    (lt : site.placement.address < there.placement.address) : before ++ [site] <+: before' := by
  have ordered : (sites inserted labels ps).Pairwise
      fun a b => a.placement.stop ≤ b.placement.address := by
    have placed : ((sites inserted labels ps).map Site.placement).Pairwise
        fun p q => p.stop ≤ q.address := by
      rw [map_placement_sites]
      exact ascends.pairwise_le
    exact List.pairwise_map.1 placed
  rcases List.append_eq_append_iff.1 (split.symm.trans split') with
    ⟨between, rfl, rest_eq⟩ | ⟨between, rfl, rest_eq⟩
  · cases between with
    | nil =>
      obtain ⟨rfl, _⟩ := List.cons.inj rest_eq
      exact absurd lt (Nat.lt_irrefl _)
    | cons first between =>
      obtain ⟨rfl, _⟩ := List.cons.inj rest_eq
      exact ⟨between, by simp⟩
  · -- the other order would put the higher address first
    cases between with
    | nil =>
      obtain ⟨rfl, _⟩ := List.cons.inj rest_eq
      exact absurd lt (Nat.lt_irrefl _)
    | cons first between =>
      obtain ⟨rfl, _⟩ := List.cons.inj rest_eq
      rw [split] at ordered
      have le := (List.pairwise_append.1 ordered).2.2 there (by simp) site (by simp)
      have : there.placement.address ≤ there.placement.stop := Nat.le_add_right _ _
      omega

/-- After linking, the memory holds the cells of a site where the site starts. -/
theorem cellsIn_of_sites_split {size : Nat} {s : Assembler} {ps : List Placement}
    (ascends : Ascending 0 ps) (shaped : ∀ p ∈ ps, p.Shaped) (defined : Resolvable s.labels ps)
    {before after : List Site} {site : Site}
    (split : sites 0 s.labels ps = before ++ site :: after) :
    site.cellsIn (linkedState size ps s).memory = site.cells := by
  obtain ⟨front, back, spelled, start_eq⟩ := spell_split size ascends shaped defined split
  rw [Nat.zero_add] at start_eq
  show ((spell size 0 (sites 0 s.labels ps)).drop site.start).take site.cells.length = _
  rw [spelled, ← start_eq, List.drop_left, List.take_left]

/-- A jump that grows moves what stands behind it, and hence more than it moves its own label. -/
theorem countP_moves_lt {position inserted : Nat} {labels : LabelTable} {ps : List Placement}
    (ascends : Ascending position ps) {before after before' after' : List Site} {site there : Site}
    (split : sites inserted labels ps = before ++ site :: after)
    (split' : sites inserted labels ps = before' ++ there :: after')
    (lt : site.placement.address < there.placement.address) (grown : site.grows = true)
    (label : String) : before.countP (Site.moves label) < before'.countP Site.grows := by
  have more : (before ++ [site]).countP Site.grows ≤ before'.countP Site.grows :=
    (prefix_of_address_lt ascends split split' lt).sublist.countP_le
  rw [List.countP_append, List.countP_singleton, if_pos grown] at more
  have fewer := Site.countP_moves_le before label
  omega

/-- What a long jump holds: the address of its label, as far as that has been moved. -/
theorem long_cells_of_sites_split {labels : LabelTable} {ps : List Placement}
    (ascends : Ascending 0 ps) (shaped : ∀ p ∈ ps, p.Shaped) (fits : ∀ p ∈ ps, p.stop ≤ 65536)
    {before after : List Site} {site : Site} {label : String} {n : Nat}
    (split : sites 0 labels ps = before ++ site :: after) (long : site.IsLong)
    (labelled : site.placement.encoding.label = some label)
    (found : labels.find? label = some (n : Int)) (small : n < 65536) :
    before.countP (Site.moves label) < 32768 ∧
      ∃ opcode hi lo : Int, site.cells = [opcode, hi, lo] ∧
        (n + before.countP (Site.moves label) < 65536 →
          256 * hi + lo = n + before.countP (Site.moves label)) ∧
        (65536 ≤ n + before.countP (Site.moves label) →
          256 * hi + lo + 32768 ≤ n + before.countP (Site.moves label)) := by
  obtain ⟨member, room⟩ := address_of_sites_split ascends shaped split
  -- every jump that moves the label takes two cells before the site
  have ends := fits _ member
  have begins : site.placement.address < site.placement.stop :=
    Nat.lt_add_of_pos_right (List.length_pos_iff.2 (shaped _ member).nonempty)
  have fewer := Site.countP_moves_le before label
  have moved := (sites_split split).2 label
  rw [found] at moved
  obtain ⟨opcode, cells_eq⟩ := Site.cells_of_long (shaped _ member) labelled moved long
  obtain ⟨hi, lo, long_eq, inside, outside⟩ := longCells_natCast
    (show n + before.countP (Site.moves label) < 131072 by omega) opcode
  exact ⟨by omega, opcode, hi, lo, cells_eq.trans long_eq, inside, outside⟩

end Layout

/-! ## §3. Targets. -/

section Program

variable {text : String} {program : List Statement} {s linked : Assembler}

/-- **A long jump leads to the instruction behind its label exactly if both have moved equally
far**, and if that instruction still has an address of the processor.  The label has been moved by
the earlier jumps that grew and whose target lies below it; the instruction is moved by all the
jumps before it that grow.  So a jump that grows never leads to an instruction behind it, since it
moves that instruction but not its own label. -/
theorem long_jump_reaches_iff
    (parsed : Statement.parse (Source.lines text) = .ok program)
    (assembled : Assembler.assemble program Assembler.fresh = .ok () s)
    (forward : Layout.Forward (Statement.bodies program))
    (quiet : Layout.Quiet (Statement.bodies program))
    (built : Assembler.build text Assembler.fresh = .ok () linked)
    {before after before' after' : List Site} {site there : Site} {label : String}
    (split : Layout.sites 0 s.labels (Layout.placements (Statement.bodies program))
      = before ++ site :: after)
    (split' : Layout.sites 0 s.labels (Layout.placements (Statement.bodies program))
      = before' ++ there :: after')
    (long : site.IsLong) (labelled : site.placement.encoding.label = some label)
    (follows : [(there.placement.address, .define label),
      (there.placement.address, .emit there.placement.mnemonic there.placement.encoding)]
        <:+: Layout.timeline (Statement.bodies program)) :
    there.cellsIn linked.memory = there.cells ∧
      ∃ opcode hi lo : Int, site.cellsIn linked.memory = [opcode, hi, lo] ∧
        (256 * hi + lo = there.start ↔
          before.countP (Site.moves label) = before'.countP Site.grows ∧ there.start < 65536) ∧
        (site.grows = true → site.placement.address < there.placement.address →
          256 * hi + lo ≠ there.start) := by
  have leaves := Layout.leaves_of_assemble assembled
  have links : Assembler.link s = .ok () linked := by
    rw [← Assembler.build_eq_link parsed assembled]
    exact built
  have defined := leaves.defined_of_link forward quiet links
  obtain rfl : _ = linked := (EStateM.Result.ok.inj
    ((leaves.link_eq forward quiet defined).symm.trans links)).2
  rw [leaves.references] at defined
  have shaped : ∀ p ∈ Layout.placements (Statement.bodies program), p.Shaped :=
    fun _ => Layout.shaped_of_mem_placements
  have ascends := forward.ascending
  -- the label and the instruction behind it begin at the same address
  have found : s.labels.find? label = some (there.placement.address : Int) := by
    rw [leaves.labels]
    have moment := follows.subset List.mem_cons_self
    exact ⟨there.placement.address, List.mem_filterMap.2 ⟨_, moment, rfl⟩, rfl⟩
  have start_eq : there.start = there.placement.address + before'.countP Site.grows := by
    rw [Site.start, (Layout.sites_split split').1, Nat.zero_add]
  have small : there.placement.address < 65536 := by
    have member := (Layout.address_of_sites_split ascends shaped split').1
    have fits : there.placement.stop ≤ 65536 := leaves.fits _ member
    have nonempty := List.length_pos_iff.2 (shaped _ member).nonempty
    unfold Placement.stop at fits
    omega
  obtain ⟨few, opcode, hi, lo, cells_eq, inside, outside⟩ := Layout.long_cells_of_sites_split
    ascends shaped leaves.fits split long labelled found small
  have reaches_iff : 256 * hi + lo = there.start ↔
      before.countP (Site.moves label) = before'.countP Site.grows ∧ there.start < 65536 := by
    rw [start_eq]
    constructor
    · intro reaches
      constructor <;> omega
    · rintro ⟨same, below⟩
      omega
  refine ⟨Layout.cellsIn_of_sites_split ascends shaped defined split', opcode, hi, lo, ?_,
    reaches_iff, ?_⟩
  · rw [Layout.cellsIn_of_sites_split ascends shaped defined split, cells_eq]
  · intro grown lt reaches
    have fewer := Layout.countP_moves_lt ascends split split' lt grown label
    have same := (reaches_iff.1 reaches).1
    omega

/-- A program that is placed, and whose labels are all defined, is built as its sites say. -/
theorem exists_linked {labels : LabelTable}
    (parsed : Statement.parse (Source.lines text) = .ok program)
    (accepted : Layout.Accepted (Statement.bodies program))
    (fits : ∀ p ∈ Layout.placements (Statement.bodies program), p.stop ≤ 65536)
    (distinct : ((Layout.definitions (Statement.bodies program)).map Prod.fst).Nodup)
    (forward : Layout.Forward (Statement.bodies program))
    (quiet : Layout.Quiet (Statement.bodies program))
    (labels_eq : (Layout.definitions (Statement.bodies program)).foldl
      (fun table entry => table.insert entry.1 entry.2) LabelTable.empty = labels)
    (defined : ∀ reference ∈ Layout.references (Layout.placements (Statement.bodies program)),
      (labels.find? reference.label).isSome = true) :
    ∃ s, Assembler.assemble program Assembler.fresh = .ok () s ∧ s.labels = labels ∧
      Assembler.build text Assembler.fresh =
        .ok () (Layout.linkedState 65536 (Layout.placements (Statement.bodies program)) s) := by
  obtain ⟨s, assembled⟩ := Layout.assemble_of_accepted (show 65536 ≤ Memory.maxAddress by decide)
    accepted fits distinct
  have leaves := Layout.leaves_of_assemble assembled
  have table : s.labels = labels := (Layout.labels_of_assemble assembled).trans labels_eq
  refine ⟨s, assembled, table, (Assembler.build_eq_link parsed assembled).trans ?_⟩
  refine leaves.link_eq forward quiet ?_
  rw [table, leaves.references]
  exact defined

/-- A jump that grows, and behind it a long jump to the second of two labels in another block. -/
def lastSource : String :=
  " JMP FAR\n LJMP LAST\n ORG 2048\nFAR:\n RET\nLAST:\n RETI"

/-- Its statements. -/
def lastProgram : List Statement :=
  [⟨1, .operation "JMP" ["FAR"]⟩, ⟨2, .operation "LJMP" ["LAST"]⟩, ⟨3, .operation "ORG" ["2048"]⟩,
   ⟨4, .label "FAR"⟩, ⟨5, .operation "RET" [""]⟩, ⟨6, .label "LAST"⟩, ⟨7, .operation "RETI" [""]⟩]

/-- Its labels. -/
def lastLabels : LabelTable :=
  ⟨[("LAST", 2049), ("FAR", 2048)]⟩

/-- Its instructions; the first one has moved the others and the second label. -/
def lastSites : List Site :=
  [⟨⟨0, "JMP", ⟨[placeholder, placeholder], some ⟨"JMP", "FAR"⟩, false⟩⟩, 0, lastLabels⟩,
   ⟨⟨2, "LJMP", ⟨[placeholder, placeholder, placeholder], some ⟨"LJMP", "LAST"⟩, false⟩⟩, 1,
    lastLabels.shiftAbove 2048⟩,
   ⟨⟨2048, "RET", ⟨[0x22], none, false⟩⟩, 1, lastLabels.shiftAbove 2048⟩,
   ⟨⟨2049, "RETI", ⟨[0x32], none, false⟩⟩, 1, lastLabels.shiftAbove 2048⟩]

/-- The long jump leads to the instruction behind its label: both have been moved by the jump in
front. -/
theorem long_jump_reaches_last :
    Statement.parse (Source.lines lastSource) = .ok lastProgram ∧
      ∃ linked, Assembler.build lastSource Assembler.fresh = .ok () linked ∧
        (linked.memory.cells.toList.drop 2050).take 1 = [0x32] ∧
        ∃ opcode hi lo : Int, (linked.memory.cells.toList.drop 3).take 3 = [opcode, hi, lo] ∧
          256 * hi + lo = 2050 := by
  have parsed : Statement.parse (Source.lines lastSource) = .ok lastProgram := by decide +kernel
  have forward : Layout.Forward (Statement.bodies lastProgram) := by decide +kernel
  have quiet : Layout.Quiet (Statement.bodies lastProgram) := by decide +kernel
  obtain ⟨s, assembled, labels_eq, built⟩ := exists_linked parsed (by decide +kernel)
    (by decide +kernel) (by decide +kernel) forward quiet
    (show _ = lastLabels by decide +kernel) (by decide +kernel)
  have split : Layout.sites 0 s.labels (Layout.placements (Statement.bodies lastProgram))
      = lastSites := by
    rw [labels_eq]
    decide +kernel
  obtain ⟨arrived, opcode, hi, lo, cells_eq, reaches_iff, _⟩ :=
    long_jump_reaches_iff parsed assembled forward quiet built
      (show _ = lastSites.take 1 ++ _ :: _ from split)
        (show _ = lastSites.take 3 ++ _ :: _ from split)
      (Or.inl rfl) rfl (by decide +kernel)
  refine ⟨parsed, _, built, arrived, opcode, hi, lo, cells_eq, ?_⟩
  exact reaches_iff.2 (by decide +kernel)

/-- A jump to the first address of a block farther on. -/
def farSource : String :=
  "JMP L\nORG 4096\nL:\nNOP"

/-- Its statements. -/
def farProgram : List Statement :=
  [⟨1, .operation "JMP" ["L"]⟩, ⟨2, .operation "ORG" ["4096"]⟩, ⟨3, .label "L"⟩,
   ⟨4, .operation "NOP" [""]⟩]

/-- Its instructions.  The label stays at the target, and the instruction behind it moves. -/
def farSites : List Site :=
  [⟨⟨0, "JMP", ⟨[placeholder, placeholder], some ⟨"JMP", "L"⟩, false⟩⟩, 0, ⟨[("L", 4096)]⟩⟩,
   ⟨⟨4096, "NOP", ⟨[0x01], none, false⟩⟩, 1, ⟨[("L", 4096)]⟩⟩]

/-- **A jump that grows misses its label.**  It leads to address 4096, but the instruction behind
the label has moved to address 4097. -/
theorem grown_jump_misses_label :
    Statement.parse (Source.lines farSource) = .ok farProgram ∧
      Layout.Forward (Statement.bodies farProgram) ∧ Layout.Quiet (Statement.bodies farProgram) ∧
      [(4096, .define "L"), (4096, .emit "NOP" ⟨[0x01], none, false⟩)]
        <:+: Layout.timeline (Statement.bodies farProgram) ∧
      ∃ s linked, Assembler.assemble farProgram Assembler.fresh = .ok () s ∧
        (∀ reference ∈ s.references, (s.labels.find? reference.label).isSome = true) ∧
        Assembler.build farSource Assembler.fresh = .ok () linked ∧
        (linked.memory.cells.toList.drop 0).take 3 = [0x02, 0x10, 0x00] ∧
        (linked.memory.cells.toList.drop 4097).take 1 = [0x01] ∧
        (256 * 0x10 + 0x00 : Int) ≠ 4097 := by
  have parsed : Statement.parse (Source.lines farSource) = .ok farProgram := by decide +kernel
  have forward : Layout.Forward (Statement.bodies farProgram) := by decide +kernel
  have quiet : Layout.Quiet (Statement.bodies farProgram) := by decide +kernel
  have known : ∀ reference ∈ Layout.references (Layout.placements (Statement.bodies farProgram)),
      ((⟨[("L", 4096)]⟩ : LabelTable).find? reference.label).isSome = true := by decide +kernel
  obtain ⟨s, assembled, labels_eq, built⟩ := exists_linked parsed (by decide +kernel)
    (by decide +kernel) (by decide +kernel) forward quiet (by decide +kernel) known
  have split : Layout.sites 0 s.labels (Layout.placements (Statement.bodies farProgram))
      = farSites := by
    rw [labels_eq]
    decide +kernel
  have defined : Layout.Resolvable s.labels (Layout.placements (Statement.bodies farProgram)) := by
    rw [labels_eq]
    exact known
  have shaped : ∀ p ∈ Layout.placements (Statement.bodies farProgram), p.Shaped :=
    fun _ => Layout.shaped_of_mem_placements
  have noted := (Layout.leaves_of_assemble assembled).references
  refine ⟨parsed, forward, quiet, by decide +kernel, s, _, assembled, ?_, built, ?_, ?_, by decide⟩
  · rw [noted]
    exact defined
  · exact Layout.cellsIn_of_sites_split forward.ascending shaped defined
      (show _ = farSites.take 0 ++ _ :: _ from split)
  · exact Layout.cellsIn_of_sites_split forward.ascending shaped defined
      (show _ = farSites.take 1 ++ _ :: _ from split)

end Program

end Mcs51
