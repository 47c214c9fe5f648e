/-
  Mcs51.Proofs.Growth — linking when jumps may grow.

  A flexible jump to another block takes one cell more than it has placeholders.  From then on the
  rest of the memory stands one cell higher, and some of the labels are moved.  So an instruction is
  linked at a site: at its address, behind the cells that were inserted before it, with the labels
  as far as they have been moved.  Sites are computed from the placements alone, and they spell out
  the whole memory after linking.

  Main definitions:
    * `Linking.Uses` : the references that a search uses, in order;
    * `Site`, `Layout.sites` : instructions as the search comes to them;
    * `Layout.spell` : the memory that sites leave.

  Main statements:
    * `Linking.scan_of_site`, `Linking.scan_sites` : the search over one site, and over all of them;
    * `Linking.scan_of_undefined` : the search stops at the first label that is not defined;
    * `link_reports_first_undefined` : linking succeeds exactly if all labels are defined.
-/
import Mcs51.Proofs.Resolution

namespace Mcs51

/-! ## §1. The references that a search uses. -/

namespace Linking

/-- **The search uses these references on its way to the end**, each as often as it is listed and in
this order.  A reference is used when a patch is put in place for it. -/
inductive Uses : Nat → List Int → Linking → List Reference → Linking → Prop where
  /-- No cells are left. -/
  | finish (covered : Nat) (linking : Linking) : Uses covered [] linking [] linking
  /-- The next cell is covered by a patch. -/
  | pass {covered : Nat} {cell : Int} {ahead : List Int} {linking final : Linking}
      {used : List Reference} (later : Uses covered ahead linking used final) :
      Uses (covered + 1) (cell :: ahead) linking used final
  /-- The next cell is no placeholder. -/
  | keep {cell : Int} {ahead : List Int} {linking final : Linking} {used : List Reference}
      (plain : cell ≠ (placeholder : Int)) (later : Uses 0 ahead (linking.keep [cell]) used final) :
      Uses 0 (cell :: ahead) linking used final
  /-- The next cell is a placeholder, but the next reference cannot be linked. -/
  | leave {ahead : List Int} {linking final : Linking} {used pending : List Reference}
      {reference : Reference} (next : linking.pending = reference :: pending)
      (unknown : LinkKind.ofMnemonic? reference.mnemonic = none)
      (later : Uses 0 ahead (linking.keep [(placeholder : Int)]) used final) :
      Uses 0 ((placeholder : Int) :: ahead) linking used final
  /-- The next cell is a placeholder, and the next reference is used for it. -/
  | fill {ahead : List Int} {linking final : Linking} {used pending : List Reference}
      {reference : Reference} {kind : LinkKind} {address : Int}
      (next : linking.pending = reference :: pending)
      (known : LinkKind.ofMnemonic? reference.mnemonic = some kind)
      (found : linking.labels.find? reference.label = some address)
      (later : Uses (kind.width - 1) ahead
        (linking.apply (kind.patch linking.done.size address) address pending) used final) :
      Uses 0 ((placeholder : Int) :: ahead) linking (reference :: used) final

/-- **A search comes to its end by using references**, and in no other way. -/
theorem scan_eq_ok_iff {covered : Nat} {ahead : List Int} {linking final : Linking} :
    scan covered ahead linking = .ok () final ↔ ∃ used, Uses covered ahead linking used final := by
  constructor
  · intro h
    induction ahead generalizing covered linking with
    | nil =>
      have same : linking = final := by
        rw [scan] at h
        exact (EStateM.Result.ok.inj h).2
      exact ⟨[], same ▸ .finish covered linking⟩
    | cons cell rest ih =>
      cases covered with
      | succ covered =>
        obtain ⟨used, later⟩ := ih h
        exact ⟨used, .pass later⟩
      | zero =>
        by_cases here : cell = (placeholder : Int)
        · subst here
          rw [scan, if_neg (by simp)] at h
          cases next : linking.pending with
          | nil =>
            rw [next] at h
            exact absurd h (by simp)
          | cons reference pending =>
            simp only [next] at h
            cases known : LinkKind.ofMnemonic? reference.mnemonic with
            | none =>
              simp only [known] at h
              obtain ⟨used, later⟩ := ih h
              exact ⟨used, .leave next known later⟩
            | some kind =>
              cases found : linking.labels.find? reference.label with
              | none =>
                simp only [known, found] at h
                exact absurd h (by simp)
              | some address =>
                simp only [known, found, LinkKind.covers_patch] at h
                obtain ⟨used, later⟩ := ih h
                exact ⟨reference :: used, .fill next known found later⟩
        · rw [scan, if_pos here] at h
          obtain ⟨used, later⟩ := ih h
          exact ⟨used, .keep here later⟩
  · rintro ⟨used, uses⟩
    induction uses with
    | finish covered linking => rw [scan]
    | pass later ih => exact ih
    | keep plain later ih => rwa [scan, if_pos plain]
    | leave next unknown later ih =>
      rw [scan, if_neg (by simp), next]
      simpa only [unknown] using ih
    | fill next known found later ih => rwa [scan_cons_placeholder _ next known found]

/-- References are used in the order in which they are pending, and none is used twice. -/
theorem Uses.pending_eq {covered : Nat} {ahead : List Int} {linking final : Linking}
    {used : List Reference} (h : Uses covered ahead linking used final) :
    linking.pending = used ++ final.pending := by
  induction h with
  | finish covered linking => rfl
  | pass later ih => exact ih
  | keep plain later ih => exact ih
  | leave next unknown later ih => exact ih
  | fill next known found later ih => rw [next, List.cons_append, ← ih]; rfl

end Linking

/-! ## §2. Sites. -/

/-- A patch is as long as what it replaces, or longer by one cell. -/
theorem LinkKind.length_cells_patch (kind : LinkKind) (position : Nat) (address : Int) :
    (kind.patch position address).cells.length =
      kind.width + if (kind.patch position address).grows = true then 1 else 0 := by
  cases kind with
  | relative | absolute _ | long _ => rfl
  | flexible =>
    unfold LinkKind.patch
    dsimp only
    split <;> rfl

/-- An instruction as the search comes to it. -/
structure Site where
  /-- The instruction, at its address in the program. -/
  placement : Placement
  /-- The number of cells that have been inserted before it. -/
  inserted : Nat
  /-- The labels, as far as they have been moved. -/
  labels : LabelTable
  deriving Repr, DecidableEq

namespace Site

/-- The address of the first cell after linking. -/
def start (site : Site) : Nat :=
  site.placement.address + site.inserted

/-- The address that the label of the instruction has by then. -/
def target? (site : Site) : Option Int :=
  site.placement.encoding.label.bind site.labels.find?

/-- What replaces the placeholders of the instruction. -/
def patch? (site : Site) : Option Patch :=
  match LinkKind.ofMnemonic? site.placement.mnemonic, site.target? with
  | some kind, some address => some (kind.patch (site.start + site.placement.fixed.length) address)
  | _, _ => none

/-- The cells of the instruction after linking. -/
def cells (site : Site) : List Int :=
  Assembler.asStored site.placement.fixed ++ (site.patch?.map Patch.cells).getD []

/-- Is a cell inserted for the instruction? -/
def grows (site : Site) : Bool :=
  site.patch?.any Patch.grows

/-- The number of inserted cells behind the instruction. -/
def insertedAfter (site : Site) : Nat :=
  site.inserted + if site.grows = true then 1 else 0

/-- The labels behind the instruction. -/
def labelsAfter (site : Site) : LabelTable :=
  match site.target? with
  | some address => if site.grows = true then site.labels.shiftAbove address else site.labels
  | none => site.labels

/-- Is the label of the instruction defined, if there is one? -/
def Defined (site : Site) : Prop :=
  ∀ label, site.placement.encoding.label = some label → (site.labels.find? label).isSome = true

/-- The cells of a memory where the instruction stands after linking. -/
def cellsIn (memory : Memory) (site : Site) : List Int :=
  (memory.cells.toList.drop site.start).take site.cells.length

section Patch

variable {site : Site} {label : String} {kind : LinkKind} {address : Int}

theorem target?_of_label (labelled : site.placement.encoding.label = some label)
    (found : site.labels.find? label = some address) : site.target? = some address := by
  simp [target?, labelled, found]

theorem patch?_of_label (labelled : site.placement.encoding.label = some label)
    (known : LinkKind.ofMnemonic? site.placement.mnemonic = some kind)
    (found : site.labels.find? label = some address) :
    site.patch? = some (kind.patch (site.start + site.placement.fixed.length) address) := by
  simp [patch?, known, target?_of_label labelled found]

/-- Without a label there is nothing to replace. -/
theorem patch?_of_label_none (plain : site.placement.encoding.label = none) :
    site.patch? = none := by
  simp [patch?, target?, plain]

/-- An instruction has the cells it was placed with, and the one that is inserted for it. -/
theorem length_cells (shaped : site.placement.Shaped) (defined : site.Defined) :
    site.cells.length =
      site.placement.encoding.cells.length + if site.grows = true then 1 else 0 := by
  rw [Placement.length_cells shaped]
  cases labelled : site.placement.encoding.label with
  | none =>
    simp [cells, grows, patch?_of_label_none labelled, Placement.waiting,
      Encoding.waiting, labelled,
      Assembler.asStored]
  | some label =>
    obtain ⟨kind, known⟩ := Option.isSome_iff_exists.1 (shaped.linked label labelled)
    obtain ⟨address, found⟩ := Option.isSome_iff_exists.1 (defined label labelled)
    have patched := patch?_of_label labelled known found
    have waits : site.placement.waiting = kind.width := by
      simp [Placement.waiting, Encoding.waiting, labelled, known]
    have length_eq := kind.length_cells_patch (site.start + site.placement.fixed.length) address
    simp only [cells, grows, patched, waits, Option.map_some, Option.getD_some, Option.any_some,
      List.length_append, length_eq, Assembler.asStored, List.length_map]
    omega

end Patch

/-- Linking an instruction defines no label and loses none. -/
theorem isSome_find?_labelsAfter (site : Site) (label : String) :
    (site.labelsAfter.find? label).isSome = (site.labels.find? label).isSome := by
  unfold labelsAfter
  split
  · split
    · rw [LabelTable.find?_shiftAbove, Option.isSome_map]
    · rfl
  · rfl

end Site

namespace Layout

/-- The placements as the search comes to them, one after the other. -/
def sites (inserted : Nat) (labels : LabelTable) : List Placement → List Site
  | [] => []
  | p :: rest =>
    ⟨p, inserted, labels⟩ ::
      sites (Site.insertedAfter ⟨p, inserted, labels⟩) (Site.labelsAfter ⟨p, inserted, labels⟩) rest

/-- The labels behind the last of the placements. -/
def labelsBehind (inserted : Nat) (labels : LabelTable) : List Placement → LabelTable
  | [] => labels
  | p :: rest =>
    labelsBehind (Site.insertedAfter ⟨p, inserted, labels⟩)
      (Site.labelsAfter ⟨p, inserted, labels⟩) rest

/-- The cells from a position to the end of a linked memory: those of the sites, and erased cells
between them. -/
def spell (size position : Nat) : List Site → List Int
  | [] => List.replicate (size - position) Memory.erased
  | site :: rest =>
    List.replicate (site.placement.address - position) Memory.erased
      ++ (site.cells ++ spell size site.placement.stop rest)

/-- All labels that the placements refer to are defined. -/
def Resolvable (labels : LabelTable) (ps : List Placement) : Prop :=
  ∀ reference ∈ references ps, (labels.find? reference.label).isSome = true

variable {labels : LabelTable} {p : Placement} {rest : List Placement}

theorem Resolvable.head (h : Resolvable labels (p :: rest)) (inserted : Nat) :
    Site.Defined ⟨p, inserted, labels⟩ := by
  intro label labelled
  refine h ⟨p.mnemonic, label⟩ ?_
  rw [references_cons_some labelled]
  exact List.mem_cons_self

/-- Linking the first of the placements keeps the labels of the others. -/
theorem Resolvable.tail (h : Resolvable labels (p :: rest)) (inserted : Nat) :
    Resolvable (Site.labelsAfter ⟨p, inserted, labels⟩) rest := by
  intro reference member
  rw [Site.isSome_find?_labelsAfter]
  refine h reference ?_
  cases labelled : p.encoding.label with
  | none =>
    rw [references_cons_none labelled]
    exact member
  | some label =>
    rw [references_cons_some labelled]
    exact List.mem_cons_of_mem _ member

end Layout

/-! ## §3. The search over sites. -/

namespace Linking

open Layout

/-- **Step**: the search over one instruction leaves the cells of its site. -/
theorem scan_of_site (site : Site) {done : Array Int} (shaped : site.placement.Shaped)
    (quiet : placeholder ∉ site.placement.fixed) (defined : site.Defined)
    (reached : done.size = site.start) (ahead : List Int) (later : List Placement) :
    scan 0 (site.placement.stored ++ ahead)
        ⟨done, site.labels, references (site.placement :: later)⟩ =
      scan 0 ahead ⟨done ++ site.cells, site.labelsAfter, references later⟩ := by
  rw [scan_fixed shaped quiet]
  cases labelled : site.placement.encoding.label with
  | none =>
    -- no label, hence no placeholders and no reference
    have none_waits : site.placement.waiting = 0 := by
      simp [Placement.waiting, Encoding.waiting, labelled]
    have plain : site.cells = Assembler.asStored site.placement.fixed := by
      simp [Site.cells, Site.patch?_of_label_none labelled]
    have stay : site.labelsAfter = site.labels := by
      simp [Site.labelsAfter, Site.target?, labelled]
    rw [none_waits, references_cons_none labelled, plain, stay]
    rfl
  | some label =>
    obtain ⟨kind, known⟩ := Option.isSome_iff_exists.1 (shaped.linked label labelled)
    obtain ⟨address, found⟩ := Option.isSome_iff_exists.1 (defined label labelled)
    have patched := Site.patch?_of_label labelled known found
    have waits : site.placement.waiting = kind.width := by
      simp [Placement.waiting, Encoding.waiting, labelled, known]
    have position : (done ++ Assembler.asStored site.placement.fixed).size
        = site.start + site.placement.fixed.length := by
      rw [size_appendList, reached]
      simp [Assembler.asStored]
    rw [waits, references_cons_some labelled]
    show scan 0 _ ⟨done ++ Assembler.asStored site.placement.fixed, site.labels,
      ⟨site.placement.mnemonic, label⟩ :: references later⟩ = _
    rw [scan_site ⟨done ++ Assembler.asStored site.placement.fixed, site.labels,
          ⟨site.placement.mnemonic, label⟩ :: references later⟩ rfl known found ahead]
    -- the patch moves labels exactly if the site grows
    simp only [apply, position, Site.labelsAfter, Site.target?_of_label labelled found, Site.grows,
      Site.cells, patched, Option.map_some, Option.getD_some, Option.any_some, appendList_append]

/-- The search over the gap before an instruction, and over the instruction. -/
theorem scan_render_cons (size : Nat) {labels : LabelTable} {position inserted : Nat}
    {p : Placement}
    {done : Array Int} (begins : position ≤ p.address) (shaped : p.Shaped)
    (quiet : placeholder ∉ p.fixed) (defined : Site.Defined ⟨p, inserted, labels⟩)
    (reached : done.size = position + inserted) (rest : List Placement) :
    ∃ next : Array Int,
      next = done ++ List.replicate (p.address - position) Memory.erased
        ++ Site.cells ⟨p, inserted, labels⟩ ∧
      next.size = p.stop + Site.insertedAfter ⟨p, inserted, labels⟩ ∧
      scan 0 (render Placement.stored size position (p :: rest))
          ⟨done, labels, references (p :: rest)⟩ =
        scan 0 (render Placement.stored size p.stop rest)
          ⟨next, Site.labelsAfter ⟨p, inserted, labels⟩, references rest⟩ := by
  have gap_reached : (done ++ List.replicate (p.address - position) Memory.erased).size
      = Site.start ⟨p, inserted, labels⟩ := by
    rw [size_appendList, List.length_replicate, reached]
    show position + inserted + (p.address - position) = p.address + inserted
    omega
  refine ⟨_, rfl, ?_, ?_⟩
  · rw [size_appendList, gap_reached, Site.length_cells shaped defined]
    simp only [Site.start, Site.insertedAfter, Placement.stop]
    omega
  · simp only [render]
    rw [scan_keep (quiet_gap (p.address - position))]
    exact scan_of_site ⟨p, inserted, labels⟩ shaped quiet defined gap_reached
      (render Placement.stored size p.stop rest) rest

/-- **Run**: the search over ascending placements leaves the memory that their sites spell out. -/
theorem scan_sites {labels : LabelTable} {size position inserted : Nat} {ps : List Placement}
    {done : Array Int} (ascends : Ascending position ps) (shaped : ∀ p ∈ ps, p.Shaped)
    (quiet : ∀ p ∈ ps, placeholder ∉ p.fixed) (defined : Resolvable labels ps)
    (reached : done.size = position + inserted) :
    scan 0 (render Placement.stored size position ps) ⟨done, labels, references ps⟩ =
      .ok () ⟨done ++ spell size position (sites inserted labels ps),
        labelsBehind inserted labels ps, []⟩ := by
  induction ps generalizing position inserted labels done with
  | nil =>
    have kept := scan_keep (quiet_gap (size - position)) [] ⟨done, labels, []⟩
    rw [List.append_nil] at kept
    exact kept
  | cons p rest ih =>
    obtain ⟨next, rfl, next_reached, step⟩ := scan_render_cons size ascends.1
      (shaped p List.mem_cons_self) (quiet p List.mem_cons_self) (defined.head inserted)
        reached rest
    have others := ih ascends.2
      (fun q member => shaped q (List.mem_cons_of_mem p member))
      (fun q member => quiet q (List.mem_cons_of_mem p member)) (defined.tail inserted) next_reached
    rw [step, others, appendList_append, appendList_append]
    rfl

/-! ## §4. Labels that are not defined. -/

/-- The search stops at an instruction whose label is not defined. -/
theorem scan_of_undefined_site {p : Placement} {label : String} (shaped : p.Shaped)
    (quiet : placeholder ∉ p.fixed) (labelled : p.encoding.label = some label) {labels : LabelTable}
    (undefined : labels.find? label = none) (done : Array Int) (ahead : List Int)
    (later : List Placement) :
    ∃ stopped, scan 0 (p.stored ++ ahead) ⟨done, labels, references (p :: later)⟩ =
      .error (.reported (.undefinedLabel label)) stopped := by
  obtain ⟨kind, known⟩ := Option.isSome_iff_exists.1 (shaped.linked label labelled)
  -- there is at least one placeholder, and the search asks for the label there
  obtain ⟨more, waits⟩ : ∃ more, p.waiting = more + 1 := by
    have pos := kind.width_pos
    refine ⟨kind.width - 1, ?_⟩
    simp only [Placement.waiting, Encoding.waiting, labelled, known]
    omega
  rw [scan_fixed shaped quiet, waits, List.replicate_succ, List.cons_append,
      references_cons_some labelled, scan, if_neg (by simp)]
  simp only [keep, known, undefined]
  exact ⟨_, rfl⟩

/-- **Run**: the search stops at the first reference whose label is not defined. -/
theorem scan_of_undefined {labels : LabelTable} {size position inserted : Nat} {ps : List Placement}
    {done : Array Int} (ascends : Ascending position ps) (shaped : ∀ p ∈ ps, p.Shaped)
    (quiet : ∀ p ∈ ps, placeholder ∉ p.fixed) (reached : done.size = position + inserted)
    {before after : List Reference} {reference : Reference}
    (split : references ps = before ++ reference :: after)
    (defined : ∀ earlier ∈ before, (labels.find? earlier.label).isSome = true)
    (undefined : labels.find? reference.label = none) :
    ∃ stopped, scan 0 (render Placement.stored size position ps) ⟨done, labels, references ps⟩ =
      .error (.reported (.undefinedLabel reference.label)) stopped := by
  induction ps generalizing position inserted labels done before with
  | nil => exact absurd split (by simp [references])
  | cons p rest ih =>
    have shaped_p := shaped p List.mem_cons_self
    have quiet_p := quiet p List.mem_cons_self
    -- behind an instruction that is linked the same references are left undefined
    have go_on : ∀ earlier : List Reference, references rest = earlier ++ reference :: after →
        (∀ other ∈ earlier, (labels.find? other.label).isSome = true) →
        Site.Defined ⟨p, inserted, labels⟩ →
        ∃ stopped, scan 0 (render Placement.stored size position (p :: rest))
            ⟨done, labels, references (p :: rest)⟩ =
          .error (.reported (.undefinedLabel reference.label)) stopped := by
      intro earlier split_rest defined_rest defined_p
      obtain ⟨next, _, next_reached, step⟩ :=
        scan_render_cons size ascends.1 shaped_p quiet_p defined_p reached rest
      have lost : (Site.labelsAfter ⟨p, inserted, labels⟩).find? reference.label = none := by
        rw [← Option.not_isSome_iff_eq_none, Site.isSome_find?_labelsAfter]
        simp [undefined]
      rw [step]
      refine ih ascends.2 (fun q member => shaped q (List.mem_cons_of_mem p member))
        (fun q member => quiet q (List.mem_cons_of_mem p member)) next_reached split_rest ?_ lost
      intro other member
      rw [Site.isSome_find?_labelsAfter]
      exact defined_rest other member
    cases labelled : p.encoding.label with
    | none =>
      rw [references_cons_none labelled] at split
      exact go_on before split defined
        (fun label some => absurd (labelled.symm.trans some) (by simp))
    | some label =>
      rw [references_cons_some labelled] at split
      cases before with
      | nil =>
        -- the first reference is the one without a label
        obtain ⟨rfl, _⟩ := List.cons.inj split
        simp only [render]
        rw [scan_keep (quiet_gap (p.address - position))]
        exact scan_of_undefined_site shaped_p quiet_p labelled undefined _ _ rest
      | cons first earlier =>
        obtain ⟨rfl, split_rest⟩ := List.cons.inj split
        refine go_on earlier split_rest
          (fun other member => defined other (List.mem_cons_of_mem _ member)) ?_
        intro other same
        obtain rfl : label = other := Option.some.inj (labelled.symm.trans same)
        exact defined ⟨p.mnemonic, label⟩ List.mem_cons_self

end Linking

/-! ## §5. Linking a program. -/

section Program

variable {size : Nat} {text : String} {program : List Statement} {s : Assembler}
  {bodies : List Body}

namespace Layout

/-- The labels after actions: those that are defined are entered, one after the other. -/
theorem labels_of_performAll {actions : List Action} {s t : Assembler} {counter : Nat}
    (at_counter : s.counter = counter) (shaped : ∀ action ∈ actions, action.Shaped)
    (h : Action.performAll actions s = .ok () t) :
    t.labels = ((timelineFrom counter actions).filterMap defined?).foldl
      (fun table entry => table.insert entry.1 entry.2) s.labels := by
  induction actions generalizing s counter with
  | nil =>
    obtain rfl : s = t := (EStateM.Result.ok.inj h).2
    rfl
  | cons action rest ih =>
    obtain ⟨_, u, first, others⟩ := Assembler.bind_eq_ok h
    obtain ⟨_, rfl⟩ := Action.perform_eq_ok at_counter (shaped action List.mem_cons_self) first
    rw [ih (Action.counter_apply at_counter action)
      (fun later member => shaped later (List.mem_cons_of_mem action member)) others]
    cases action with
    | define label => rfl
    | goTo address => rfl
    | emit mnemonic encoding => rfl

/-- The table of labels that a program leaves. -/
theorem labels_of_assemble
    (assembled : Assembler.assemble program (Assembler.ofSize size) = .ok () s) :
    s.labels = (definitions (Statement.bodies program)).foldl
      (fun table entry => table.insert entry.1 entry.2) LabelTable.empty := by
  have performed := (performAll_of_assemble assembled).2
  exact labels_of_performAll rfl (fun _ => shaped_of_mem_actions) performed

/-- The state that linking leaves behind. -/
def linkedState (size : Nat) (ps : List Placement) (s : Assembler) : Assembler :=
  { s with
    memory := ⟨(spell size 0 (sites 0 s.labels ps)).toArray⟩
    labels := labelsBehind 0 s.labels ps }

/-- The search over a program under both conditions, if all labels are defined. -/
theorem Leaves.scan_eq (leaves : Leaves size bodies s) (forward : Forward bodies)
    (quiet : Quiet bodies)
    (defined : ∀ reference ∈ s.references, (s.labels.find? reference.label).isSome = true) :
    Linking.scan 0 s.memory.cells.toList ⟨#[], s.labels, s.references⟩ =
      .ok () ⟨(spell size 0 (sites 0 s.labels (placements bodies))).toArray,
        labelsBehind 0 s.labels (placements bodies), []⟩ := by
  have done_eq : (#[] : Array Int) ++ spell size 0 (sites 0 s.labels (placements bodies))
      = (spell size 0 (sites 0 s.labels (placements bodies))).toArray :=
    Array.toList_inj.1 (by simp)
  rw [leaves.references] at defined ⊢
  rw [leaves.toList_cells forward, ← done_eq]
  exact Linking.scan_sites forward.ascending (fun _ => shaped_of_mem_placements) quiet defined rfl

/-- **Linking leaves what the sites spell out**, if all labels are defined. -/
theorem Leaves.link_eq (leaves : Leaves size bodies s) (forward : Forward bodies)
    (quiet : Quiet bodies)
    (defined : ∀ reference ∈ s.references, (s.labels.find? reference.label).isSome = true) :
    Assembler.link s = .ok () (linkedState size (placements bodies) s) := by
  unfold Assembler.link
  rw [leaves.scan_eq forward quiet defined]
  rfl

/-- References of which one is not defined have a first one. -/
theorem exists_first_undefined {labels : LabelTable} {references : List Reference}
    (some_undefined : ¬∀ reference ∈ references, (labels.find? reference.label).isSome = true) :
    ∃ before reference after, references = before ++ reference :: after ∧
      (∀ earlier ∈ before, (labels.find? earlier.label).isSome = true) ∧
      labels.find? reference.label = none := by
  induction references with
  | nil => exact absurd (fun _ member => absurd member List.not_mem_nil) some_undefined
  | cons first rest ih =>
    by_cases here : (labels.find? first.label).isSome = true
    · obtain ⟨before, reference, after, rfl, defined, undefined⟩ := ih fun rest_defined =>
        some_undefined (List.forall_mem_cons.2 ⟨here, rest_defined⟩)
      exact ⟨first :: before, reference, after, rfl, List.forall_mem_cons.2 ⟨here, defined⟩,
        undefined⟩
    · exact ⟨[], first, rest, rfl, fun _ member => absurd member List.not_mem_nil,
        Option.not_isSome_iff_eq_none.1 here⟩

/-- Linking stops at the first reference whose label is not defined. -/
theorem Leaves.link_of_undefined (leaves : Leaves size bodies s) (forward : Forward bodies)
    (quiet : Quiet bodies) {before after : List Reference} {reference : Reference}
    (split : s.references = before ++ reference :: after)
    (defined : ∀ earlier ∈ before, (s.labels.find? earlier.label).isSome = true)
    (undefined : s.labels.find? reference.label = none) :
    ∃ stopped, Assembler.link s =
      .error (.reported (.undefinedLabel reference.label)) stopped := by
  rw [leaves.references] at split
  obtain ⟨stopped, searched⟩ :
      ∃ stopped, Linking.scan 0 s.memory.cells.toList ⟨#[], s.labels, s.references⟩ =
        .error (.reported (.undefinedLabel reference.label)) stopped := by
    rw [leaves.toList_cells forward, leaves.references]
    exact Linking.scan_of_undefined forward.ascending (fun _ => shaped_of_mem_placements) quiet
      (show _ = 0 + 0 from rfl) split defined undefined
  refine ⟨s.withLinking stopped, ?_⟩
  unfold Assembler.link
  rw [searched]

/-- Linking succeeds only if all labels are defined. -/
theorem Leaves.defined_of_link (leaves : Leaves size bodies s) (forward : Forward bodies)
    (quiet : Quiet bodies) {linked : Assembler} (links : Assembler.link s = .ok () linked) :
    ∀ reference ∈ s.references, (s.labels.find? reference.label).isSome = true := by
  by_contra some_undefined
  obtain ⟨before, reference, after, split, defined, undefined⟩ :=
    exists_first_undefined some_undefined
  obtain ⟨stopped, stops⟩ := leaves.link_of_undefined forward quiet split defined undefined
  rw [stops] at links
  exact absurd links (by simp)

end Layout

/-- What is printed for a label that is not defined. -/
theorem Stop.outcome_undefinedLabel (label : String) :
    (Stop.reported (.undefinedLabel label)).outcome =
      ⟨"asm51: error: label: " ++ label ++ " not found.\n", .exited 1⟩ := by
  have opening : "asm51: error: label: " = "asm51: error: " ++ "label: " := by decide
  have closing : " not found.\n" = " not found." ++ "\n" := by decide
  show Outcome.mk ("asm51: error: " ++ ("label: " ++ label ++ " not found.") ++ "\n") _ = _
  rw [opening, closing]
  simp only [String.append_assoc]

/-- **Linking succeeds exactly if all labels are defined.**  If no origin goes back and no other
cell holds a placeholder, then linking uses every reference once, in the order in which they were
noted, or it is the first one without a label that is reported.  Flexible jumps may grow as often as
they like. -/
theorem link_reports_first_undefined
    (parsed : Statement.parse (Source.lines text) = .ok program)
    (assembled : Assembler.assemble program (Assembler.ofSize size) = .ok () s)
    (forward : Layout.Forward (Statement.bodies program))
    (quiet : Layout.Quiet (Statement.bodies program)) :
    ((∃ linked, Assembler.link s = .ok () linked) ↔
      ∀ reference ∈ s.references, (s.labels.find? reference.label).isSome = true) ∧
    (∀ linked, Assembler.link s = .ok () linked → ∃ final,
      Linking.Uses 0 s.memory.cells.toList ⟨#[], s.labels, s.references⟩ s.references final ∧
        final.pending = [] ∧ linked = s.withLinking final) ∧
    (∀ before reference after, s.references = before ++ reference :: after →
      (∀ earlier ∈ before, (s.labels.find? earlier.label).isSome = true) →
      s.labels.find? reference.label = none →
      (∃ stopped, Assembler.link s =
        .error (.reported (.undefinedLabel reference.label)) stopped) ∧
      ((Assembler.ofSize size).run text).outcome =
        ⟨"asm51: error: label: " ++ reference.label ++ " not found.\n", .exited 1⟩) ∧
    ∀ crash stopped, Assembler.link s ≠ .error (.crashed crash) stopped := by
  have leaves := Layout.leaves_of_assemble assembled
  refine ⟨⟨?_, ?_⟩, ?_, ?_, ?_⟩
  · rintro ⟨linked, links⟩
    exact leaves.defined_of_link forward quiet links
  · intro defined
    exact ⟨_, leaves.link_eq forward quiet defined⟩
  · intro linked links
    have defined := leaves.defined_of_link forward quiet links
    obtain ⟨used, uses⟩ := Linking.scan_eq_ok_iff.1 (leaves.scan_eq forward quiet defined)
    -- nothing is pending in the end, so all references have been used
    obtain rfl : s.references = used := uses.pending_eq.trans (List.append_nil used)
    rw [leaves.link_eq forward quiet defined] at links
    exact ⟨_, uses, rfl, ((EStateM.Result.ok.inj links).2).symm⟩
  · intro before reference after split defined undefined
    obtain ⟨stopped, stops⟩ := leaves.link_of_undefined forward quiet split defined undefined
    refine ⟨⟨stopped, stops⟩, ?_⟩
    unfold Assembler.run
    rw [Assembler.build_eq_link parsed assembled, stops]
    exact Stop.outcome_undefinedLabel reference.label
  · intro crash stopped stops
    by_cases defined : ∀ reference ∈ s.references, (s.labels.find? reference.label).isSome = true
    · rw [leaves.link_eq forward quiet defined] at stops
      exact absurd stops (by simp)
    · obtain ⟨before, reference, after, split, known, undefined⟩ :=
        Layout.exists_first_undefined defined
      obtain ⟨_, reported⟩ := leaves.link_of_undefined forward quiet split known undefined
      rw [reported] at stops
      exact absurd stops (by simp)

/-- A jump that grows, and behind it a branch to a label that is defined nowhere. -/
def lostSource : String :=
  " JMP FAR\n SJMP LOST\n JNZ GONE\n ORG 2048\nFAR:\n RET"

/-- Its statements. -/
def lostProgram : List Statement :=
  [⟨1, .operation "JMP" ["FAR"]⟩, ⟨2, .operation "SJMP" ["LOST"]⟩, ⟨3, .operation "JNZ" ["GONE"]⟩,
   ⟨4, .operation "ORG" ["2048"]⟩, ⟨5, .label "FAR"⟩, ⟨6, .operation "RET" [""]⟩]

/-- The first of the two labels is reported, although the jump before it has moved everything. -/
theorem link_reports_first_undefined_lost :
    Statement.parse (Source.lines lostSource) = .ok lostProgram ∧
      ∃ s, Assembler.assemble lostProgram Assembler.fresh = .ok () s ∧
        (Assembler.fresh.run lostSource).outcome =
          ⟨"asm51: error: label: LOST not found.\n", .exited 1⟩ := by
  have parsed : Statement.parse (Source.lines lostSource) = .ok lostProgram := by decide +kernel
  obtain ⟨s, assembled⟩ : ∃ s, Assembler.assemble lostProgram (Assembler.ofSize 65536) = .ok () s :=
    Layout.assemble_of_accepted (by decide) (by decide +kernel) (by decide +kernel)
      (by decide +kernel)
  have leaves := Layout.leaves_of_assemble assembled
  have labels_eq : s.labels = ⟨[("FAR", 2048)]⟩ := by
    rw [Layout.labels_of_assemble assembled]
    decide +kernel
  have noted : s.references = [⟨"JMP", "FAR"⟩] ++ ⟨"SJMP", "LOST"⟩ :: [⟨"JNZ", "GONE"⟩] := by
    rw [leaves.references]
    decide +kernel
  obtain ⟨_, _, reports, _⟩ :=
    link_reports_first_undefined parsed assembled (by decide +kernel) (by decide +kernel)
  refine ⟨parsed, s, assembled, (reports _ _ _ noted ?_ ?_).2⟩
  · rw [labels_eq]
    decide
  · rw [labels_eq]
    decide

end Program

end Mcs51
