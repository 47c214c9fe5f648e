/-
  Mcs51.Proofs.AddressedJumps — jumps and calls that hold an address.

  The address of a label is written in binary, and the cells of a jump or call are cut out of the
  digits from the left.  So which digits a cell takes depends on how many there are.  An address
  that fits into the width is cut where the processor cuts it.  A longer one is not, and then the
  cells are never those that the processor needs.

  Main definitions:
    * `blockCells` : a jump or call inside a block, as the processor takes it;
    * `jumpTarget?` : where the processor goes from a jump;
    * `Linking.Point.Writes` : the cells that the search writes at a point.

  Main statements:
    * `absoluteCells_eq_iff`, `longCells_eq_iff` : the addresses that are cut rightly;
    * `sameBlock_iff` : the choice between the two forms of a flexible jump;
    * `jump_holds_address_iff` : which jumps and calls hold the address of their label;
    * `flexible_jump_reaches_iff` : which flexible jumps lead to their label.
-/
import Mcs51.Proofs.BranchRange
import Mcs51.Proofs.Targets

namespace Mcs51

/-! ## §1. Digits of an address. -/

namespace Digits

/-- The first digits of two numbers that fit into a width agree exactly if the quotients do. -/
theorem take_padded_eq_iff {front back m n : Nat} (some_front : 0 < front) (some_back : 0 < back)
    (m_lt : m < 2 ^ (front + back)) (n_lt : n < 2 ^ (front + back)) :
    (padded 2 (front + back) (m : Int)).take front =
      (padded 2 (front + back) (n : Int)).take front ↔
      m / 2 ^ back = n / 2 ^ back := by
  have taken : ∀ {j : Nat}, j < 2 ^ (front + back) →
      (padded 2 (front + back) (j : Int)).take front =
        padded 2 front ((j / 2 ^ back : Nat) : Int) := by
    intro j j_lt
    have quotient_lt : j / 2 ^ back < 2 ^ front := by
      rw [Nat.div_lt_iff_lt_mul (Nat.two_pow_pos back), ← Nat.pow_add]
      exact j_lt
    rw [padded_eq_append (by omega) (by omega) some_front some_back j_lt,
      List.take_left' (length_padded (by omega) some_front quotient_lt)]
  rw [taken m_lt, taken n_lt]
  constructor
  · intro same
    have worth := congrArg (value 2) same
    rwa [value_padded (by omega) (by omega), value_padded (by omega) (by omega)] at worth
  · intro same
    rw [same]

end Digits

/-! ## §2. Cells that are cut out of an address. -/

/-- **A jump or call inside a block as the processor takes it**: the upper three of the eleven
digits stand above the code of the operation, and the lower eight in a cell of their own. -/
def blockCells (code address : Nat) : List Int :=
  [((32 * (address / 256 % 8) + code : Nat) : Int), ((address % 256 : Nat) : Int)]

section Selected

variable {selector : List Char} {code : Nat}

/-- **An address below 2048 is cut as the processor cuts it.** -/
theorem absoluteCells_of_lt (selects : Selects selector code) {n : Nat} (small : n < 2048) :
    absoluteCells selector n = blockCells code n := by
  obtain ⟨upper, lower⟩ := Digits.cut_of_lt 3 (show n < 2 ^ 11 from small)
  have digits : n / 256 % 8 = n / 256 := Nat.mod_eq_of_lt (by omega)
  rw [absoluteCells_eq selects, upper, lower]
  unfold blockCells
  rw [digits]
  rfl

/-- A longer address is cut behind its first three digits too. -/
theorem absoluteCells_of_le (selects : Selects selector code) {n : Nat} (large : 2048 ≤ n) :
    absoluteCells selector n =
      [((32 * (n / 2 ^ (n.size - 3)) + code : Nat) : Int),
        ((n % 2 ^ (n.size - 3) : Nat) : Int)] := by
  obtain ⟨upper, lower⟩ := Digits.cut_of_le 3 (show 2 ^ 11 ≤ n from large)
  rw [absoluteCells_eq selects, upper, lower]

end Selected

/-- The three digits in front begin with a one. -/
theorem first_digits_of_le {n : Nat} (large : 2048 ≤ n) :
    9 ≤ n.size - 3 ∧ 4 ≤ n / 2 ^ (n.size - 3) ∧ n / 2 ^ (n.size - 3) < 8 := by
  have wide : 11 < n.size := Nat.lt_size.2 large
  obtain ⟨k, size_eq⟩ : ∃ k, n.size = k + 3 := ⟨n.size - 3, by omega⟩
  have above : 2 ^ (k + 2) ≤ n := Nat.lt_size.1 (by omega)
  have below : n < 2 ^ (k + 3) := by
    rw [← size_eq]
    exact Nat.lt_size_self n
  have cut : n.size - 3 = k := by omega
  rw [cut]
  refine ⟨by omega, ?_, ?_⟩
  · rw [Nat.le_div_iff_mul_le (Nat.two_pow_pos k)]
    calc 4 * 2 ^ k = 2 ^ (k + 2) := by ring
      _ ≤ n := above
  · rw [Nat.div_lt_iff_lt_mul (Nat.two_pow_pos k)]
    calc n < 2 ^ (k + 3) := below
      _ = 8 * 2 ^ k := by ring

/-- **A cut at the wrong place is never right.**  If the lower part were right, all digits between
the two cuts would be zero, and the upper part could not begin with a one. -/
theorem wrong_cut {n k : Nat} (wide : 9 ≤ k) (lower : 4 ≤ n / 2 ^ k) (upper : n / 2 ^ k < 8) :
    ¬(n / 2 ^ k = n / 256 % 8 ∧ n % 2 ^ k = n % 256) := by
  rintro ⟨front, back⟩
  obtain ⟨j, rfl⟩ : ∃ j, k = j + 9 := ⟨k - 9, by omega⟩
  set q := n / 2 ^ (j + 9) with q_def
  have power : 2 ^ (j + 9) = 512 * 2 ^ j := by ring
  have whole : n = 512 * 2 ^ j * q + n % 256 := by
    rw [← power, q_def, ← back]
    exact (Nat.div_add_mod n (2 ^ (j + 9))).symm
  -- the quotient by 256 is a multiple of twice the upper part
  have scaled : n / 256 = 2 * (2 ^ j * q) := by
    have regrouped : 512 * 2 ^ j * q = 512 * (2 ^ j * q) := by ring
    omega
  rw [scaled] at front
  have cases : q = 4 ∨ q = 5 ∨ q = 6 ∨ q = 7 := by omega
  rcases cases with four | five | six | seven
  · rw [four] at front
    omega
  · rw [five] at front
    omega
  · rw [six] at front
    omega
  · rw [seven] at front
    omega

/-- **The cells are those of the processor exactly for addresses below 2048.** -/
theorem absoluteCells_eq_iff {selector : List Char} {code : Nat} (selects : Selects selector code)
    (n : Nat) : absoluteCells selector n = blockCells code n ↔ n < 2048 := by
  constructor
  · intro same
    by_contra large
    have large : 2048 ≤ n := by omega
    obtain ⟨wide, lower, upper⟩ := first_digits_of_le large
    rw [absoluteCells_of_le selects large] at same
    unfold blockCells at same
    obtain ⟨first, rest⟩ := List.cons.inj same
    obtain ⟨second, _⟩ := List.cons.inj rest
    have front := Int.ofNat_inj.1 first
    exact wrong_cut wide lower upper ⟨by omega, Int.ofNat_inj.1 second⟩
  · exact absoluteCells_of_lt selects

/-- **The two cells are bytes that hold the address exactly for addresses below 65536.** -/
theorem longCells_eq_iff (opcode : Int) (n : Nat) :
    ∃ high low : Int, longCells opcode n = [opcode, high, low] ∧
      ((0 ≤ high ∧ high ≤ 255) ∧ (0 ≤ low ∧ low ≤ 255) ∧ 256 * high + low = n ↔ n < 65536) := by
  by_cases small : n < 65536
  · refine ⟨_, _, longCells_of_lt small opcode, ?_⟩
    constructor
    · intro _
      exact small
    · intro _
      omega
  · -- two bytes hold no more than that
    refine ⟨_, _, rfl, ?_⟩
    constructor
    · intro fits
      omega
    · intro small'
      exact absurd small' small

/-! ## §3. Where a jump leads. -/

/-- **Where the processor goes** from a jump at a position.  A jump of two cells keeps the block of
the cell behind it, and holds the last eleven digits of the address; one of three cells holds all
sixteen.  It goes nowhere if these are not the cells of a jump, or no bytes. -/
def jumpTarget? (position : Nat) : List Int → Option Int
  | [first, low] =>
    if (0 ≤ first ∧ first ≤ 255) ∧ (0 ≤ low ∧ low ≤ 255) ∧ first % 32 = 1 then
      some (2048 * ((position + 2) / 2048 : Nat) + 256 * (first / 32) + low)
    else none
  | [opcode, high, low] =>
    if opcode = 0x02 ∧ (0 ≤ high ∧ high ≤ 255) ∧ (0 ≤ low ∧ low ≤ 255) then some (256 * high + low)
    else none
  | _ => none

/-- Both blocks are compared by the first five of sixteen digits. -/
theorem sameBlock_iff {position address : Nat} (near : position + 2 < 65536)
    (small : address < 65536) :
    sameBlock position address = true ↔ (position + 2) / 2048 = address / 2048 := by
  unfold sameBlock
  rw [beq_iff_eq]
  exact Digits.take_padded_eq_iff (show 0 < 5 by omega) (show 0 < 11 by omega) near small

/-- **A jump inside the block leads to an address of its block exactly if that is below 2048.** -/
theorem jumpTarget?_absoluteCells_iff {position n : Nat} (same : (position + 2) / 2048 = n / 2048) :
    jumpTarget? position (absoluteCells jumpSelector n) = some (n : Int) ↔ n < 2048 := by
  by_cases small : n < 2048
  · have bytes : 0 ≤ ((32 * (n / 256 % 8) + 1 : Nat) : Int) ∧
        ((32 * (n / 256 % 8) + 1 : Nat) : Int) ≤ 255 := by omega
    rw [absoluteCells_of_lt selects_jump small]
    unfold blockCells jumpTarget?
    dsimp only
    rw [if_pos ⟨bytes, by omega, by omega⟩, same, Option.some_inj]
    omega
  · have large : 2048 ≤ n := by omega
    obtain ⟨wide, lower, upper⟩ := first_digits_of_le large
    refine iff_of_false ?_ small
    rw [absoluteCells_of_le selects_jump large]
    unfold jumpTarget?
    dsimp only
    split
    next fits =>
      -- the target would have the right upper and lower part
      rw [same, Option.some_inj]
      intro leads
      refine wrong_cut wide lower upper ⟨?_, ?_⟩
      · omega
      · omega
    · simp

theorem jumpTarget?_longCells {n : Nat} (small : n < 65536) (position : Nat) :
    jumpTarget? position (longCells 0x02 n) = some (n : Int) := by
  rw [longCells_of_lt small]
  unfold jumpTarget?
  dsimp only
  rw [if_pos ⟨rfl, by omega, by omega⟩, Option.some_inj]
  omega

/-! ## §4. Jumps and calls in a program. -/

namespace Linking.Point

open Relation

/-- **The search writes these cells at a point**: its next step uses up a reference and puts them
behind the cells that are there, and linking leaves them where they are, also if it stops later. -/
structure Writes (s : Assembler) (p : Point) (cells : List Int) : Prop where
  step : ∃ q, Step p q ∧ q.linking.done = p.linking.done ++ cells ∧
    q.linking.pending = p.linking.pending.tail
  stays : ∃ final, (Assembler.link s = .ok () final ∨
    ∃ stop, Assembler.link s = .error stop final) ∧
    (final.memory.cells.toList.drop p.linking.done.size).take cells.length = cells

/-- At a placeholder whose reference has a label, the search writes the patch for it. -/
theorem writes_patch {s : Assembler} {ahead : List Int} {done : Array Int} {labels : LabelTable}
    {reference : Reference} {pending : List Reference} {kind : LinkKind} {address : Int}
    (reached : ReflTransGen Step (.start s)
      ⟨0, (placeholder : Int) :: ahead, ⟨done, labels, reference :: pending⟩⟩)
    (known : LinkKind.ofMnemonic? reference.mnemonic = some kind)
    (found : labels.find? reference.label = some address) :
    Writes s ⟨0, (placeholder : Int) :: ahead, ⟨done, labels, reference :: pending⟩⟩
      (kind.patch done.size address).cells := by
  have step := @Step.patch ahead ⟨done, labels, reference :: pending⟩ reference pending kind address
    rfl known found
  refine ⟨⟨_, step, rfl, rfl⟩, ?_⟩
  obtain ⟨final, ends, more, cells_eq⟩ := Assembler.exists_link_of_reaches (reached.tail step)
  refine ⟨final, ends, ?_⟩
  rw [cells_eq]
  simp [Linking.apply]

end Linking.Point

open Linking (Point)

section Points

variable {s : Assembler} {ahead : List Int} {done : Array Int} {labels : LabelTable}
  {reference : Reference} {pending : List Reference} {address : Nat}

/-- **Which jumps and calls hold the address of their label.**  Wherever the search comes to a
placeholder, and the label of the next reference is defined, the two cells of a jump or call inside
a block are those of the processor exactly if the address is below 2048; otherwise the second cell
takes all digits but the first three.  The three cells of a long jump or call hold the address in
two bytes exactly if it is below 65536. -/
theorem jump_holds_address_iff
    (reached : Relation.ReflTransGen Point.Step (.start s)
      ⟨0, (placeholder : Int) :: ahead, ⟨done, labels, reference :: pending⟩⟩)
    (found : labels.find? reference.label = some (address : Int)) :
    (∀ code, (reference.mnemonic, code) ∈ [("AJMP", 1), ("ACALL", 17)] →
      ∃ first second : Int,
        Point.Writes s ⟨0, (placeholder : Int) :: ahead, ⟨done, labels, reference :: pending⟩⟩
          [first, second] ∧
        ([first, second] = blockCells code address ↔ address < 2048) ∧
        (2048 ≤ address → second = ((address % 2 ^ (address.size - 3) : Nat) : Int))) ∧
    ∀ opcode : Int, (reference.mnemonic, opcode) ∈ [("LJMP", 0x02), ("LCALL", 0x12)] →
      ∃ high low : Int,
        Point.Writes s ⟨0, (placeholder : Int) :: ahead, ⟨done, labels, reference :: pending⟩⟩
          [opcode, high, low] ∧
        ((0 ≤ high ∧ high ≤ 255) ∧ (0 ≤ low ∧ low ≤ 255) ∧ 256 * high + low = address ↔
          address < 65536) := by
  constructor
  · intro code named
    -- both operations are cut in the same way and differ in the selector only
    have selected : ∃ selector, Selects selector code ∧
        LinkKind.ofMnemonic? reference.mnemonic = some (.absolute selector) := by
      simp only [List.mem_cons, Prod.mk.injEq, List.not_mem_nil, or_false] at named
      rcases named with ⟨name, rfl⟩ | ⟨name, rfl⟩
      · exact ⟨jumpSelector, selects_jump, by rw [name]; rfl⟩
      · exact ⟨callSelector, selects_call, by rw [name]; rfl⟩
    obtain ⟨selector, selects, known⟩ := selected
    have writes := Point.writes_patch reached known found
    refine ⟨_, _, writes, absoluteCells_eq_iff selects address, ?_⟩
    intro large
    have cells_eq := absoluteCells_of_le selects large
    obtain ⟨_, rest⟩ := List.cons.inj cells_eq
    exact (List.cons.inj rest).1
  · intro opcode named
    have known : LinkKind.ofMnemonic? reference.mnemonic = some (.long opcode) := by
      simp only [List.mem_cons, Prod.mk.injEq, List.not_mem_nil, or_false] at named
      rcases named with ⟨name, rfl⟩ | ⟨name, rfl⟩
      · rw [name]
        rfl
      · rw [name]
        rfl
    have writes : Point.Writes s _ (longCells opcode address) :=
      Point.writes_patch reached known found
    obtain ⟨high, low, cells_eq, holds_iff⟩ := longCells_eq_iff opcode address
    rw [cells_eq] at writes
    exact ⟨high, low, writes, holds_iff⟩

/-- Placeholders at the beginning of the memory, and one reference to a label at the given
address. -/
def referringTo (mnemonic : String) (address : Int) : Assembler where
  memory := ⟨#[0xA5, 0xA5, 0xA5, -1]⟩
  counter := 3
  labels := ⟨[("THERE", address)]⟩
  references := [⟨mnemonic, "THERE"⟩]

/-- A call inside a block still holds 2047 and no longer 2048; a long jump holds 65535. -/
theorem jump_holds_address_iff_edges :
    Point.Writes (referringTo "ACALL" 2047) (.start (referringTo "ACALL" 2047)) [0xF1, 0xFF] ∧
    (∃ first second : Int,
      Point.Writes (referringTo "ACALL" 2048) (.start (referringTo "ACALL" 2048)) [first, second] ∧
      [first, second] ≠ blockCells 17 2048) ∧
    ∃ high low : Int,
      Point.Writes (referringTo "LJMP" 65535) (.start (referringTo "LJMP" 65535))
        [0x02, high, low] ∧
      256 * high + low = 65535 := by
  refine ⟨?_, ?_, ?_⟩
  · obtain ⟨first, second, writes, right_iff, _⟩ :=
      (@jump_holds_address_iff (referringTo "ACALL" 2047) _ _ _ _ _ 2047 .refl rfl).1 17 (by decide)
    rw [right_iff.2 (by decide)] at writes
    exact writes
  · obtain ⟨first, second, writes, right_iff, _⟩ :=
      (@jump_holds_address_iff (referringTo "ACALL" 2048) _ _ _ _ _ 2048 .refl rfl).1 17 (by decide)
    exact ⟨first, second, writes, fun right => absurd (right_iff.1 right) (by decide)⟩
  · obtain ⟨high, low, writes, holds_iff⟩ :=
      (@jump_holds_address_iff (referringTo "LJMP" 65535) _ _ _ _ _ 65535 .refl rfl).2 0x02
        (by decide)
    exact ⟨high, low, writes, (holds_iff.2 (by decide)).2.2⟩

/-- The patch of a flexible jump: the two cells of the jump inside a block, or the three of the long
jump. -/
theorem patch_flexible (position address : Nat) (near : position + 2 < 65536)
    (small : address < 65536) :
    (LinkKind.flexible.patch position address).cells =
      if (position + 2) / 2048 = address / 2048 then absoluteCells jumpSelector address
      else longCells 0x02 address := by
  have choice := sameBlock_iff near small
  unfold LinkKind.patch
  dsimp only
  by_cases same : (position + 2) / 2048 = address / 2048
  · rw [if_pos (choice.2 same), if_pos same]
  · rw [if_neg (fun inBlock => same (choice.1 inBlock)), if_neg same]

/-- **Which flexible jumps lead to their label.**  A flexible jump takes two cells exactly if its
label is in the block of the cell behind it.  These are the cells of the processor, and lead to the
label, exactly if the label is below 2048, which is to say in the first block.  In any other block
the cells are cut at the wrong place.  A jump that takes three cells always holds the address of its
label. -/
theorem flexible_jump_reaches_iff
    (reached : Relation.ReflTransGen Point.Step (.start s)
      ⟨0, (placeholder : Int) :: ahead, ⟨done, labels, reference :: pending⟩⟩)
    (jump : reference.mnemonic = "JMP")
    (found : labels.find? reference.label = some (address : Int))
    (near : done.size + 2 < 65536) (small : address < 65536) :
    ∃ cells,
      Point.Writes s ⟨0, (placeholder : Int) :: ahead, ⟨done, labels, reference :: pending⟩⟩ cells ∧
      (cells.length = 2 ↔ (done.size + 2) / 2048 = address / 2048) ∧
      (cells.length = 2 → (cells = blockCells 1 address ↔ address < 2048) ∧
        (jumpTarget? done.size cells = some (address : Int) ↔ address < 2048)) ∧
      (cells.length ≠ 2 →
        cells = [0x02, ((address / 256 : Nat) : Int), ((address % 256 : Nat) : Int)] ∧
        jumpTarget? done.size cells = some (address : Int)) := by
  have known : LinkKind.ofMnemonic? reference.mnemonic = some .flexible := by
    rw [jump]
    rfl
  have writes := Point.writes_patch reached known found
  rw [patch_flexible done.size address near small] at writes
  refine ⟨_, writes, ?_⟩
  by_cases same : (done.size + 2) / 2048 = address / 2048
  · rw [if_pos same]
    refine ⟨iff_of_true rfl same, ?_, fun long => absurd rfl long⟩
    intro _
    exact ⟨absoluteCells_eq_iff selects_jump address, jumpTarget?_absoluteCells_iff same⟩
  · rw [if_neg same]
    refine ⟨iff_of_false (by simp) same, fun short => absurd short (by simp), ?_⟩
    intro _
    exact ⟨longCells_of_lt small 0x02, jumpTarget?_longCells small done.size⟩

/-- From the beginning of the memory a flexible jump leads to the last address of its block, in two
cells, and to the first of the third block, in three. -/
theorem flexible_jump_reaches_iff_edges :
    (∃ cells, Point.Writes (referringTo "JMP" 2047) (.start (referringTo "JMP" 2047)) cells ∧
      cells.length = 2 ∧ jumpTarget? 0 cells = some 2047) ∧
    ∃ cells, Point.Writes (referringTo "JMP" 4096) (.start (referringTo "JMP" 4096)) cells ∧
      cells.length ≠ 2 ∧ jumpTarget? 0 cells = some 4096 := by
  constructor
  · obtain ⟨cells, writes, two_iff, short, _⟩ :=
      @flexible_jump_reaches_iff (referringTo "JMP" 2047) _ _ _ _ _ 2047 .refl rfl rfl (by decide)
        (by decide)
    have two : cells.length = 2 := two_iff.2 (by decide)
    exact ⟨cells, writes, two, (short two).2.2 (by decide)⟩
  · obtain ⟨cells, writes, two_iff, _, long⟩ :=
      @flexible_jump_reaches_iff (referringTo "JMP" 4096) _ _ _ _ _ 4096 .refl rfl rfl (by decide)
        (by decide)
    have three : cells.length ≠ 2 := fun two => absurd (two_iff.1 two) (by decide)
    exact ⟨cells, writes, three, (long three).2⟩

/-- A jump to itself, in the third block. -/
def thirdBlockSource : String :=
  "ORG 4096\nL:\nJMP L"

/-- Its statements. -/
def thirdBlockProgram : List Statement :=
  [⟨1, .operation "ORG" ["4096"]⟩, ⟨2, .label "L"⟩, ⟨3, .operation "JMP" ["L"]⟩]

/-- Its only instruction. -/
def thirdBlockSite : Site :=
  ⟨⟨4096, "JMP", ⟨[placeholder, placeholder], some ⟨"JMP", "L"⟩, false⟩⟩, 0, ⟨[("L", 4096)]⟩⟩

/-- **A flexible jump inside the third block misses its label.**  Jump and label are in the same
block, and two cells are written, but they are not those of the processor and lead to address
5120. -/
theorem short_jump_misses_label :
    Statement.parse (Source.lines thirdBlockSource) = .ok thirdBlockProgram ∧
      (4096 + 2) / 2048 = 4096 / 2048 ∧
      ∃ s linked, Assembler.assemble thirdBlockProgram Assembler.fresh = .ok () s ∧
        s.labels.find? "L" = some 4096 ∧
        Assembler.build thirdBlockSource Assembler.fresh = .ok () linked ∧
        (linked.memory.cells.toList.drop 4096).take 2 = [0x81, 0x00] ∧
        [0x81, 0x00] ≠ blockCells 1 4096 ∧ jumpTarget? 4096 [0x81, 0x00] = some 5120 := by
  have parsed : Statement.parse (Source.lines thirdBlockSource) = .ok thirdBlockProgram := by
    decide +kernel
  have forward : Layout.Forward (Statement.bodies thirdBlockProgram) := by decide +kernel
  have known : ∀ reference ∈
      Layout.references (Layout.placements (Statement.bodies thirdBlockProgram)),
      ((⟨[("L", 4096)]⟩ : LabelTable).find? reference.label).isSome = true := by decide +kernel
  obtain ⟨s, assembled, labels_eq, built⟩ := exists_linked parsed (by decide +kernel)
    (by decide +kernel) (by decide +kernel) forward (by decide +kernel) (by decide +kernel) known
  have split : Layout.sites 0 s.labels (Layout.placements (Statement.bodies thirdBlockProgram))
      = [] ++ thirdBlockSite :: [] := by
    rw [labels_eq]
    decide +kernel
  have defined : Layout.Resolvable s.labels
      (Layout.placements (Statement.bodies thirdBlockProgram)) := by
    rw [labels_eq]
    exact known
  have found : s.labels.find? "L" = some 4096 := by
    rw [labels_eq]
    rfl
  have patched : thirdBlockSite.cells = [0x81, 0x00] := by decide +kernel
  refine ⟨parsed, rfl, s, _, assembled, found, built, ?_, by decide, by decide⟩
  have cells_eq : thirdBlockSite.cellsIn (Layout.linkedState 65536 _ s).memory =
      thirdBlockSite.cells :=
    Layout.cellsIn_of_sites_split forward.ascending
      (fun _ => Layout.shaped_of_mem_placements) defined
      split
  unfold Site.cellsIn at cells_eq
  rw [patched] at cells_eq
  exact cells_eq

end Points

end Mcs51
