/-
  Mcs51.Proofs.BranchRange — how far a branch reaches.

  A branch by distance keeps the distance to its label in its last cell, and the processor takes
  that cell for a signed byte, counted from the end of the instruction.  The cell is written for
  every distance and always agrees with it modulo 256.  So the branch goes to its label if the
  distance is a signed byte, and otherwise to another address or to none, without any report.

  Main definitions:
    * `branchTarget?` : where the processor goes from a branch.

  Main statements:
    * `offsetCell_emod`, `offsetCell_le_iff` : the cell of a distance;
    * `Assembler.exists_link_of_reaches` : what the search has written stays;
    * `branch_reaches_label_iff` : the branches that reach their label.
-/
import Mcs51.Proofs.Reachable

namespace Mcs51

/-! ## §1. The cell of a distance. -/

theorem offsetCell_emod (distance : Int) : offsetCell distance % 256 = distance % 256 := by
  rw [offsetCell_eq]
  unfold distanceCell
  split <;> omega

theorem offsetCell_le_iff (distance : Int) :
    offsetCell distance ≤ 255 ↔ -255 ≤ distance ∧ distance ≤ 255 := by
  rw [offsetCell_eq]
  unfold distanceCell
  split <;> omega

/-! ## §2. Where a branch goes. -/

/-- **Where the processor goes** from a branch whose last cell is at a position: the cell is taken
for a signed byte and counted from the cell behind it.  It goes nowhere if the cell is no byte. -/
def branchTarget? (position : Nat) (cell : Int) : Option Int :=
  if 0 ≤ cell ∧ cell ≤ 255 then some (position + 1 + (BitVec.ofInt 8 cell).toInt) else none

/-- The cell of a distance is the same signed byte as the distance. -/
theorem toInt_offsetCell (distance : Int) :
    (BitVec.ofInt 8 (offsetCell distance)).toInt = distance.bmod 256 := by
  have same : offsetCell distance % ((2 ^ 8 : Nat) : Int) = distance % ((256 : Nat) : Int) :=
    offsetCell_emod distance
  rw [BitVec.toInt_ofInt, Int.bmod_def, Int.bmod_def, same]

/-- **A branch reaches the addresses whose distance is a signed byte, and no others.** -/
theorem branchTarget?_offsetCell_iff (position : Nat) (distance : Int) :
    branchTarget? position (offsetCell distance) = some (position + 1 + distance) ↔
      -128 ≤ distance ∧ distance ≤ 127 := by
  have bound := offsetCell_le_iff distance
  have nonneg := offsetCell_nonneg distance
  unfold branchTarget?
  rw [toInt_offsetCell]
  by_cases byte : offsetCell distance ≤ 255
  · rw [if_pos ⟨nonneg, byte⟩, Option.some_inj, Int.bmod_def]
    omega
  · rw [if_neg (fun fits => byte fits.2)]
    have far : ¬(-128 ≤ distance ∧ distance ≤ 127) := by omega
    exact iff_of_false (by simp) far

/-! ## §3. What the search has written stays. -/

namespace Linking.Point

open Relation

/-- A step adds to the cells behind the search and changes none of them. -/
theorem Step.done_eq {p q : Point} (step : Step p q) :
    ∃ more, q.linking.done.toList = p.linking.done.toList ++ more := by
  cases step with
  | skip => exact ⟨[], by simp⟩
  | @keep cell ahead linking other => exact ⟨[cell], by simp [Linking.keep]⟩
  | pass next unknown => exact ⟨[(placeholder : Int)], by simp [Linking.keep]⟩
  | @patch ahead linking reference pending kind address next known found =>
    exact ⟨(kind.patch linking.done.size address).cells, by simp [Linking.apply]⟩

/-- **Run**: the cells behind the search are at the beginning of every memory that it leaves. -/
theorem whole_eq_of_reaches {p q : Point} (reached : ReflTransGen Step p q) :
    ∃ more, q.whole.done.toList = p.linking.done.toList ++ more := by
  have done_eq : ∃ more, q.linking.done.toList = p.linking.done.toList ++ more := by
    induction reached with
    | refl => exact ⟨[], by simp⟩
    | tail _ step ih =>
      obtain ⟨first, ih⟩ := ih
      obtain ⟨second, added⟩ := step.done_eq
      exact ⟨first ++ second, by rw [added, ih, List.append_assoc]⟩
  obtain ⟨more, done_eq⟩ := done_eq
  refine ⟨more ++ q.ahead.drop q.covered, ?_⟩
  rw [← List.append_assoc, ← done_eq]
  simp [whole, Linking.keep]

/-- The search ends in the same way from every point that it reaches. -/
theorem scan_eq_of_reaches {p q : Point} (reached : ReflTransGen Step p q) : p.scan = q.scan := by
  induction reached with
  | refl => rfl
  | tail _ step ih => rw [ih, step.scan_eq]

end Linking.Point

open Linking (Point)

/-- Linking leaves the cells that are behind the search at any of its points, also if it stops. -/
theorem Assembler.exists_link_of_reaches {s : Assembler} {p : Point}
    (reached : Relation.ReflTransGen Point.Step (.start s) p) :
    ∃ final, (link s = .ok () final ∨ ∃ stop, link s = .error stop final) ∧
      ∃ more, final.memory.cells.toList = p.linking.done.toList ++ more := by
  obtain ⟨last, later, ends⟩ := Point.exists_last p
  rw [← Point.scan_eq_of_reaches reached] at ends
  obtain ⟨more, whole_eq⟩ := Point.whole_eq_of_reaches later
  exact ⟨s.withLinking last.whole, link_of_scan ends, more, whole_eq⟩

/-! ## §4. Branches in a program. -/

/-- The branches by distance. -/
def branchNames : List String :=
  ["JB", "JNB", "JBC", "JC", "JNC", "JZ", "JNZ", "SJMP", "CJNE", "DJNZ"]

theorem LinkKind.ofMnemonic?_branch {mnemonic : String} (branch : mnemonic ∈ branchNames) :
    ofMnemonic? mnemonic = some .relative := by
  revert mnemonic
  decide

/-- At a placeholder of a branch whose label is defined the search writes the cell of the distance
and goes on, however far the label is. -/
theorem Linking.Point.step_of_branch (ahead : List Int) (done : Array Int) {labels : LabelTable}
    {reference : Reference} (pending : List Reference) {address : Int}
    (branch : reference.mnemonic ∈ branchNames)
    (found : labels.find? reference.label = some address) :
    Step ⟨0, (placeholder : Int) :: ahead, ⟨done, labels, reference :: pending⟩⟩
      ⟨0, ahead, ⟨done.push (offsetCell (address - (done.size + 1))), labels, pending⟩⟩ := by
  have step :=
    @Step.patch ahead ⟨done, labels, reference :: pending⟩ reference pending .relative address
    rfl (LinkKind.ofMnemonic?_branch branch) found
  have distance : address - done.size - 1 = address - (done.size + 1) := by omega
  have patched : Linking.apply ⟨done, labels, reference :: pending⟩
      (LinkKind.relative.patch done.size address) address pending =
        ⟨done.push (offsetCell (address - (done.size + 1))), labels, pending⟩ := by
    simp [Linking.apply, LinkKind.patch, Patch.grows, distance]
  rwa [patched] at step

/-- **A branch reaches its label exactly if the distance is a signed byte.**  The cell of a distance
is never negative, agrees with the distance modulo 256, and is a byte exactly for distances between
-255 and 255.  Wherever the search comes to a placeholder, and the next reference is a branch by
distance whose label is defined, it writes the cell of the distance there and goes on, however far
the label is, and linking leaves the cell there.  The processor goes from there to the label exactly
if the distance, counted from the cell behind, is between -128 and 127. -/
theorem branch_reaches_label_iff :
    (∀ distance : Int, 0 ≤ offsetCell distance ∧ offsetCell distance % 256 = distance % 256 ∧
      (offsetCell distance ≤ 255 ↔ -255 ≤ distance ∧ distance ≤ 255)) ∧
    ∀ (s : Assembler) (ahead : List Int) (done : Array Int) (labels : LabelTable)
      (reference : Reference) (pending : List Reference) (address : Int),
      Relation.ReflTransGen Point.Step (.start s)
        ⟨0, (placeholder : Int) :: ahead, ⟨done, labels, reference :: pending⟩⟩ →
      reference.mnemonic ∈ branchNames →
      labels.find? reference.label = some address →
      Linking.scan 0 ((placeholder : Int) :: ahead) ⟨done, labels, reference :: pending⟩ =
        Linking.scan 0 ahead
          ⟨done.push (offsetCell (address - (done.size + 1))), labels, pending⟩ ∧
      (∃ final, (Assembler.link s = .ok () final ∨ ∃ stop, Assembler.link s = .error stop final) ∧
        final.memory.cells[done.size]? = some (offsetCell (address - (done.size + 1)))) ∧
      (branchTarget? done.size (offsetCell (address - (done.size + 1))) = some address ↔
        -128 ≤ address - (done.size + 1) ∧ address - (done.size + 1) ≤ 127) := by
  refine ⟨fun distance => ⟨offsetCell_nonneg distance, offsetCell_emod distance,
    offsetCell_le_iff distance⟩, ?_⟩
  intro s ahead done labels reference pending address reached branch found
  have step := Point.step_of_branch ahead done pending branch found
  refine ⟨step.scan_eq, ?_, ?_⟩
  · obtain ⟨final, ends, more, cells_eq⟩ := Assembler.exists_link_of_reaches (reached.tail step)
    refine ⟨final, ends, ?_⟩
    rw [← Array.getElem?_toList, cells_eq]
    simp
  · have label_at : (done.size + 1 + (address - (done.size + 1)) : Int) = address := by omega
    have reaches := branchTarget?_offsetCell_iff done.size (address - (done.size + 1))
    rwa [label_at] at reaches

/-- A branch at the beginning of the memory, before it is linked to a label at the given address. -/
def branchTo (address : Int) : Assembler where
  memory := ⟨#[0x80, 0xA5, -1]⟩
  counter := 2
  labels := ⟨[("THERE", address)]⟩
  references := [⟨"SJMP", "THERE"⟩]

/-- The branch reaches itself.  A label at address 200 is too far, and yet linking succeeds. -/
theorem branch_reaches_label_iff_far :
    branchTarget? 1 254 = some 0 ∧ branchTarget? 1 198 ≠ some 200 ∧
      ∃ final, Assembler.link (branchTo 200) = .ok () final ∧
        final.memory.cells[1]? = some 198 := by
  have reached : ∀ address, Relation.ReflTransGen Point.Step (.start (branchTo address))
      ⟨0, [(placeholder : Int), -1], ⟨#[0x80], ⟨[("THERE", address)]⟩, [⟨"SJMP", "THERE"⟩]⟩⟩ :=
    fun address => .single (.keep (by decide))
  obtain ⟨_, _, near⟩ := branch_reaches_label_iff.2 _ _ _ _ _ _ 0 (reached 0) (by decide) rfl
  obtain ⟨_, ⟨final, ends, written⟩, far⟩ :=
    branch_reaches_label_iff.2 _ _ _ _ _ _ 200 (reached 200) (by decide) rfl
  have linked : Assembler.link (branchTo 200) =
      .ok () { branchTo 200 with memory := ⟨#[0x80, 198, -1]⟩ } := by decide +kernel
  refine ⟨near.2 (by decide), fun reaches => absurd (far.1 reaches) (by decide), ?_⟩
  rcases ends with ok | ⟨stop, stops⟩
  · exact ⟨final, ok, written⟩
  · exact absurd (linked.symm.trans stops) (by simp)

end Mcs51
