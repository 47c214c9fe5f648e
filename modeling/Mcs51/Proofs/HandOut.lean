/-
  Mcs51.Proofs.HandOut — references handed out to placeholders.

  A search that comes to its end with no room to spare has put patches over all placeholders and
  over nothing else.  What it leaves is then known from the addresses of the placeholders and the
  references alone: the references are handed out to the addresses, in ascending order, and each
  takes as many as its operation needs.  Whether the reference and the placeholder belong to the
  same instruction plays no part.

  Main definitions:
    * `handOut` : the cells that references give to addresses;
    * `Linking.holes`, `Linking.fillIn` : the addresses of placeholders, and cells put in their
      place.

  Main statements:
    * `Linking.scan_eq_fillIn` : a search with no room to spare hands out the references;
    * `Linking.fillIn_inj` : what was handed out can be read off the result.
-/
import Mcs51.Proofs.Scan

namespace Mcs51

/-- The cells that references give to the addresses of placeholders, in order.  Each reference takes
as many addresses as its operation needs, and is patched for the first of them. -/
def handOut (labels : LabelTable) : List Nat → List Reference → List Int
  | hole :: holes, reference :: later =>
    match LinkKind.ofMnemonic? reference.mnemonic, labels.find? reference.label with
    | some kind, some address =>
      (kind.patch hole address).cells ++ handOut labels (holes.drop (kind.width - 1)) later
    | _, _ => []
  | _, _ => []

theorem handOut_cons {labels : LabelTable} {reference : Reference} {kind : LinkKind} {address : Int}
    (known : LinkKind.ofMnemonic? reference.mnemonic = some kind)
    (found : labels.find? reference.label = some address) (hole : Nat) (holes : List Nat)
    (later : List Reference) :
    handOut labels (hole :: holes) (reference :: later) =
      (kind.patch hole address).cells ++ handOut labels (holes.drop (kind.width - 1)) later := by
  rw [handOut]
  simp only [known, found]

/-- Only the addresses of labels count, not how the table is kept. -/
theorem handOut_congr {labels others : LabelTable}
    (same : ∀ label, labels.find? label = others.find? label) (holes : List Nat)
    (references : List Reference) :
    handOut labels holes references = handOut others holes references := by
  induction references generalizing holes with
  | nil => cases holes <;> rfl
  | cons reference later ih =>
    cases holes with
    | nil => rfl
    | cons hole holes =>
      unfold handOut
      rw [same]
      split
      · rw [ih]
      · rfl

namespace Linking

/-! ## §1. Placeholders among cells. -/

/-- The addresses of the placeholders among cells that begin at a position. -/
def holes (position : Nat) : List Int → List Nat
  | [] => []
  | cell :: rest =>
    if cell = (placeholder : Int) then position :: holes (position + 1) rest
    else holes (position + 1) rest

/-- Puts values in the place of placeholders, in order. -/
def fillIn : List Int → List Int → List Int
  | [], _ => []
  | cell :: rest, values =>
    if cell = (placeholder : Int) then values.headD cell :: fillIn rest values.tail
    else cell :: fillIn rest values

theorem holes_placeholders (position n : Nat) (ahead : List Int) :
    holes position (List.replicate n (placeholder : Int) ++ ahead) =
      List.range' position n ++ holes (position + n) ahead := by
  induction n generalizing position with
  | zero => rfl
  | succ n ih =>
    rw [List.replicate_succ, List.cons_append, holes, if_pos rfl, ih, List.range'_succ,
        List.cons_append, Nat.add_right_comm]
    rfl

theorem fillIn_placeholders (values more ahead : List Int) :
    fillIn (List.replicate values.length (placeholder : Int) ++ ahead) (values ++ more) =
      values ++ fillIn ahead more := by
  induction values with
  | nil => rfl
  | cons value others ih =>
    rw [List.length_cons, List.replicate_succ, List.cons_append, List.cons_append, fillIn,
      if_pos rfl]
    exact congrArg (value :: ·) ih

/-- The values can be read off, if there is one for each placeholder. -/
theorem fillIn_inj {cells values others : List Int}
    (enough : values.length = cells.count (placeholder : Int))
    (enough' : others.length = cells.count (placeholder : Int)) :
    fillIn cells values = fillIn cells others ↔ values = others := by
  refine ⟨?_, fun same => by rw [same]⟩
  induction cells generalizing values others with
  | nil =>
    intro _
    rw [List.count_nil] at enough enough'
    rw [List.eq_nil_of_length_eq_zero enough, List.eq_nil_of_length_eq_zero enough']
  | cons cell rest ih =>
    by_cases here : cell = (placeholder : Int)
    · subst here
      rw [List.count_cons_self] at enough enough'
      -- both lists go on
      cases values with
      | nil => exact absurd enough (by simp)
      | cons value values =>
        cases others with
        | nil => exact absurd enough' (by simp)
        | cons other others =>
          simp only [fillIn, if_true, List.headD_cons, List.tail_cons, List.cons.injEq]
          rintro ⟨same, later⟩
          rw [List.length_cons] at enough enough'
          exact ⟨same, ih (by omega) (by omega) later⟩
    · rw [List.count_cons_of_ne here] at enough enough'
      simp only [fillIn, if_neg here, List.cons.injEq, true_and]
      exact ih enough enough'

/-- The placeholders among cells, by address. -/
theorem holes_eq_filter (position : Nat) (cells : List Int) :
    holes position cells =
      (List.range' position cells.length).filter fun i =>
        cells[i - position]? == some (placeholder : Int) := by
  induction cells generalizing position with
  | nil => rfl
  | cons cell rest ih =>
    have shifted : (List.range' (position + 1) rest.length).filter
          (fun i => (cell :: rest)[i - position]? == some (placeholder : Int)) =
        (List.range' (position + 1) rest.length).filter
          (fun i => rest[i - (position + 1)]? == some (placeholder : Int)) := by
      apply List.filter_congr
      intro i member
      have behind : position + 1 ≤ i := (List.mem_range'_1.1 member).1
      rw [show i - position = i - (position + 1) + 1 by omega, List.getElem?_cons_succ]
    rw [List.length_cons, List.range'_succ, List.filter_cons, shifted, ← ih, Nat.sub_self, holes]
    by_cases here : cell = (placeholder : Int)
    · simp [here]
    · simp [here]

/-! ## §2. Searches with no room to spare. -/

/-- No reference is one of flexible size. -/
def Rigid (pending : List Reference) : Prop :=
  ∀ reference ∈ pending, LinkKind.ofMnemonic? reference.mnemonic ≠ some .flexible

/-- Only without references there is no room. -/
theorem eq_nil_of_room_eq_zero {pending : List Reference} (known : Known pending)
    (none : room pending = 0) : pending = [] := by
  cases pending with
  | nil => rfl
  | cons reference later =>
    obtain ⟨kind, known_kind⟩ := known.head
    have := kind.width_pos
    rw [room_cons known_kind] at none
    omega

/-- With no room to spare, a patch covers nothing but placeholders. -/
theorem take_eq_replicate {rest : List Int} {width left : Nat} (positive : 0 < width)
    (tight : rest.count (placeholder : Int) + 1 = width + left)
    (behind : (rest.drop (width - 1)).count (placeholder : Int) ≤ left) :
    (placeholder : Int) :: rest =
      List.replicate width (placeholder : Int) ++ rest.drop (width - 1) := by
  have parts : rest.count (placeholder : Int) =
      (rest.take (width - 1)).count (placeholder : Int)
        + (rest.drop (width - 1)).count (placeholder : Int) := by
    rw [← List.count_append, List.take_append_drop]
  have at_most : (rest.take (width - 1)).length ≤ width - 1 := List.length_take_le _ _
  have among : (rest.take (width - 1)).count (placeholder : Int) ≤ (rest.take (width - 1)).length :=
    List.count_le_length
  have all : (rest.take (width - 1)).count (placeholder : Int) =
      (rest.take (width - 1)).length := by
    omega
  have length_eq : (rest.take (width - 1)).length = width - 1 := by omega
  have covered : rest.take (width - 1) = List.replicate (width - 1) (placeholder : Int) :=
    List.eq_replicate_iff.2
      ⟨length_eq, fun cell member => (List.count_eq_length.1 all cell member).symm⟩
  calc (placeholder : Int) :: rest
      = (placeholder : Int) :: (rest.take (width - 1) ++ rest.drop (width - 1)) := by
        rw [List.take_append_drop]
    _ = List.replicate (width - 1 + 1) (placeholder : Int) ++ rest.drop (width - 1) := by
        rw [covered, List.replicate_succ, List.cons_append]
    _ = List.replicate width (placeholder : Int) ++ rest.drop (width - 1) := by
        rw [Nat.sub_add_cancel positive]

/-- The first reference takes the placeholders that stand together. -/
theorem handOut_holes_site {labels : LabelTable} {reference : Reference} {kind : LinkKind}
    {address : Int} (known : LinkKind.ofMnemonic? reference.mnemonic = some kind)
    (found : labels.find? reference.label = some address) (position : Nat) (ahead : List Int)
    (later : List Reference) :
    handOut labels
        (holes position (List.replicate kind.width (placeholder : Int) ++ ahead))
          (reference :: later) =
      (kind.patch position address).cells
        ++ handOut labels (holes (position + kind.width) ahead) later := by
  obtain ⟨more, width_eq⟩ : ∃ more, kind.width = more + 1 :=
    ⟨kind.width - 1, by have := kind.width_pos; omega⟩
  rw [holes_placeholders, width_eq, List.range'_succ, List.cons_append, handOut_cons known found,
      width_eq, Nat.add_sub_cancel, List.drop_left' (by simp)]

/-- **A search with no room to spare hands out the references.**  There is one cell for each
placeholder, and nothing else changes. -/
theorem scan_eq_fillIn {ahead : List Int} {linking final : Linking} (known : Known linking.pending)
    (rigid : Rigid linking.pending)
    (tight : ahead.count (placeholder : Int) = room linking.pending)
    (h : scan 0 ahead linking = .ok () final) :
    (handOut linking.labels (holes linking.done.size ahead) linking.pending).length =
        ahead.count (placeholder : Int) ∧
      final = ⟨linking.done ++ fillIn ahead
        (handOut linking.labels (holes linking.done.size ahead) linking.pending),
        linking.labels, []⟩ := by
  -- the search goes on behind a patch, so the induction is on the number of cells
  induction length_eq : ahead.length using Nat.strongRecOn generalizing ahead linking with
  | ind n ih =>
    subst length_eq
    obtain ⟨done, labels, pending⟩ := linking
    cases ahead with
    | nil =>
      have none_left : pending = [] := eq_nil_of_room_eq_zero known tight.symm
      subst none_left
      obtain rfl : _ = final := (EStateM.Result.ok.inj h).2
      refine ⟨rfl, ?_⟩
      simp [fillIn]
    | cons cell rest =>
      by_cases here : cell = (placeholder : Int)
      · subst here
        obtain ⟨reference, later, kind, address, next, known_kind, found, searched⟩ :=
          scan_placeholder_eq_ok known h
        simp only at next found searched
        subst next
        have fits : (kind.patch done.size address).cells.length = kind.width :=
          LinkKind.length_patch fun flexible =>
            absurd (flexible ▸ known_kind) (rigid reference List.mem_cons_self)
        have behind := count_le_room (by exact known.tail) searched
        rw [List.count_cons_self, room_cons known_kind] at tight
        have split := take_eq_replicate kind.width_pos tight behind
        rw [split] at h ⊢
        rw [scan_site _ rfl known_kind found, apply_of_length_eq fits] at h
        have shorter : (rest.drop (kind.width - 1)).length <
            ((placeholder : Int) :: rest).length := by
          rw [List.length_drop, List.length_cons]
          omega
        have tight_later : (rest.drop (kind.width - 1)).count (placeholder : Int) = room later := by
          have := congrArg (List.count (placeholder : Int)) split
          rw [List.count_cons_self, List.count_append, List.count_replicate_self] at this
          omega
        obtain ⟨length_later, final_eq⟩ := ih _ shorter (by exact known.tail)
          (by exact fun other member => rigid other (List.mem_cons_of_mem _ member))
          (by exact tight_later) h rfl
        simp only [size_appendList, fits] at length_later final_eq
        rw [handOut_holes_site known_kind found]
        refine ⟨?_, ?_⟩
        · rw [List.length_append, fits, length_later, List.count_append, List.count_replicate_self]
        · have filled := fillIn_placeholders (kind.patch done.size address).cells
            (handOut labels (holes (done.size + kind.width) (rest.drop (kind.width - 1))) later)
            (rest.drop (kind.width - 1))
          rw [fits] at filled
          rw [final_eq, filled, appendList_append]
      · rw [scan, if_pos here] at h
        rw [List.count_cons_of_ne here] at tight ⊢
        obtain ⟨length_eq, final_eq⟩ := ih rest.length (by simp) (by exact known) (by exact rigid)
          (by exact tight) h rfl
        simp only [keep, size_appendList, List.length_singleton] at length_eq final_eq
        rw [holes, if_neg here, fillIn, if_neg here]
        refine ⟨length_eq, ?_⟩
        rw [final_eq, appendList_append]
        rfl

end Linking

/-! ## §3. Linking with no room to spare. -/

namespace Assembler

theorem link_eq_ok {s final : Assembler} (h : link s = .ok () final) :
    ∃ linking, Linking.scan 0 s.memory.cells.toList ⟨#[], s.labels, s.references⟩ = .ok () linking ∧
      final = s.withLinking linking := by
  unfold link at h
  cases searched : Linking.scan 0 s.memory.cells.toList ⟨#[], s.labels, s.references⟩ with
  | error stop linking =>
    rw [searched] at h
    exact absurd h (by simp)
  | ok _ linking =>
    rw [searched] at h
    exact ⟨linking, rfl, ((EStateM.Result.ok.inj h).2).symm⟩

/-- The memory after linking with no room to spare. -/
theorem link_eq_fillIn {s final : Assembler} (known : Linking.Known s.references)
    (rigid : Linking.Rigid s.references)
    (tight : s.memory.cells.toList.count (placeholder : Int) = Linking.room s.references)
    (h : link s = .ok () final) :
    (handOut s.labels (Linking.holes 0 s.memory.cells.toList) s.references).length =
        s.memory.cells.toList.count (placeholder : Int) ∧
      final.labels = s.labels ∧
      final.memory.cells.toList = Linking.fillIn s.memory.cells.toList
        (handOut s.labels (Linking.holes 0 s.memory.cells.toList) s.references) := by
  obtain ⟨linking, searched, rfl⟩ := link_eq_ok h
  obtain ⟨length_eq, rfl⟩ := Linking.scan_eq_fillIn (by exact known) (by exact rigid)
    (by exact tight) searched
  refine ⟨length_eq, rfl, ?_⟩
  simp [withLinking]

end Assembler

end Mcs51
