/-
  Mcs51.LabelTable — labels and their addresses.

  Main definitions:
    * `LabelTable.find?`, `LabelTable.insert` : looking up and entering a label;
    * `LabelTable.shiftAbove` : making room for one cell.

  Main statements:
    * `LabelTable.find?_insert` : what is found after a label was entered;
    * `LabelTable.find?_shiftAbove` : what is found after room was made.
-/
namespace Mcs51

/-- Labels and their addresses, each label once. -/
structure LabelTable where
  entries : List (String × Int)
  deriving Repr, DecidableEq

namespace LabelTable

/-- No labels. -/
def empty : LabelTable := ⟨[]⟩

/-- The address of a label. -/
def find? (table : LabelTable) (label : String) : Option Int :=
  table.entries.lookup label

/-- Enters a label, in place of an entry it may have. -/
def insert (table : LabelTable) (label : String) (address : Int) : LabelTable :=
  ⟨(label, address) :: table.entries.filter (·.1 != label)⟩

/-- An address after one cell was inserted above the given one. -/
def shifted (above address : Int) : Int :=
  if above < address then address + 1 else address

/-- Moves all labels above an address up by one cell. -/
def shiftAbove (table : LabelTable) (above : Int) : LabelTable :=
  ⟨table.entries.map fun entry => (entry.1, shifted above entry.2)⟩

@[simp] theorem find?_empty (label : String) : empty.find? label = none := rfl

/-- An entered label is found at its address, and every other label where it was. -/
theorem find?_insert (table : LabelTable) (label other : String) (address : Int) :
    (table.insert label address).find? other =
      if other = label then some address else table.find? other := by
  obtain ⟨entries⟩ := table
  by_cases same : other = label
  · simp [insert, find?, same]
  · -- entries of the other label survive the filter, in their order
    have kept : (entries.filter (·.1 != label)).lookup other = entries.lookup other := by
      induction entries with
      | nil => rfl
      | cons entry rest ih =>
        obtain ⟨key, value⟩ := entry
        by_cases dropped : key = label
        · subst dropped
          have differs : (other == key) = false := by simpa using same
          simp [List.lookup_cons, differs, ih]
        · by_cases hit : other = key
          · simp [dropped, hit]
          · have differs : (other == key) = false := by simpa using hit
            simp [dropped, List.lookup_cons, differs, ih]
    have differs : (other == label) = false := by simpa using same
    simp [insert, find?, List.lookup_cons, differs, same, kept]

/-- Making room moves the address that is found, and loses no label. -/
theorem find?_shiftAbove (table : LabelTable) (above : Int) (label : String) :
    (table.shiftAbove above).find? label = (table.find? label).map (shifted above) := by
  obtain ⟨entries⟩ := table
  induction entries with
  | nil => rfl
  | cons entry rest ih =>
    obtain ⟨key, value⟩ := entry
    simp only [find?, shiftAbove, List.map_cons, List.lookup_cons] at ih ⊢
    by_cases hit : label = key
    · simp [hit]
    · have differs : (label == key) = false := by simpa using hit
      simp [differs, ih]

end LabelTable

end Mcs51
