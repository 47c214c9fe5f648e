/-
  Mcs51.Proofs.Renaming — the names of labels do not matter.

  A label is compared with other labels and nothing else.  So if all labels of a program get other
  names, different ones for different labels, then nothing changes but the names: every move does
  the same under the new names, and so does every step of the search for placeholders.

  Main definitions:
    * `labelPosition?`, `Body.rename` : the operand that names a label, and a line under new names;
    * `Assembler.rename`, `Stop.rename`, `renameResult` : a state, a stop and a result under new
      names;
    * `Layout.names` : the labels that lines define or refer to;
    * `Assembler.finish` : a whole run on a program that has been read.

  Main statements:
    * `Mnemonic.encode_rename` : every operation is encoded as before, with its label renamed;
    * `Move.perform_rename`, `Linking.scan_rename` : a move and the search under new names;
    * `renaming_keeps_runs` : the two runs compared.
-/
import Mcs51.Proofs.Moves
import Mcs51.Proofs.Resolution
import Mcs51.Proofs.SourceLayout

namespace Mcs51

/-! ## §1. Programs under new names. -/

/-- Does the text consist of word characters? -/
def IsWord (text : String) : Prop :=
  ∀ c ∈ text.toList, Text.isWordChar c = true

instance (text : String) : Decidable (IsWord text) :=
  List.decidableBAll _ text.toList

/-- The operand of an operation that names a label, counted from zero. -/
def labelPosition? : String → Option Nat
  | "AJMP" | "JMP" | "LJMP" | "ACALL" | "LCALL" | "JC" | "JNC" | "JZ" | "JNZ" | "SJMP" => some 0
  | "JBC" | "JB" | "JNB" | "DJNZ" => some 1
  | "CJNE" => some 2
  | _ => none

section Rename

variable (rho : String → String)

/-- An operand under new names: if it names a label, the label is renamed. -/
def renameOperand (text : String) : String :=
  match labelName? text with
  | some label => rho label
  | none => text

/-- The operands of an operation under new names. -/
def renameOperands (mnemonic : String) (operands : List String) : List String :=
  match labelPosition? mnemonic with
  | some position => operands.modify position (renameOperand rho)
  | none => operands

/-- A line under new names. -/
def Body.rename : Body → Body
  | .label name => .label (rho name)
  | .operation mnemonic operands => .operation mnemonic (renameOperands rho mnemonic operands)

/-- A statement under new names. -/
def Statement.rename (statement : Statement) : Statement :=
  { statement with body := statement.body.rename rho }

/-- A reference under new names. -/
def Reference.rename (reference : Reference) : Reference :=
  { reference with label := rho reference.label }

/-- An encoding under new names. -/
def Encoding.rename (encoding : Encoding) : Encoding :=
  { encoding with reference := encoding.reference.map (Reference.rename rho) }

/-- A diagnostic under new names: two of them name a label. -/
def Diagnostic.rename : Diagnostic → Diagnostic
  | .undefinedLabel label => .undefinedLabel (rho label)
  | .duplicateLabel label => .duplicateLabel (rho label)
  | diagnostic => diagnostic

/-- A stop under new names. -/
def Stop.rename : Stop → Stop
  | .reported diagnostic => .reported (diagnostic.rename rho)
  | .crashed crash => .crashed crash

/-- The labels under new names. -/
def LabelTable.rename (labels : LabelTable) : LabelTable :=
  ⟨labels.entries.map fun entry => (rho entry.1, entry.2)⟩

/-- The state under new names.  The memory and the counter know no names. -/
def Assembler.rename (s : Assembler) : Assembler :=
  { s with labels := s.labels.rename rho, references := s.references.map (Reference.rename rho) }

/-- The search under new names. -/
def Linking.rename (linking : Linking) : Linking :=
  { linking with
    labels := linking.labels.rename rho
    pending := linking.pending.map (Reference.rename rho) }

/-- The result of a stage under new names: it succeeds or stops as before. -/
def renameResult {σ : Type} (renameState : σ → σ) :
    EStateM.Result Stop σ Unit → EStateM.Result Stop σ Unit
  | .ok _ s => .ok () (renameState s)
  | .error stop s => .error (stop.rename rho) (renameState s)

/-- A move under new names. -/
def Move.rename : Move → Move
  | .define label => .define (rho label)
  | .note mnemonic label => .note mnemonic (rho label)
  | .halt stop => .halt (stop.rename rho)
  | move => move

end Rename

/-! ## §2. Encodings under new names. -/

section Words

theorem capture?_word {text : List Char} (word : ∀ c ∈ text, Text.isWordChar c = true) :
    Shape.word.capture? text = some text := by
  simp [Shape.capture?, Shape.word, Text.stripOpening?, Repetition.take?, Shape.atEnd,
    List.takeWhile_eq_self_iff.2 word]

/-- A word names itself. -/
theorem labelName?_of_isWord {text : String} (word : IsWord text) :
    labelName? text = some text := by
  unfold labelName?
  rw [capture?_word word]
  simp

/-- Only words are names of labels. -/
theorem isWord_of_labelName? {text label : String} (named : labelName? text = some label) :
    IsWord label := by
  obtain ⟨run, captured, rfl⟩ := Option.map_eq_some_iff.1 named
  intro c member
  rw [String.toList_ofList] at member
  -- what is captured is a run of word characters
  have run_eq : run = text.toList.takeWhile Text.isWordChar := by
    unfold Shape.capture? at captured
    simp only [Shape.word, Text.stripOpening?, Repetition.take?] at captured
    exact (Option.some.inj (Option.ite_none_left_eq_some.1 captured).2).symm
  rw [run_eq] at member
  exact List.mem_takeWhile_imp member

variable {rho : String → String} (words : ∀ name, IsWord name → IsWord (rho name))

include words

/-- **The label that an operand names is renamed**, and an operand that names none stays as it
is. -/
theorem labelName?_renameOperand (text : String) :
    labelName? (renameOperand rho text) = (labelName? text).map rho := by
  unfold renameOperand
  cases named : labelName? text with
  | none => exact named
  | some label => exact labelName?_of_isWord (words label (isWord_of_labelName? named))

namespace Instruction

theorem jumpTo_rename (name : String) (size : Nat) (operands : List String) :
    jumpTo name size (operands.modify 0 (renameOperand rho)) =
      (jumpTo name size operands).map (Encoding.rename rho) := by
  match operands with
  | [] => rfl
  | _ :: _ :: _ => rfl
  | [target] =>
    show jumpTo name size [renameOperand rho target] = _
    simp only [jumpTo, labelName?_renameOperand words]
    cases labelName? target <;> rfl

/-- No word is taken for the data pointer, and the data pointer is no word. -/
theorem renameOperand_eq_pointer_iff (target : String) :
    renameOperand rho target = "@A+DPTR" ↔ target = "@A+DPTR" := by
  have unnamed : labelName? "@A+DPTR" = none := by decide
  constructor
  · intro same
    have named := labelName?_renameOperand words target
    rw [same, unnamed] at named
    unfold renameOperand at same
    rwa [Option.map_eq_none_iff.1 named.symm] at same
  · rintro rfl
    unfold renameOperand
    rw [unnamed]

theorem jump_rename (operands : List String) :
    jump (operands.modify 0 (renameOperand rho)) = (jump operands).map (Encoding.rename rho) := by
  match operands with
  | [] => rfl
  | _ :: _ :: _ => rfl
  | [target] =>
    have same_pointer := renameOperand_eq_pointer_iff words target
    show jump [renameOperand rho target] = _
    simp only [jump]
    by_cases pointer : target = "@A+DPTR"
    · rw [if_pos pointer, if_pos (same_pointer.2 pointer)]
      rfl
    · rw [if_neg pointer, if_neg fun same => pointer (same_pointer.1 same)]
      exact jumpTo_rename words "JMP" 2 [target]

theorem branch_rename (name : String) (opcode : Nat) (operands : List String) :
    branch name opcode (operands.modify 0 (renameOperand rho)) =
      (branch name opcode operands).map (Encoding.rename rho) := by
  match operands with
  | [] => rfl
  | _ :: _ :: _ => rfl
  | [target] =>
    show branch name opcode [renameOperand rho target] = _
    simp only [branch, labelName?_renameOperand words]
    cases labelName? target <;> rfl

theorem branchOnBit_rename (name : String) (opcode : Nat) (operands : List String) :
    branchOnBit name opcode (operands.modify 1 (renameOperand rho)) =
      (branchOnBit name opcode operands).map (Encoding.rename rho) := by
  match operands with
  | [] => rfl
  | [_] => rfl
  | _ :: _ :: _ :: _ => rfl
  | [bit, target] =>
    show branchOnBit name opcode [bit, renameOperand rho target] = _
    simp only [branchOnBit, labelName?_renameOperand words]
    cases decimalBitAddress bit with
    | error refusal => rfl
    | ok address => cases labelName? target <;> rfl

theorem storeThenAwait_rename (name : String) (cells : List Nat) (target : String) :
    storeThenAwait name cells (renameOperand rho target) =
      (storeThenAwait name cells target).map (Encoding.rename rho) := by
  simp only [storeThenAwait, labelName?_renameOperand words]
  cases labelName? target <;> rfl

theorem compareBranch_rename (operands : List String) :
    compareBranch (operands.modify 2 (renameOperand rho)) =
      (compareBranch operands).map (Encoding.rename rho) := by
  match operands with
  | [] => rfl
  | [_] => rfl
  | [_, _] => rfl
  | _ :: _ :: _ :: _ :: _ => rfl
  | [left, right, target] =>
    show compareBranch [left, right, renameOperand rho target] = _
    simp only [compareBranch, bind, Except.bind]
    cases compareCells left right with
    | error refusal => rfl
    | ok cells => exact storeThenAwait_rename words _ cells target

theorem countBranch_rename (operands : List String) :
    countBranch (operands.modify 1 (renameOperand rho)) =
      (countBranch operands).map (Encoding.rename rho) := by
  match operands with
  | [] => rfl
  | [_] => rfl
  | _ :: _ :: _ :: _ => rfl
  | [counter, target] =>
    show countBranch [counter, renameOperand rho target] = _
    simp only [countBranch, bind, Except.bind]
    cases countCells counter with
    | error refusal => rfl
    | ok cells => exact storeThenAwait_rename words _ cells target

end Instruction

open Instruction

omit words in
/-- An operation without an operand for a label refers to none. -/
theorem Mnemonic.encode_rename_of_unlabelled {mnemonic : Mnemonic}
    (unlabelled : LinkKind.ofMnemonic? mnemonic.name = none) (operands : List String) :
    mnemonic.encode operands = (mnemonic.encode operands).map (Encoding.rename rho) := by
  cases encoded : mnemonic.encode operands with
  | error refusal => rfl
  | ok encoding =>
    have shaped := Mnemonic.shaped_of_encode encoded
    cases waits : encoding.reference with
    | some reference =>
      have labelled : encoding.label = some reference.label := congrArg (Option.map _) waits
      exact absurd (shaped.linked reference.label labelled) (by simp [unlabelled])
    | none =>
      show Except.ok encoding =
        .ok { encoding with reference := encoding.reference.map (Reference.rename rho) }
      rw [waits, Option.map_none, ← waits]

/-- **Every operation is encoded as before, with its label renamed.**  Whether it is refused, and
why, does not depend on the names either. -/
theorem Mnemonic.encode_rename (mnemonic : Mnemonic) (operands : List String) :
    mnemonic.encode (renameOperands rho mnemonic.name operands) =
      (mnemonic.encode operands).map (Encoding.rename rho) := by
  -- one lemma for each form that refers to a label; the other operations have no such operand
  cases mnemonic with
  | ajmp | acall | ljmp | lcall => exact jumpTo_rename words _ _ operands
  | jmp => exact jump_rename words operands
  | jc | jnc | jz | jnz | sjmp => exact branch_rename words _ _ operands
  | jbc | jb | jnb => exact branchOnBit_rename words _ _ operands
  | cjne => exact compareBranch_rename words operands
  | djnz => exact countBranch_rename words operands
  | _ => exact encode_rename_of_unlabelled rfl operands

/-! ## §3. Moves under new names. -/

omit words in
theorem Encoding.moves_rename (encoding : Encoding) :
    (encoding.rename rho).moves = encoding.moves.map (Move.rename rho) := by
  have cells : (encoding.cells.map Move.store).map (Move.rename rho) =
      encoding.cells.map Move.store := by
    rw [List.map_map]
    rfl
  obtain ⟨stored, reference, noteFirst⟩ := encoding
  cases reference with
  | none => exact cells.symm
  | some reference =>
    cases noteFirst with
    | true => exact congrArg _ cells.symm
    | false =>
      show stored.map Move.store ++ [.note reference.mnemonic (rho reference.label)] =
        (stored.map Move.store ++ _).map _
      rw [List.map_append]
      exact congrArg (· ++ _) cells.symm

omit words in
theorem Refusal.moves_rename (mnemonic : String) (line : Int) (refusal : Refusal) :
    refusal.moves mnemonic line = (refusal.moves mnemonic line).map (Move.rename rho) := by
  cases refusal with
  | crash fault => rfl
  | malformed stored =>
    unfold Refusal.moves
    rw [List.map_append, List.map_map]
    rfl

/-- **The moves of a statement are the same, under new names.** -/
theorem Statement.moves_rename (statement : Statement) :
    (statement.rename rho).moves = statement.moves.map (Move.rename rho) := by
  obtain ⟨line, body⟩ := statement
  cases body with
  | label name => rfl
  | operation mnemonic operands =>
    show Body.movesOf line mnemonic (renameOperands rho mnemonic operands) = List.map _
      (Body.movesOf line mnemonic operands)
    unfold Body.movesOf
    by_cases isOrigin : mnemonic = "ORG"
    · -- an origin has no operand that names a label
      subst isOrigin
      have same : renameOperands rho "ORG" operands = operands := rfl
      rw [if_pos rfl, if_pos rfl, same]
      cases origin operands with
      | ok address => rfl
      | error refusal => exact Refusal.moves_rename "ORG" line refusal
    · rw [if_neg isOrigin, if_neg isOrigin]
      cases found : Mnemonic.ofName? mnemonic with
      | none => rfl
      | some known =>
        dsimp only
        obtain rfl := Mnemonic.name_of_ofName? found
        rw [Mnemonic.encode_rename words known operands]
        cases known.encode operands with
        | ok encoding => exact encoding.moves_rename
        | error refusal => exact Refusal.moves_rename known.name line refusal

/-- The moves of a program are the same, under new names. -/
theorem Assembler.moves_rename (program : List Statement) :
    moves (program.map (Statement.rename rho)) = (moves program).map (Move.rename rho) := by
  have same_end : ∀ statement : Statement, (statement.rename rho).isEnd = statement.isEnd := by
    intro statement
    obtain ⟨line, body⟩ := statement
    cases body <;> rfl
  have later : movesOf (program.map (Statement.rename rho)) =
      (movesOf program).map (Move.rename rho) := by
    induction program with
    | nil => rfl
    | cons statement rest ih =>
      rw [List.map_cons]
      unfold movesOf
      rw [same_end]
      by_cases ends : statement.isEnd = true
      · rw [if_pos ends, if_pos ends]
        rfl
      · rw [if_neg ends, if_neg ends, Statement.moves_rename words, ih, List.map_append]
  unfold moves
  rw [later]
  rfl

end Words

/-! ## §4. Stages under new names. -/

/-- All labels in the table and all labels that are referred to are among the names. -/
structure Named (names : List String) (labels : LabelTable) (references : List Reference) :
    Prop where
  keys : ∀ entry ∈ labels.entries, entry.1 ∈ names
  targets : ∀ reference ∈ references, reference.label ∈ names

/-- The label that a move defines or refers to. -/
def Move.label? : Move → Option String
  | .define label => some label
  | .note _ label => some label
  | _ => none

section Injective

variable {rho : String → String} {names : List String}

/-- A move adds no other label than its own. -/
theorem Move.named_of_perform {move : Move} {s t : Assembler} (h : move.perform s = .ok () t)
    (own : ∀ label ∈ move.label?, label ∈ names) (named : Named names s.labels s.references) :
    Named names t.labels t.references := by
  have does := perform_eq_ok h
  cases move with
  | goTo address =>
    obtain rfl : t = _ := does
    exact named
  | store cell =>
    obtain ⟨slot, _, rfl⟩ := does
    exact named
  | define label =>
    obtain ⟨_, rfl⟩ := does
    refine ⟨?_, named.targets⟩
    intro entry member
    rcases List.mem_cons.1 member with rfl | kept
    · exact own label rfl
    · exact named.keys entry (List.mem_filter.1 kept).1
  | note mnemonic label =>
    obtain rfl : t = _ := does
    refine ⟨named.keys, ?_⟩
    intro reference member
    rcases List.mem_append.1 member with before | new
    · exact named.targets reference before
    · rw [List.mem_singleton.1 new]
      exact own label rfl
  | halt stop => exact absurd does id

variable (injective : ∀ a ∈ names, ∀ b ∈ names, rho a = rho b → a = b)

include injective

namespace LabelTable

/-- A label is found under its new name where it was found before. -/
theorem find?_rename {labels : LabelTable} (keys : ∀ entry ∈ labels.entries, entry.1 ∈ names)
    {label : String} (member : label ∈ names) :
    (labels.rename rho).find? (rho label) = labels.find? label := by
  obtain ⟨entries⟩ := labels
  show (entries.map fun entry => (rho entry.1, entry.2)).lookup (rho label) = entries.lookup label
  induction entries with
  | nil => rfl
  | cons entry rest ih =>
    obtain ⟨key, address⟩ := entry
    obtain ⟨key_member, keys_rest⟩ := List.forall_mem_cons.1 keys
    rw [List.map_cons, List.lookup_cons, List.lookup_cons, ih keys_rest]
    by_cases hit : label = key
    · simp [hit]
    · -- other labels keep other names
      have differs : rho label ≠ rho key := fun same =>
        hit (injective label member key key_member same)
      rw [beq_eq_false_iff_ne.2 hit, beq_eq_false_iff_ne.2 differs]

theorem insert_rename {labels : LabelTable} (keys : ∀ entry ∈ labels.entries, entry.1 ∈ names)
    {label : String} (member : label ∈ names) (address : Int) :
    (labels.insert label address).rename rho = (labels.rename rho).insert (rho label) address := by
  unfold insert rename
  congr 1
  rw [List.map_cons, List.filter_map]
  congr 2
  -- an entry is dropped under its new name if it is dropped under its old one
  refine List.filter_congr fun entry among => ?_
  have same_name : rho entry.1 = rho label ↔ entry.1 = label :=
    ⟨injective entry.1 (keys entry among) label member, congrArg rho⟩
  simp [bne, same_name]

omit injective in
theorem shiftAbove_rename (labels : LabelTable) (above : Int) :
    (labels.shiftAbove above).rename rho = (labels.rename rho).shiftAbove above := by
  unfold shiftAbove rename
  rw [List.map_map, List.map_map]
  rfl

end LabelTable

/-- **Step**: a move under new names does the same. -/
theorem Move.perform_rename {move : Move} {s : Assembler}
    (named : Named names s.labels s.references)
    (own : ∀ label ∈ move.label?, label ∈ names) :
    (move.rename rho).perform (s.rename rho) =
      renameResult rho (Assembler.rename rho) (move.perform s) := by
  cases move with
  | goTo address => rfl
  | halt stop => rfl
  | store cell =>
    have same_slot : (s.rename rho).memory.slot? (s.rename rho).counter =
        s.memory.slot? s.counter := rfl
    show Assembler.storeCell cell (s.rename rho) = renameResult rho _ (Assembler.storeCell cell s)
    unfold Assembler.storeCell
    rw [same_slot]
    cases s.memory.slot? s.counter <;> rfl
  | define label =>
    have member := own label rfl
    have found : (s.rename rho).labels.find? (rho label) = s.labels.find? label :=
      LabelTable.find?_rename injective named.keys member
    show Assembler.define (rho label) (s.rename rho) = renameResult rho _ (Assembler.define label s)
    unfold Assembler.define
    rw [found]
    cases s.labels.find? label with
    | some address => rfl
    | none =>
      show EStateM.Result.ok () { s.rename rho with
        labels := (s.labels.rename rho).insert (rho label) s.counter } = _
      rw [← LabelTable.insert_rename injective named.keys member]
      rfl
  | note mnemonic label =>
    have noted : (s.references ++ [(⟨mnemonic, label⟩ : Reference)]).map (Reference.rename rho) =
        s.references.map (Reference.rename rho) ++ [⟨mnemonic, rho label⟩] := List.map_append
    show EStateM.Result.ok () ({ s.rename rho with
      references :=
        s.references.map (Reference.rename rho) ++ [⟨mnemonic, rho label⟩] } : Assembler) = _
    rw [← noted]
    rfl

/-- **Run**: moves under new names do the same. -/
theorem Move.performAll_rename {moves : List Move} {s : Assembler}
    (named : Named names s.labels s.references)
    (own : ∀ move ∈ moves, ∀ label ∈ move.label?, label ∈ names) :
    performAll (moves.map (rename rho)) (s.rename rho) =
      renameResult rho (Assembler.rename rho) (performAll moves s) := by
  induction moves generalizing s with
  | nil => rfl
  | cons move rest ih =>
    obtain ⟨own_first, own_rest⟩ := List.forall_mem_cons.1 own
    have first := perform_rename injective named own_first
    show EStateM.bind ((move.rename rho).perform) (fun _ => performAll (rest.map (rename rho)))
        (s.rename rho) =
      renameResult rho _ (EStateM.bind move.perform (fun _ => performAll rest) s)
    unfold EStateM.bind
    rw [first]
    -- a move that stops ends both runs, and one that succeeds brings no other names
    cases performed : move.perform s with
    | error stop t => rfl
    | ok _ t => exact ih (named_of_perform performed own_first named) own_rest

omit injective in
/-- A patch makes the same room under new names. -/
theorem Linking.apply_rename (linking : Linking) (patch : Patch) (address : Int)
    (pending : List Reference) :
    (linking.rename rho).apply patch address (pending.map (Reference.rename rho)) =
      (linking.apply patch address pending).rename rho := by
  unfold apply
  split
  · show (⟨_, (linking.labels.rename rho).shiftAbove address, _⟩ : Linking) = _
    rw [← LabelTable.shiftAbove_rename]
    rfl
  · rfl

omit injective in
theorem Linking.named_apply {linking : Linking} {patch : Patch} {address : Int}
    {reference : Reference}
    {pending : List Reference} (named : Named names linking.labels linking.pending)
    (next : linking.pending = reference :: pending) :
    Named names (linking.apply patch address pending).labels pending := by
  refine ⟨?_, fun other member =>
    named.targets other (next ▸ List.mem_cons_of_mem reference member)⟩
  unfold apply
  dsimp only
  split
  · intro entry member
    obtain ⟨before, among, rfl⟩ := List.mem_map.1 member
    exact named.keys before among
  · exact named.keys

/-- **The search under new names does the same**, also where jumps grow. -/
theorem Linking.scan_rename {covered : Nat} {ahead : List Int} {linking : Linking}
    (named : Named names linking.labels linking.pending) :
    scan covered ahead (linking.rename rho) =
      renameResult rho (Linking.rename rho) (scan covered ahead linking) := by
  induction ahead generalizing covered linking with
  | nil => cases covered <;> rfl
  | cons cell ahead ih =>
    cases covered with
    | succ covered => exact ih named
    | zero =>
      by_cases here : cell = (placeholder : Int)
      · -- the same reference is next, and its label is found at the same address
        subst here
        have pending_eq : (linking.rename rho).pending =
            linking.pending.map (Reference.rename rho) := rfl
        rw [scan, scan, if_neg (by simp), if_neg (by simp), pending_eq]
        cases next : linking.pending with
        | nil => rfl
        | cons reference pending =>
          have member : reference.label ∈ names :=
            named.targets reference (next ▸ List.mem_cons_self)
          have found : (linking.rename rho).labels.find? (reference.rename rho).label =
              linking.labels.find? reference.label :=
                LabelTable.find?_rename injective named.keys member
          have same_kind : LinkKind.ofMnemonic? (reference.rename rho).mnemonic =
              LinkKind.ofMnemonic? reference.mnemonic := rfl
          rw [List.map_cons]
          dsimp only
          rw [found, same_kind]
          cases LinkKind.ofMnemonic? reference.mnemonic with
          | none => exact @ih 0 (linking.keep [(placeholder : Int)]) named
          | some kind =>
            cases linking.labels.find? reference.label with
            | none => rfl
            | some address =>
              dsimp only
              rw [apply_rename]
              exact ih (named_apply named next)
      · rw [scan, scan, if_pos here, if_pos here]
        exact @ih 0 (linking.keep [cell]) named

/-- **Linking under new names does the same.** -/
theorem Assembler.link_rename {s : Assembler} (named : Named names s.labels s.references) :
    link (s.rename rho) = renameResult rho (Assembler.rename rho) (link s) := by
  have searched : Linking.scan 0 (s.rename rho).memory.cells.toList
        ⟨#[], (s.rename rho).labels, (s.rename rho).references⟩ =
      renameResult rho (Linking.rename rho)
        (Linking.scan 0 s.memory.cells.toList ⟨#[], s.labels, s.references⟩) :=
    @Linking.scan_rename _ _ injective 0 _ ⟨#[], s.labels, s.references⟩ named
  unfold link
  rw [searched]
  cases Linking.scan 0 s.memory.cells.toList ⟨#[], s.labels, s.references⟩ <;> rfl

end Injective

/-! ## §5. Runs under new names. -/

/-- The labels that lines define or refer to. -/
def Layout.names (lines : List Body) : List String :=
  lines.filterMap Body.label? ++ (lines.filterMap Body.reference?).map Reference.label

/-- An instruction moves no other label than the one it waits for. -/
theorem Encoding.label_of_mem_moves {move : Move} {label : String} (encoding : Encoding)
    (member : move ∈ encoding.moves) (labelled : label ∈ move.label?) :
    encoding.label = some label := by
  -- what is left is the note, before or after the cells
  have stored : move ∉ encoding.cells.map Move.store := by
    intro among
    obtain ⟨cell, _, rfl⟩ := List.mem_map.1 among
    exact absurd labelled (by simp [Move.label?])
  unfold Encoding.moves at member
  cases waits : encoding.reference with
  | none =>
    rw [waits] at member
    exact absurd member stored
  | some reference =>
    rw [waits] at member
    have noted : move = .note reference.mnemonic reference.label := by
      dsimp only at member
      split at member
      · exact (List.mem_cons.1 member).resolve_right stored
      · exact List.mem_singleton.1 ((List.mem_append.1 member).resolve_left stored)
    subst noted
    exact (congrArg (Option.map _) waits).trans labelled

/-- A statement moves no other label than the one it defines or refers to. -/
theorem Statement.label_of_mem_moves {statement : Statement} {move : Move}
    (member : move ∈ statement.moves) {label : String} (labelled : label ∈ move.label?) :
    statement.body.label? = some label ∨
      ∃ reference, statement.body.reference? = some reference ∧ reference.label = label := by
  obtain ⟨line, body⟩ := statement
  -- a refused operation stores cells and halts
  have refused : ∀ (refusal : Refusal) (mnemonic : String), move ∉ refusal.moves mnemonic line := by
    intro refusal mnemonic among
    cases refusal with
    | crash fault =>
      obtain rfl := List.mem_singleton.1 among
      exact absurd labelled (by simp [Move.label?])
    | malformed stored =>
      rcases List.mem_append.1 among with store | halt
      · obtain ⟨cell, _, rfl⟩ := List.mem_map.1 store
        exact absurd labelled (by simp [Move.label?])
      · obtain rfl := List.mem_singleton.1 halt
        exact absurd labelled (by simp [Move.label?])
  cases body with
  | label name =>
    obtain rfl := List.mem_singleton.1 member
    exact .inl labelled
  | operation mnemonic operands =>
    change move ∈ Body.movesOf line mnemonic operands at member
    unfold Body.movesOf at member
    by_cases isOrigin : mnemonic = "ORG"
    · rw [if_pos isOrigin] at member
      cases reached : origin operands with
      | error refusal =>
        rw [reached] at member
        exact absurd member (refused refusal mnemonic)
      | ok address =>
        rw [reached] at member
        obtain rfl := List.mem_singleton.1 member
        exact absurd labelled (by simp [Move.label?])
    · rw [if_neg isOrigin] at member
      cases found : Mnemonic.ofName? mnemonic with
      | none =>
        rw [found] at member
        obtain rfl := List.mem_singleton.1 member
        exact absurd labelled (by simp [Move.label?])
      | some known =>
        cases encoded : known.encode operands with
        | error refusal =>
          simp only [found, encoded] at member
          exact absurd member (refused refusal mnemonic)
        | ok encoding =>
          simp only [found, encoded] at member
          have named := encoding.label_of_mem_moves member labelled
          refine .inr ⟨⟨mnemonic, label⟩, ?_, rfl⟩
          have read : (Body.operation mnemonic operands).encoding? = some encoding := by
            simp [Body.encoding?, isOrigin, found, encoded, Except.toOption]
          show (Body.operation mnemonic operands).encoding?.bind _ = _
          rw [read]
          exact congrArg (Option.map _) named

namespace Assembler

theorem named_ofSize (names : List String) (size : Nat) :
    Named names (ofSize size).labels (ofSize size).references :=
  ⟨fun _ member => absurd member List.not_mem_nil, fun _ member => absurd member List.not_mem_nil⟩

theorem exists_of_mem_movesOf {program : List Statement} {move : Move}
    (member : move ∈ movesOf program) :
    ∃ statement : Statement, statement.body ∈ Layout.beforeEnd (Statement.bodies program) ∧
      move ∈ statement.moves := by
  induction program with
  | nil => exact absurd member List.not_mem_nil
  | cons statement rest ih =>
    unfold movesOf at member
    by_cases ends : statement.isEnd = true
    · rw [if_pos ends] at member
      exact absurd member List.not_mem_nil
    · have lines : Layout.beforeEnd (Statement.bodies (statement :: rest)) =
          statement.body :: Layout.beforeEnd (Statement.bodies rest) :=
        List.takeWhile_cons_of_pos (by simpa [Statement.isEnd_eq] using ends)
      rw [if_neg ends] at member
      rw [lines]
      rcases List.mem_append.1 member with here | later
      · exact ⟨statement, List.mem_cons_self, here⟩
      · obtain ⟨other, among, moved⟩ := ih later
        exact ⟨other, List.mem_cons_of_mem _ among, moved⟩

/-- The moves of a program move the labels that its lines define or refer to. -/
theorem label_mem_names {program : List Statement} {move : Move} (member : move ∈ moves program)
    {label : String} (labelled : label ∈ move.label?) :
    label ∈ Layout.names (Layout.beforeEnd (Statement.bodies program)) := by
  rcases List.mem_cons.1 member with rfl | later
  · exact absurd labelled (by simp [Move.label?])
  · obtain ⟨statement, among, moved⟩ := exists_of_mem_movesOf later
    rcases Statement.label_of_mem_moves moved labelled with defined | ⟨reference, refers, rfl⟩
    · exact List.mem_append_left _ (List.mem_filterMap.2 ⟨_, among, defined⟩)
    · exact List.mem_append_right _ (List.mem_map_of_mem (List.mem_filterMap.2 ⟨_, among, refers⟩))

/-- Placing a program leaves no other labels than those of its lines. -/
theorem named_of_assemble {size : Nat} {program : List Statement} {placed : Assembler}
    (assembled : assemble program (ofSize size) = .ok () placed) :
    Named (Layout.names (Layout.beforeEnd (Statement.bodies program))) placed.labels
      placed.references := by
  rw [assemble_eq_performAll] at assembled
  refine @Move.performAll_keeps (fun s => Named _ s.labels s.references) _ _ _ ?_ assembled ?_
  · intro move member u v performed named
    exact Move.named_of_perform performed (fun label => label_mem_names member) named
  · exact named_ofSize _ size

/-- A whole run on a program that has been read. -/
def finish (program : List Statement) (s : Assembler) : Report :=
  match (assemble program >>= fun _ => link) s with
  | .ok _ final => ⟨final.memory.listing.outcome, final⟩
  | .error stop final => ⟨stop.outcome, final⟩

/-- A run on a source text is one on what has been read. -/
theorem run_eq_finish {text : String} {program : List Statement}
    (parsed : Statement.parse (Source.lines text) = .ok program) (s : Assembler) :
    s.run text = s.finish program := by
  have built := build_of_parse parsed s
  cases ends : (assemble program >>= fun _ => link) s with
  | ok _ final => simp only [run, finish, built, ends]
  | error stop final => simp only [run, finish, built, ends]

end Assembler

/-- Two stages under new names, one after the other. -/
theorem bind_rename {rho : String → String} {first first' second : AssemblerM Unit} {s : Assembler}
    (begins : first' s = renameResult rho (Assembler.rename rho) (first s))
    (goes_on : ∀ t, first s = .ok () t →
      second (t.rename rho) = renameResult rho (Assembler.rename rho) (second t)) :
    (first' >>= fun _ => second) s =
      renameResult rho (Assembler.rename rho) ((first >>= fun _ => second) s) := by
  show EStateM.bind first' (fun _ => second) s =
    renameResult rho _ (EStateM.bind first (fun _ => second) s)
  unfold EStateM.bind
  rw [begins]
  cases ends : first s with
  | ok _ t => exact goes_on t ends
  | error stop t => rfl

/-- A stop ends a run in the same way under new names. -/
theorem Stop.ending_rename (rho : String → String) (stop : Stop) :
    (stop.rename rho).outcome.ending = stop.outcome.ending := by
  cases stop <;> rfl

/-- Only a diagnostic names labels. -/
theorem Stop.outcome_rename (rho : String → String) {stop : Stop}
    (crashed : stop.outcome.ending ≠ .exited 1) : (stop.rename rho).outcome = stop.outcome := by
  cases stop with
  | reported diagnostic => exact absurd rfl crashed
  | crashed crash => rfl

open Assembler in
/-- **The names of labels do not matter.**  Let all labels of a program be renamed, wherever they
are defined and wherever an operand names one, by a map from words to words that keeps apart the
labels defined or referred to before the end directive.  Then each stage succeeds if it succeeded
before, and stops in the same way if it stopped; in all cases the memory and the counter are the
same, and the labels stand where they stood, under their new names.  So the whole run ends as
before.  It also prints the same, unless what it prints is a diagnostic. -/
theorem renaming_keeps_runs (size : Nat) {program : List Statement} {rho : String → String}
    (words : ∀ name, IsWord name → IsWord (rho name))
    (injective : ∀ a ∈ Layout.names (Layout.beforeEnd (Statement.bodies program)),
      ∀ b ∈ Layout.names (Layout.beforeEnd (Statement.bodies program)), rho a = rho b → a = b) :
    assemble (program.map (Statement.rename rho)) (ofSize size) =
        renameResult rho (Assembler.rename rho) (assemble program (ofSize size)) ∧
      (∀ placed, assemble program (ofSize size) = .ok () placed →
        link (placed.rename rho) = renameResult rho (Assembler.rename rho) (link placed)) ∧
      ((ofSize size).finish (program.map (Statement.rename rho))).state =
        ((ofSize size).finish program).state.rename rho ∧
      ((ofSize size).finish (program.map (Statement.rename rho))).outcome.ending =
        ((ofSize size).finish program).outcome.ending ∧
      (((ofSize size).finish program).outcome.ending ≠ .exited 1 →
        ((ofSize size).finish (program.map (Statement.rename rho))).outcome =
          ((ofSize size).finish program).outcome) := by
  have placing : assemble (program.map (Statement.rename rho)) (ofSize size) =
      renameResult rho (Assembler.rename rho) (assemble program (ofSize size)) := by
    rw [assemble_eq_performAll, assemble_eq_performAll, moves_rename words]
    exact @Move.performAll_rename _ _ injective (moves program) _ (named_ofSize _ size)
      fun move member label => label_mem_names member
  have linking : ∀ placed, assemble program (ofSize size) = .ok () placed →
      link (placed.rename rho) = renameResult rho (Assembler.rename rho) (link placed) :=
    fun placed assembled => link_rename injective (named_of_assemble assembled)
  refine ⟨placing, linking, ?_⟩
  -- both runs end after the same stage
  unfold finish
  rw [bind_rename placing linking]
  cases (assemble program >>= fun _ => link) (ofSize size) with
  | ok _ final => exact ⟨rfl, rfl, fun _ => rfl⟩
  | error stop final => exact ⟨rfl, stop.ending_rename rho, stop.outcome_rename rho⟩

/-- Two labels exchange their names. -/
def exchangeNames (name : String) : String :=
  if name = "LOOP" then "HERE" else if name = "HERE" then "LOOP" else name

/-- A program with two loops prints the same after they have exchanged their names. -/
theorem renaming_keeps_runs_exchanged :
    (loopProgram.map (Statement.rename exchangeNames))[11]? =
        some ⟨12, .operation "DJNZ" ["R5", "LOOP"]⟩ ∧
      ((Assembler.ofSize 18).finish (loopProgram.map (Statement.rename exchangeNames))).outcome =
        ((Assembler.ofSize 18).run loopSource).outcome ∧
      ((Assembler.ofSize 18).finish
        (loopProgram.map (Statement.rename exchangeNames))).state.labels.find?
        "LOOP" = some 13 := by
  have words : ∀ name, IsWord name → IsWord (exchangeNames name) := by
    intro name word
    unfold exchangeNames
    split
    · decide +kernel
    · split
      · decide +kernel
      · exact word
  have parsed : Statement.parse (Source.lines loopSource) = .ok loopProgram := by decide +kernel
  have ends : ((Assembler.ofSize 18).finish loopProgram).outcome.ending ≠ .exited 1 := by
    decide +kernel
  obtain ⟨_, _, state_eq, _, outcome_eq⟩ :=
    @renaming_keeps_runs 18 loopProgram exchangeNames words (by decide +kernel)
  refine ⟨by decide +kernel, ?_, ?_⟩
  · rw [Assembler.run_eq_finish parsed]
    exact outcome_eq ends
  · rw [state_eq]
    decide +kernel

end Mcs51
