/-
  Mcs51.Proofs.OperationEndings — how an operation ends where there is room for it.

  A state with room for three cells has room for every operation.  There it only depends on the
  operands how an operation ends: it is carried out, or it is refused and leaves the state as it
  was, or it is refused when its cells are stored, or the encoder fails and leaves the state as it
  was.

  Main definitions:
    * `Assembler.Roomy` : room for three cells;
    * `Assembler.stored` : the state with some cells stored;
    * `Assembler.Concludes` : the four endings.

  Main statements:
    * `Assembler.concludes_process` : there is no other ending;
    * `encoder_fails_only_at_pitfalls` : when the encoder fails;
    * `refused_statement_keeps_state` : when a refused statement changes the state.
-/
import Mcs51.Proofs.Refusals

namespace Mcs51

/-! ## §1. Where there is room. -/

namespace Assembler

/-- **There is room for three cells**, the most that an operation has. -/
structure Roomy (s : Assembler) : Prop where
  start : 0 ≤ s.counter
  fits : s.counter + 3 ≤ s.memory.cells.size
  /-- No memory has more cells than addresses can reach. -/
  reachable : s.memory.cells.size ≤ Memory.maxAddress

/-- The state with cells stored from the counter on, and nothing else changed. -/
def stored (s : Assembler) (cells : List Nat) : Assembler :=
  { s with
    memory := s.memory.write s.counter.toNat (asStored cells)
    counter := s.counter + cells.length }

variable {s : Assembler} {cells : List Nat}

theorem Roomy.room (roomy : s.Roomy) (short : cells.length ≤ 3) : s.Room cells.length := by
  obtain ⟨start, fits, reachable⟩ := roomy
  exact room_of_fits (Int.toNat_of_nonneg start).symm (by omega) reachable

theorem Roomy.store_eq (roomy : s.Roomy) (short : cells.length ≤ 3) :
    store (asStored cells) s = .ok () (s.stored cells) := by
  obtain ⟨start, fits, reachable⟩ := roomy
  have at_counter : s.counter = s.counter.toNat := (Int.toNat_of_nonneg start).symm
  rw [store_of_fits _ s _ at_counter (by rw [length_asStored]; omega) reachable, length_asStored]
  have counter_eq : ((s.counter.toNat + cells.length : Nat) : Int) = s.counter + cells.length := by
    omega
  rw [counter_eq, stored]

theorem Roomy.refuse_eq (roomy : s.Roomy) (short : cells.length ≤ 3) (mnemonic : String)
    (line : Int) :
    refuse mnemonic line (.malformed cells) s =
      .error (.reported (.malformed mnemonic line)) (s.stored cells) := by
  show (store (asStored cells) >>= fun _ => throw _) s = _
  rw [bind_of_ok (roomy.store_eq short)]
  rfl

end Assembler

/-! ## §2. The four endings. -/

namespace Body.StoresEarly

variable {mnemonic : String} {operands : List String} {cells : List Nat}

/-- Cells that are accepted with a label are stored without one. -/
theorem refused_of_accepted {front : Except Refusal (List Nat)} {name label target : String}
    {encoding : Encoding}
    (accepted : (front >>= fun cells => Instruction.storeThenAwait name cells label) = .ok encoding)
    (unlabelled : labelName? target = none) :
    (front >>= fun cells => Instruction.storeThenAwait name cells target) =
      .error (.malformed encoding.cells) := by
  cases front with
  | error refusal => exact nomatch accepted
  | ok cells =>
    have awaited : Instruction.storeThenAwait name cells label = .ok encoding := accepted
    show Instruction.storeThenAwait name cells target = _
    unfold Instruction.storeThenAwait at awaited ⊢
    rw [unlabelled]
    split at awaited
    · rw [← Except.ok.inj awaited]
    · exact nomatch awaited

/-- The encoder hands over the cells together with its refusal. -/
theorem exists_encode (early : (Body.operation mnemonic operands).StoresEarly cells) :
    ∃ known : Mnemonic, known.name = mnemonic ∧
      known.encode operands = .error (.malformed cells) := by
  cases early with
  | rotation accumulator count =>
    refine ⟨.rlc, rfl, ?_⟩
    obtain ⟨rest, rfl⟩ := List.head?_eq_some_iff.1 accumulator
    match rest with
    | [] | _ :: _ :: _ => rfl
    | [_] => exact absurd rfl count
  | comparison accepted unlabelled => exact ⟨.cjne, rfl, refused_of_accepted accepted unlabelled⟩
  | countdown accepted unlabelled => exact ⟨.djnz, rfl, refused_of_accepted accepted unlabelled⟩

/-- There are as many cells as an instruction has. -/
theorem length_bounds {body : Body} (early : body.StoresEarly cells) :
    cells ≠ [] ∧ cells.length ≤ 3 := by
  cases early with
  | rotation => decide
  | comparison accepted =>
    have shaped := Mnemonic.shaped_of_encode accepted
    exact ⟨shaped.nonempty, shaped.length_le⟩
  | countdown accepted =>
    have shaped := Mnemonic.shaped_of_encode accepted
    exact ⟨shaped.nonempty, shaped.length_le⟩

end Body.StoresEarly

namespace Assembler

/-- **How an operation ends where there is room for it.** -/
inductive Concludes (line : Int) (mnemonic : String) (operands : List String) (s : Assembler) :
    EStateM.Result Stop Assembler Unit → Prop where
  /-- It is carried out. -/
  | done (t : Assembler) : Concludes line mnemonic operands s (.ok () t)
  /-- It is refused, and the state is as before. -/
  | refused (diagnostic : Diagnostic) :
    Concludes line mnemonic operands s (.error (.reported diagnostic) s)
  /-- It is refused when its cells are stored. -/
  | late {cells : List Nat} (early : (Body.operation mnemonic operands).StoresEarly cells) :
    Concludes line mnemonic operands s
      (.error (.reported (.malformed mnemonic line)) (s.stored cells))
  /-- The encoder fails, and the state is as before. -/
  | failed {crash : Crash} (pitfall : Pitfall mnemonic operands crash) :
    Concludes line mnemonic operands s (.error (.crashed crash) s)

variable {operands : List String} {s : Assembler} (line : Int)

theorem concludes_refuse {mnemonic : String} {refusal : Refusal}
    (reason : Reason mnemonic operands refusal) (roomy : s.Roomy) :
    Concludes line mnemonic operands s (refuse mnemonic line refusal s) := by
  cases reason with
  | misfit => exact .refused _
  | late early =>
    rw [roomy.refuse_eq early.length_bounds.2]
    exact .late early
  | failure pitfall => exact .failed pitfall

theorem concludes_operate (mnemonic : String) (nonempty : operands ≠ []) (roomy : s.Roomy) :
    Concludes line mnemonic operands s (operate line mnemonic operands s) := by
  by_cases directive : mnemonic = "ORG"
  · subst directive
    unfold operate
    rw [if_pos rfl]
    cases read : origin operands with
    | ok address => exact .done _
    | error refusal => exact concludes_refuse line (explained_origin refusal read) roomy
  · cases found : Mnemonic.ofName? mnemonic with
    | none =>
      unfold operate
      rw [if_neg directive, found]
      exact .refused _
    | some known =>
      obtain rfl := Mnemonic.name_of_ofName? found
      cases encoded : known.encode operands with
      | ok encoding =>
        have short := (Mnemonic.shaped_of_encode encoded).length_le
        have places : known.Places operands line s encoding.cells encoding.label :=
          Mnemonic.places_of_encode encoded (roomy.room short)
        obtain ⟨t, _, operated⟩ := places
        rw [operated]
        exact .done _
      | error refusal =>
        rw [Mnemonic.operate_of_refusal encoded]
        exact concludes_refuse line (known.explained_encode nonempty refusal encoded) roomy

/-- The end directive is carried out whatever its operands are. -/
theorem concludes_process (mnemonic : String) (nonempty : operands ≠ []) (roomy : s.Roomy) :
    Concludes line mnemonic operands s (process [⟨line, .operation mnemonic operands⟩] s) := by
  rw [process_operation]
  split
  · exact .done s
  · exact concludes_operate line mnemonic nonempty roomy

end Assembler

/-- A label that cannot be defined changes nothing. -/
theorem Assembler.eq_of_define_error {line : Int} {name : String} {s t : Assembler} {stop : Stop}
    (stopped : process [⟨line, .label name⟩] s = .error stop t) : t = s := by
  cases found : s.labels.find? name with
  | some address =>
    have refused : define name s = .error (.reported (.duplicateLabel name)) s := by
      unfold define
      rw [found]
    have failed : process [⟨line, .label name⟩] s = .error _ s := bind_of_error refused
    rw [failed] at stopped
    exact (EStateM.Result.error.inj stopped).2.symm
  | none =>
    have defined : define name s = .ok () { s with labels := s.labels.insert name s.counter } := by
      unfold define
      rw [found]
    have succeeded : process [⟨line, .label name⟩] s = .ok () _ := bind_of_ok defined
    rw [succeeded] at stopped
    exact nomatch stopped

theorem Mnemonic.name_ne_end (known : Mnemonic) : known.name ≠ "END" := by
  cases known <;> decide

/-- A constant with too many digits makes the move fail. -/
theorem Assembler.process_of_long {digits : List Char} (proper : (Numeral.dec digits).Proper)
    (above : maxDecimalDigits < digits.length) (line : Int) (s : Assembler) :
    process [⟨line, .operation "MOV" ["A", (Numeral.dec digits).marked ['#']]⟩] s =
      .error (.crashed (.tooManyDigits digits.length)) s := by
  obtain ⟨read, _⟩ := Operand.reads_constant proper
  have failed : numberOf (.dec digits) = .error (.crash (.tooManyDigits digits.length)) := by
    simp [numberOf, Numeral.value, Nat.not_le.2 above, Except.mapError]
  have refused : Mnemonic.mov.encode ["A", (Numeral.dec digits).marked ['#']] =
      .error (.crash (.tooManyDigits digits.length)) := by
    show Instruction.moveIntoA ((Numeral.dec digits).marked ['#']) = _
    unfold Instruction.moveIntoA
    rw [read]
    dsimp only
    rw [failed]
    rfl
  rw [process_operation, if_neg (by decide)]
  exact congrFun (Mnemonic.operate_of_refusal refused line) s

/-! ## §3. Failures and early stores. -/

/-- **Where the encoder can fail.**  An operation with operands, in a state with room for three
cells, is carried out, or is refused with status 1, or fails.  It fails only at a pitfall, with the
failure that belongs to it: with a single operand, where a second one is looked at uncounted; at the
move from a table behind the program counter; at a register without a digit; at a number of base 16
as a bit, where its mark is converted; at a number of base 10 with too many digits. -/
theorem encoder_fails_only_at_pitfalls {mnemonic : String} {operands : List String} {s : Assembler}
    (nonempty : operands ≠ []) (roomy : s.Roomy) (line : Int) :
    (∃ t, Assembler.process [⟨line, .operation mnemonic operands⟩] s = .ok () t) ∨
      (∃ stop t, Assembler.process [⟨line, .operation mnemonic operands⟩] s = .error stop t ∧
        stop.outcome.ending = .exited 1) ∨
      ∃ crash t, Assembler.process [⟨line, .operation mnemonic operands⟩] s =
        .error (.crashed crash) t ∧
        Pitfall mnemonic operands crash := by
  have concludes := Assembler.concludes_process line mnemonic nonempty roomy
  generalize Assembler.process [⟨line, .operation mnemonic operands⟩] s = result at concludes ⊢
  cases concludes with
  | done t => exact .inl ⟨t, rfl⟩
  | refused diagnostic => exact .inr (.inl ⟨_, _, rfl, rfl⟩)
  | late early => exact .inr (.inl ⟨_, _, rfl, rfl⟩)
  | failed pitfall => exact .inr (.inr ⟨_, _, rfl, pitfall⟩)

/-- Each pitfall makes some operation fail. -/
theorem encoder_fails_only_at_pitfalls_each :
    (Assembler.process [⟨1, .operation "ADDC" ["A"]⟩] (Assembler.ofSize 3) =
        .error (.crashed .missingOperand) (Assembler.ofSize 3) ∧
      Pitfall "ADDC" ["A"] .missingOperand) ∧
    (Assembler.process [⟨1, .operation "MOVC" ["A", "@A+PC"]⟩] (Assembler.ofSize 3) =
        .error (.crashed .unencodable) (Assembler.ofSize 3) ∧
      Pitfall "MOVC" ["A", "@A+PC"] .unencodable) ∧
    (Assembler.process [⟨1, .operation "INC" ["@R"]⟩] (Assembler.ofSize 3) =
        .error (.crashed (.badDigits 10 "")) (Assembler.ofSize 3) ∧
      Pitfall "INC" ["@R"] (.badDigits 10 "")) ∧
    (Assembler.process [⟨1, .operation "JB" ["20H", "L"]⟩] (Assembler.ofSize 3) =
        .error (.crashed (.badDigits 16 "20H")) (Assembler.ofSize 3) ∧
      Pitfall "JB" ["20H", "L"] (.badDigits 16 "20H")) ∧
    (Assembler.process [⟨1, .operation "MOV"
      ["A", (Numeral.dec (List.replicate 4301 '0')).marked ['#']]⟩]
        (Assembler.ofSize 3) = .error (.crashed (.tooManyDigits 4301)) (Assembler.ofSize 3) ∧
      Pitfall "MOV" ["A", (Numeral.dec (List.replicate 4301 '0')).marked ['#']]
        (.tooManyDigits 4301)) := by
  have roomy : (Assembler.ofSize 3).Roomy := ⟨by decide, by decide, by decide⟩
  have at_pitfall : ∀ mnemonic operands crash, operands ≠ [] →
      Assembler.process [⟨1, .operation mnemonic operands⟩] (Assembler.ofSize 3) =
        .error (.crashed crash) (Assembler.ofSize 3) → Pitfall mnemonic operands crash := by
    intro mnemonic operands crash nonempty fails
    have only := @encoder_fails_only_at_pitfalls mnemonic operands _ nonempty roomy 1
    rw [fails] at only
    rcases only with ⟨t, done⟩ | ⟨stop, t, stopped, exited⟩ | ⟨other, t, failed, pitfall⟩
    · exact nomatch done
    · rw [← (EStateM.Result.error.inj stopped).1] at exited
      exact nomatch exited
    · rwa [← Stop.crashed.inj (EStateM.Result.error.inj failed).1] at pitfall
  have zeros : (List.replicate 4301 '0').length = 4301 := List.length_replicate
  have proper : (Numeral.dec (List.replicate 4301 '0')).Proper := by
    refine ⟨List.ne_nil_of_length_pos (by omega), fun c member => ?_⟩
    rw [List.eq_of_mem_replicate member]
    decide
  have long := Assembler.process_of_long proper (by rw [zeros]; decide) 1 (Assembler.ofSize 3)
  rw [zeros] at long
  exact ⟨⟨rfl, at_pitfall _ _ _ (by simp) rfl⟩, ⟨rfl, at_pitfall _ _ _ (by simp) rfl⟩,
    ⟨rfl, at_pitfall _ _ _ (by simp) rfl⟩, ⟨rfl, at_pitfall _ _ _ (by simp) rfl⟩,
    long, at_pitfall _ _ _ (List.cons_ne_nil _ _) long⟩

/-- **A refused statement leaves the state as it was**, whether it is reported or fails, unless it
is one of those whose cells are stored early.  These are always reported: their cells are stored
then, and neither labels nor references change. -/
theorem refused_statement_keeps_state {statement : Statement} {s : Assembler}
    (nonempty : ∀ mnemonic, statement.body ≠ .operation mnemonic []) (roomy : s.Roomy) :
    (∀ stop t, Assembler.process [statement] s = .error stop t →
      (∀ cells, ¬statement.body.StoresEarly cells) → t = s) ∧
    ∀ mnemonic operands cells, statement.body = .operation mnemonic operands →
      statement.body.StoresEarly cells → cells ≠ [] ∧ Assembler.process [statement] s =
        .error (.reported (.malformed mnemonic statement.line)) (s.stored cells) := by
  obtain ⟨line, body⟩ := statement
  constructor
  · intro stop t stopped unstored
    cases body with
    | label name => exact Assembler.eq_of_define_error stopped
    | operation mnemonic operands =>
      have operands_ne_nil : operands ≠ [] := by
        intro none
        exact nonempty mnemonic (congrArg (Body.operation mnemonic) none)
      have concludes := Assembler.concludes_process line mnemonic operands_ne_nil roomy
      rw [stopped] at concludes
      cases concludes with
      | refused diagnostic => rfl
      | late early => exact absurd early (unstored _)
      | failed pitfall => rfl
  · intro mnemonic operands cells is_operation early
    obtain rfl : body = .operation mnemonic operands := is_operation
    obtain ⟨some_cell, short⟩ := early.length_bounds
    refine ⟨some_cell, ?_⟩
    obtain ⟨known, rfl, refused⟩ := Body.StoresEarly.exists_encode early
    rw [Assembler.process_operation, if_neg known.name_ne_end, Mnemonic.operate_of_refusal refused]
    exact roomy.refuse_eq short known.name line

/-- A countdown to something that is no label is stored before it is refused, and a bit that cannot
be inverted leaves the state as it was. -/
theorem refused_statement_keeps_state_countdown :
    Assembler.process [⟨1, .operation "DJNZ" ["R2", "#"]⟩] (Assembler.ofSize 3) =
        .error (.reported (.malformed "DJNZ" 1)) ((Assembler.ofSize 3).stored [0xDA, 0xA5]) ∧
      ∀ stop t, Assembler.process [⟨1, .operation "CPL" ["30H"]⟩] (Assembler.ofSize 3) =
        .error stop t →
        t = Assembler.ofSize 3 := by
  have roomy : (Assembler.ofSize 3).Roomy := ⟨by decide, by decide, by decide⟩
  constructor
  · have early : (Body.operation "DJNZ" ["R2", "#"]).StoresEarly [0xDA, 0xA5] :=
      .countdown (show Mnemonic.djnz.encode ["R2", "L"] =
        .ok ⟨[0xDA, 0xA5], some ⟨"DJNZ", "L"⟩, false⟩ by decide) (by decide)
    have kept := @refused_statement_keeps_state ⟨1, .operation "DJNZ" ["R2", "#"]⟩ _ (by simp) roomy
    exact (kept.2 "DJNZ" _ _ rfl early).2
  · intro stop t stopped
    have kept := @refused_statement_keeps_state ⟨1, .operation "CPL" ["30H"]⟩ _ (by simp) roomy
    refine kept.1 stop t stopped fun cells early => ?_
    generalize named : Body.operation "CPL" ["30H"] = body at early
    cases early <;> simp at named

end Mcs51
