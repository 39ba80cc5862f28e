import MiniEvm.Proofs.Vm.Gas

/-! Accesses out of range: the three opcodes that make them, and that no other step does. -/

namespace MiniEvm

open EvmM Frames Frames.Program

variable {host : Host} {evm : Evm}

/-- An empty range is not touched, so memory stays as short as it is. -/
theorem touchMemory_of_empty (offset : Nat) : touchMemory host offset 0 evm = .next () evm := rfl

/-- Slicing memory past its end aborts the host, even for a range without bytes. -/
theorem readMemory_of_outside {offset : Nat} (outside : evm.memory.length < offset) :
    readMemory offset (offset + 0) evm = .fault .indexOutOfRange := by
  have notInside : ¬ offset ≤ evm.memory.length := by omega
  simp [readMemory, Tree.bind, notInside]

theorem writeMemory_of_outside {offset : Nat} (outside : evm.memory.length < offset) :
    writeMemory offset [] evm = .fault .indexOutOfRange := by
  have notInside : ¬ offset ≤ evm.memory.length := by omega
  simp [writeMemory, Tree.bind, notInside]

/-- Copy gas that was found affordable is charged. -/
theorem chargeCopy_of_affords {base : Nat} {size : Word} {start : Evm}
    (affords : affordsCopy evm base size = true) (gas : start.gasLeft = evm.gasLeft - base) :
    base ≤ evm.gasLeft ∧ ∃ cost, chargeCopy size start = .next () { start with gasLeft := cost } := by
  -- What is affordable on top of the static cost is affordable after it.
  unfold affordsCopy at affords
  unfold chargeCopy
  cases priced : calcCopyGas size with
  | error error => simp [priced] at affords
  | ok cost =>
    simp only [priced, decide_eq_true_eq] at affords ⊢
    exact ⟨by omega, _, charge_of_enough (by omega)⟩

/-- The handler runs as soon as the static cost can be paid. -/
theorem step_of_enough {op : Opcode} (decoded : evm.opcode = some op)
    (enough : op.gasTable ≤ evm.gasLeft) : step host evm = dispatch host op (evm.begin op) := by
  rw [step_apply decoded, if_neg (Nat.not_lt.mpr enough)]

theorem step_keccak256_overrun {offset size : Word} {rest : List Word}
    (decoded : evm.opcode = some .keccak256) (operands : evm.stack.data = offset :: size :: rest)
    (empty : asUsize size = 0) (past : evm.memory.length < asUsize offset)
    (affords : affordsCopy evm 30 size = true) : step host evm = .fault .indexOutOfRange := by
  -- Every check before the read passes.
  have start : (evm.begin .keccak256).stack.data = offset :: size :: rest := operands
  obtain ⟨s1, popOffset, left⟩ := pop_of_cons (.error "Stack Underflow on KECCAK256") start
  have second : ({ evm.begin .keccak256 with stack := s1 } : Evm).stack.data = size :: rest := left
  obtain ⟨s2, popSize, _⟩ := pop_of_cons (.error "Stack Underflow on KECCAK256") second
  obtain ⟨enough, gas, charged⟩ := chargeCopy_of_affords affords
    (show ({ evm.begin .keccak256 with stack := s2 } : Evm).gasLeft = evm.gasLeft - 30 from rfl)
  rw [step_of_enough decoded enough]
  show opKeccak256 host (evm.begin .keccak256) = _
  -- The touch does nothing for an empty range, and then the read aborts.
  unfold opKeccak256
  rw [bind_of_next popOffset, bind_of_next popSize, bind_of_next charged, empty,
    bind_of_next (touchMemory_of_empty _), bind_apply, readMemory_of_outside (by exact past)]
  rfl

theorem step_returndatacopy_overrun {dest offset size : Word} {rest : List Word}
    (decoded : evm.opcode = some .returndatacopy)
    (operands : evm.stack.data = dest :: offset :: size :: rest)
    (empty : asUsize size = 0) (past : evm.memory.length < asUsize dest)
    (affords : affordsCopy evm 3 size = true) (inData : asUsize offset ≤ evm.returnData.length) :
    step host evm = .fault .indexOutOfRange := by
  have start : (evm.begin .returndatacopy).stack.data = dest :: offset :: size :: rest := operands
  obtain ⟨s1, popDest, left⟩ := pop_of_cons (.error "Stack Underflow on RETURNDATACOPY") start
  have second : ({ evm.begin .returndatacopy with stack := s1 } : Evm).stack.data =
    offset :: size :: rest := left
  obtain ⟨s2, popOffset, left⟩ := pop_of_cons (.error "Stack Underflow on RETURNDATACOPY") second
  have third : ({ evm.begin .returndatacopy with stack := s2 } : Evm).stack.data =
    size :: rest := left
  obtain ⟨s3, popSize, _⟩ := pop_of_cons (.error "Stack Underflow on RETURNDATACOPY") third
  obtain ⟨enough, gas, charged⟩ := chargeCopy_of_affords affords
    (show ({ evm.begin .returndatacopy with stack := s3 } : Evm).gasLeft = evm.gasLeft - 3 from rfl)
  -- The sum of offset and size is in range, as the size is zero.
  have sum : checkedAdd (asUsize offset) 0 = some (asUsize offset) := by
    unfold checkedAdd asUsize u64Max
    rw [if_pos (by omega)]
    rfl
  have inside : asUsize offset ≤ (evm.begin .returndatacopy).returnData.length := inData
  rw [step_of_enough decoded enough]
  show opReturndatacopy host (evm.begin .returndatacopy) = _
  unfold opReturndatacopy
  rw [bind_of_next popDest, bind_of_next popOffset, bind_of_next popSize,
    bind_of_next (get_apply _)]
  simp only [empty, sum, inside, if_true]
  rw [bind_of_next charged, bind_of_next (touchMemory_of_empty _)]
  -- Nothing is written, and the write still checks where.
  have nothing : slice (evm.begin .returndatacopy).returnData (asUsize offset) (asUsize offset) =
      [] := List.eq_nil_of_length_eq_zero (by rw [length_slice inside, Nat.sub_self])
  rw [nothing]
  exact writeMemory_of_outside past

/-- Popping topics succeeds as long as there are enough words on the stack. -/
theorem popTopics_of_enough (count : Nat) (enough : count ≤ evm.stack.data.length) :
    ∃ topics stack, popTopics count evm = .next topics { evm with stack } := by
  -- One word goes with each topic.
  induction count generalizing evm with
  | zero => exact ⟨[], evm.stack, rfl⟩
  | succ count ih =>
    obtain ⟨top, rest, operands⟩ := List.exists_cons_of_length_pos (Nat.lt_of_lt_of_le
      (Nat.succ_pos count) enough)
    obtain ⟨s1, popped, left⟩ := pop_of_cons (.error "Stack Underflow on LOG") operands
    obtain ⟨topics, s2, more⟩ := @ih { evm with stack := s1 } (by
      simp only [left]
      rw [operands] at enough
      exact Nat.le_of_succ_le_succ enough)
    refine ⟨top :: topics, s2, ?_⟩
    rw [popTopics, bind_of_next popped, bind_of_next more]
    rfl

/-- A log without data costs its base and its topics. -/
theorem logGas_of_empty {topicCount : Nat} (small : 375 + 375 * topicCount ≤ u64Max) :
    logGas topicCount 0 = some (375 + 375 * topicCount) := by
  have topics : min (375 * topicCount) u64Max = 375 * topicCount := Nat.min_eq_left (by omega)
  simp [logGas, checkedMul, checkedAdd, topics, small]

theorem step_log_overrun {topicCount : Nat} {offset size : Word} {rest : List Word}
    (decoded : evm.opcode = some (.log topicCount))
    (operands : evm.stack.data = offset :: size :: rest)
    (empty : asUsize size = 0) (past : evm.memory.length < asUsize offset)
    (mutable : evm.isStatic = false) (topics : topicCount ≤ rest.length)
    (afford : 375 + 375 * topicCount ≤ evm.gasLeft) : step host evm = .fault .indexOutOfRange := by
  have start : (evm.begin (.log topicCount)).stack.data = offset :: size :: rest := operands
  have mutable : (evm.begin (.log topicCount)).isStatic = false := mutable
  obtain ⟨s1, popOffset, left⟩ := pop_of_cons (.error "Stack Underflow on LOG") start
  have second : ({ evm.begin (.log topicCount) with stack := s1 } : Evm).stack.data =
    size :: rest := left
  obtain ⟨s2, popSize, left⟩ := pop_of_cons (.error "Stack Underflow on LOG") second
  have third : topicCount ≤
      ({ evm.begin (.log topicCount) with stack := s2 } : Evm).stack.data.length := by
    simp only [left]
    exact topics
  obtain ⟨popped, s3, popAll⟩ := popTopics_of_enough topicCount third
  -- The stack holds at most 1,024 words, so the price of the topics is in range.
  have small : topicCount ≤ 1022 := by
    have bounded := evm.stack.bounded
    rw [operands] at bounded
    simp only [List.length_cons] at bounded
    omega
  rw [step_of_enough decoded (Nat.zero_le _)]
  show opLog host topicCount (evm.begin (.log topicCount)) = _
  unfold opLog
  rw [bind_of_next (requireMutable_of_mutable mutable), bind_of_next popOffset,
    bind_of_next popSize, bind_of_next popAll, empty,
    logGas_of_empty (by unfold u64Max; omega)]
  simp only
  rw [bind_of_next (charge_of_enough (by exact afford)), bind_of_next (touchMemory_of_empty _),
    bind_apply, readMemory_of_outside (by exact past)]
  rfl

/-- Every overrun aborts its step. -/
theorem step_of_overruns (overrun : overruns evm = true) :
    step host evm = .fault .indexOutOfRange := by
  -- One case for each of the three opcodes.
  unfold overruns at overrun
  split at overrun
  · rename_i offset size rest decoded operands
    simp only [emptyRangeOutside, Bool.and_eq_true, decide_eq_true_eq] at overrun
    exact step_keccak256_overrun decoded operands overrun.1.1 overrun.1.2 overrun.2
  · rename_i dest offset size rest decoded operands
    simp only [emptyRangeOutside, Bool.and_eq_true, decide_eq_true_eq] at overrun
    exact step_returndatacopy_overrun decoded operands overrun.1.1.1 overrun.1.1.2 overrun.1.2
      overrun.2
  · rename_i topics offset size rest decoded operands
    simp only [emptyRangeOutside, Bool.and_eq_true, decide_eq_true_eq, Bool.not_eq_true'] at overrun
    obtain ⟨⟨⟨⟨empty, past⟩, mutable⟩, enough⟩, afford⟩ := overrun
    exact step_log_overrun decoded operands empty past mutable enough afford
  · simp at overrun

/-- An overrun is a step that is about to execute something. -/
theorem running_of_overruns (overrun : overruns evm = true) :
    (machine host).running evm = true := by
  -- Past the end of code there is no opcode to overrun with.
  refine decide_eq_true ?_
  by_contra outside
  have idle : evm.opcode = none := by simp [Evm.opcode, Nat.le_of_not_lt outside]
  simp [overruns, idle] at overrun

/-- A visited overrun takes the whole run down. -/
theorem aborts_of_overruns {state : Evm} {history : History Evm ExecutionResult}
    (reaches : (machine host).Reaches (syncLegacyStateIntoFork evm) history state)
    (overrun : overruns state = true) : ∃ fuel, run host fuel evm = .fault .indexOutOfRange := by
  have faults : ((machine host).step state).Faults (machine host).RunsNested .indexOutOfRange := by
    show (step host state).Faults _ _
    rw [step_of_overruns overrun]
    exact rfl
  -- The fault passes through every frame above.
  obtain ⟨fuel, aborts⟩ :=
    Machine.aborts_iff.mpr ⟨history, state, reaches, running_of_overruns overrun, faults⟩
  exact ⟨fuel, run_eq_fault.mpr aborts⟩

/-- A run without overruns aborts only where the build checks for overflow. -/
theorem overflowChecks_of_fault {fuel : Nat} {cause : Fault}
    (inside : ∀ history state, (machine host).Reaches (syncLegacyStateIntoFork evm) history state →
      overruns state = false) (aborted : run host fuel evm = .fault cause) :
    cause = .arithmeticOverflow ∧ host.overflowChecks = true := by
  obtain ⟨history, state, reaches, aborts⟩ := aborts_of_run aborted
  cases aborts with
  | indexing overrun =>
    rw [inside history state reaches] at overrun
    cases overrun
  | overflow checks => exact ⟨rfl, checks⟩

/--
When a run never indexes out of range.

Among all the states it visits, in its own frame and in every frame below, none may be about to
hash, log, or copy return data with an empty range that starts past the end of memory.
In a build that lets unchecked arithmetic wrap, such a run ends in a result.
-/
theorem run_indexes_in_range_iff (host : Host) (evm : Evm) :
    ((∀ fuel, run host fuel evm ≠ .fault .indexOutOfRange) ∧
      (host.overflowChecks = false →
        ∃ fuel result final, run host fuel evm = .value (result, final))) ↔
      ∀ history state, (machine host).Reaches (syncLegacyStateIntoFork evm) history state →
        overruns state = false := by
  constructor
  · rintro ⟨never, _⟩ history state reaches
    -- A visited overrun would take the run down.
    by_contra overrun
    obtain ⟨fuel, aborts⟩ := aborts_of_overruns reaches (by simpa using overrun)
    exact never fuel aborts
  · intro inside
    refine ⟨?_, ?_⟩
    · intro fuel aborts
      cases (overflowChecks_of_fault inside aborts).1
    · -- The run comes to an end, and neither kind of abort is left.
      intro wraps
      obtain ⟨fuel, _, finished⟩ := run_finishes host evm
      cases ended : run host fuel evm with
      | outOfFuel => exact absurd ended finished
      | value outcome => exact ⟨fuel, outcome.1, outcome.2, ended⟩
      | fault cause =>
        have checks := (overflowChecks_of_fault inside ended).2
        rw [wraps] at checks
        cases checks

/--
The next step of a frame takes the process down.

In a build that checks for it, an overflow does so as well, by the step itself or once a frame that
it opened has ended.
-/
def Panics (host : Host) (state : Evm) : Prop :=
  overruns state = true ∨ host.overflowChecks = true ∧
    ((machine host).step state).Faults (machine host).RunsNested .arithmeticOverflow

/-- A state whose step aborts is about to execute something. -/
theorem running_of_faults {state : Evm} {cause : Fault}
    (faults : ((machine host).step state).Faults (machine host).RunsNested cause) :
    (machine host).running state = true := by
  refine decide_eq_true ?_
  by_contra outside
  -- Past the end of code a step does nothing.
  have idle : state.opcode = none := by simp [Evm.opcode, Nat.le_of_not_lt outside]
  have faults : (step host state).Faults (machine host).RunsNested cause := faults
  rw [step_of_idle idle] at faults
  exact faults

/-- Some visited state panics exactly when the run aborts. -/
theorem aborts_iff_panics :
    (∃ fuel cause, run host fuel evm = .fault cause) ↔
      ∃ history state, (machine host).Reaches (syncLegacyStateIntoFork evm) history state ∧
        Panics host state := by
  constructor
  · rintro ⟨fuel, cause, aborted⟩
    obtain ⟨history, state, reaches, _, faults⟩ :=
      Machine.aborts_iff.mp ⟨fuel, run_eq_fault.mp aborted⟩
    refine ⟨history, state, reaches, ?_⟩
    -- There is no third cause to abort for.
    cases aborts_of_faults faults with
    | indexing overrun => exact .inl overrun
    | overflow checks => exact .inr ⟨checks, faults⟩
  · rintro ⟨history, state, reaches, overrun | ⟨_, faults⟩⟩
    · obtain ⟨fuel, aborts⟩ := aborts_of_overruns reaches overrun
      exact ⟨fuel, _, aborts⟩
    · obtain ⟨fuel, aborts⟩ :=
        Machine.aborts_iff.mpr ⟨history, state, reaches, running_of_faults faults, faults⟩
      exact ⟨fuel, _, run_eq_fault.mpr aborts⟩

/--
When a run returns.

Every run comes to an end, with all the frames below it, after finitely many steps, and more fuel
changes nothing.
It ends in a result exactly if none of the states it visits, in its own frame and in every frame
below, panics.
-/
theorem run_returns_iff (host : Host) (evm : Evm) :
    (∃ enough, run host enough evm ≠ .outOfFuel ∧
      ∀ more, enough ≤ more → run host more evm = run host enough evm) ∧
    ((∃ fuel result final, run host fuel evm = .value (result, final)) ↔
      ∀ history state, (machine host).Reaches (syncLegacyStateIntoFork evm) history state →
        ¬ Panics host state) := by
  obtain ⟨enough, stable, finished⟩ := run_finishes host evm
  refine ⟨⟨enough, finished, stable⟩, ?_, ?_⟩
  · rintro ⟨fuel, result, final, returned⟩ history state reaches panics
    obtain ⟨fuel', cause, aborted⟩ := aborts_iff_panics.mpr ⟨history, state, reaches, panics⟩
    exact not_aborts_of_returned returned aborted
  · intro calm
    -- With enough fuel only an abort is left beside a result.
    cases ended : run host enough evm with
    | outOfFuel => exact absurd ended finished
    | value outcome => exact ⟨enough, outcome.1, outcome.2, ended⟩
    | fault cause =>
      obtain ⟨history, state, reaches, panics⟩ := aborts_iff_panics.mp ⟨enough, cause, ended⟩
      exact absurd panics (calm history state reaches)

/-- A run that hashes no bytes at offset one, while memory is still empty, never returns. -/
theorem keccak256_of_nothing_never_returns : ¬ ∃ fuel result final,
    run (tableHost []) fuel (Evm.newWithGas [0x60, 0x00, 0x60, 0x01, 0x20] 100) =
      .value (result, final) := by
  rintro ⟨fuel, result, final, returned⟩
  have aborted : run (tableHost []) 4 (Evm.newWithGas [0x60, 0x00, 0x60, 0x01, 0x20] 100) =
    .fault .indexOutOfRange := rfl
  exact not_aborts_of_returned returned aborted

/-- Hashing no bytes at offset one, while memory is still empty, takes the process down. -/
theorem keccak256_of_nothing_aborts :
    run (tableHost []) 4 (Evm.newWithGas [0x60, 0x00, 0x60, 0x01, 0x20] 100) =
      .fault .indexOutOfRange := rfl

end MiniEvm
