import MiniEvm.Proofs.Vm.ControlFlow
import MiniEvm.Proofs.Vm.Gas
import MiniEvm.Proofs.Vm.Metered
import MiniEvm.Proofs.Vm.Simulations

/-! Code that is blind to gas needs one fixed amount of it, and any limit above works the same. -/

namespace MiniEvm

open Frames Frames.Machine

/-- Whether no listed instruction of some code reads the gas or shares it out. -/
def gasBlind (code : Bytes) : Bool :=
  (disassemble code).all fun instruction => !(Opcode.ofByte instruction.opcode).looksAtGas

section Steps

variable {host : Host} {evm : Evm} {op : Opcode}

/-- Behind its static cost a step is the handler of its opcode. -/
theorem metered_step (blind : op.looksAtGas = false) (lasting : op ≠ .invalid) :
    Metered (do
      EvmM.charge op.gasTable
      Program.modify fun evm : Evm => { evm with pc := evm.pc + 1 }
      dispatch host op) :=
  (metered_charge _).bind fun _ =>
    .bind (.modify (fun _ _ => rfl) fun _ => rfl) fun _ => metered_dispatch blind lasting

theorem step_of_opcode (decoded : evm.opcode = some op) :
    step host evm = (do
      EvmM.charge op.gasTable
      Program.modify fun evm : Evm => { evm with pc := evm.pc + 1 }
      dispatch host op : EvmM Unit) evm := by
  simp only [step, Program.bind_apply, Program.get_apply, Tree.bind, decoded]

/-- A step that does not look at the gas does the same with more of it. -/
theorem step_widens (extra : Nat)
    (blind : ∀ op, evm.opcode = some op → op.looksAtGas = false) :
    gasBudget.Widens extra (step host evm) (step host (gasBudget.more extra evm)) := by
  have same : (gasBudget.more extra evm).opcode = evm.opcode := rfl
  cases decoded : evm.opcode with
  | none =>
    rw [step_of_idle decoded, step_of_idle (same.trans decoded)]
    exact rfl
  | some op =>
    by_cases burns : op = .invalid
    · -- Both frames burn what they have, however much it is.
      obtain rfl := burns
      rw [step_apply decoded, step_apply (same.trans decoded)]
      exact .inr (.inr ⟨rfl, rfl⟩)
    · rw [step_of_opcode decoded, step_of_opcode (same.trans decoded)]
      exact (metered_step (blind op decoded) burns).widens extra evm

/-- A step that ends its frame never ends it with the result on which the loop goes on. -/
theorem step_ne_halt (host : Host) (evm final : Evm) : step host evm ≠ .exit .halt final := by
  intro ended
  have shape := stepShape host evm
  rw [ended] at shape
  cases shape with
  | leaf _ leaf => exact leaf.2 rfl

/-- Only an opcode that shares out the gas opens a frame. -/
theorem looksAtGas_of_opens {kept : History Evm ExecutionResult} {child : Evm}
    (opens : (machine host).Opens evm kept child) :
    ∃ op, evm.opcode = some op ∧ op.looksAtGas = true := by
  -- Calls and creations alike share out the gas that is left.
  cases (opened_of_enters opens.2).2 with
  | @call forceStatic delegate setup mid opening =>
    refine ⟨_, opening.opcode, ?_⟩
    cases forceStatic <;> cases delegate <;> rfl
  | @create value salt initCode mid opening =>
    refine ⟨_, opening.opcode, ?_⟩
    cases salt <;> rfl

end Steps

section Runs

variable {host : Host}

/-- A frame whose code is blind to gas, standing where one of its instructions starts. -/
structure Blind (evm : Evm) : Prop where
  charted : Charted evm
  code : gasBlind evm.code = true

/-- So the opcode it stands at does not look at the gas. -/
theorem Blind.opcode {evm : Evm} (blind : Blind evm) :
    ∀ op, evm.opcode = some op → op.looksAtGas = false := by
  intro op decoded
  simp only [Evm.opcode, Option.map_eq_some_iff] at decoded
  obtain ⟨byte, found, rfl⟩ := decoded
  -- The position is that of a listed instruction, and all listed ones have been checked.
  obtain ⟨instruction, listed, _, rfl⟩ :=
    (disassemble_lists evm.pc byte).mpr ⟨blind.charted.leads, found⟩
  simpa using List.all_eq_true.mp blind.code instruction listed

/-- A blind frame opens no other, so all states of its run are its own. -/
theorem Blind.reaches {start evm : Evm} {history : History Evm ExecutionResult}
    (blind : Blind start) (reaches : (machine host).Reaches start history evm) : Blind evm := by
  -- The code does not change along the run, and with it neither does its blindness.
  induction reaches with
  | refl => exact blind
  | step _ steps ih =>
    have same := (stepsTo_of_resolves steps.1 steps.2).sameFrame
    exact ⟨ih.charted.step steps, same.code ▸ ih.code⟩
  | enter _ opens ih =>
    obtain ⟨op, decoded, looks⟩ := looksAtGas_of_opens opens
    rw [ih.opcode op decoded] at looks
    cases looks

/-- With more gas a blind frame does the same, unless it runs out of gas with less. -/
theorem trace_of_more (host : Host) {evm : Evm} (blind : Blind evm) (fuel extra : Nat) :
    Widened gasBudget extra ((machine host).trace fuel evm)
      ((machine host).trace fuel (gasBudget.more extra evm)) := by
  have apart : gasBudget.starved ≠ ExecutionResult.halt := by decide
  refine trace_widened apart (fun _ => rfl) (fun state (allowed : Blind state) => ?_) gas_of_runs
    fuel fun visited reached reaches _ => blind.reaches reaches
  exact ⟨step_widens extra allowed.opcode, step_ne_halt host state⟩

variable {evm last : Evm} {fuel : Nat} {history : History Evm ExecutionResult}
  {result : ExecutionResult}

/-- Where the smaller budget was enough, the larger one is left with its excess. -/
theorem trace_of_less (extra : Nat) (blind : Blind evm) (success : result.isSuccess = true)
    (ran : (machine host).trace fuel evm = .value (history, result, last)) :
    ∃ history, (machine host).trace fuel (gasBudget.more extra evm) =
      .value (history, result, gasBudget.more extra last) := by
  have widened := trace_of_more host blind fuel extra
  rw [ran] at widened
  -- More gas cannot turn a success into a failure.
  rcases widened with ⟨rfl, _⟩ | ⟨other, same | ⟨_, rfl⟩⟩
  · cases success
  · exact ⟨other, same⟩
  · cases success

/-- What the larger budget is left with decides whether the smaller one is enough. -/
theorem trace_of_excess {extra : Nat} (blind : Blind evm) (success : result.isSuccess = true)
    (ran : (machine host).trace fuel (gasBudget.more extra evm) = .value (history, result, last)) :
    (extra ≤ last.gasLeft → ∃ history before, (machine host).trace fuel evm =
        .value (history, result, before) ∧ last = gasBudget.more extra before) ∧
      (last.gasLeft < extra → ∃ history before, (machine host).trace fuel evm =
        .value (history, .outOfGas, before)) := by
  have widened := trace_of_more host blind fuel extra
  rw [ran] at widened
  cases small : (machine host).trace fuel evm with
  | outOfFuel =>
    rw [small] at widened
    cases widened
  | fault cause =>
    rw [small] at widened
    cases widened
  | value ended =>
    obtain ⟨past, outcome, before⟩ := ended
    rw [small] at widened
    rcases widened with ⟨rfl, drained⟩ | ⟨other, same | ⟨same, burnt⟩⟩
    · -- A success that is left with less than the excess is out of reach for the smaller budget.
      have short : last.gasLeft < extra := by
        rcases drained _ _ _ rfl with rfl | short
        · cases success
        · exact short
      exact ⟨fun enough => absurd short (Nat.not_lt.mpr enough), fun _ => ⟨past, before, rfl⟩⟩
    · cases same
      refine ⟨fun _ => ⟨past, before, rfl, rfl⟩, fun short => absurd short ?_⟩
      exact Nat.not_lt.mpr (Nat.le_add_left extra before.gasLeft)
    · cases same
      obtain rfl := burnt
      cases success

end Runs

section Simulations

variable {host : Host} {fuel : Nat} {state : StateFork} {caller target : Address} {value : Word}
  {input : Bytes} {gasLimit : Nat}

/-- What is reported about a frame that ended, by the state in which it did. -/
def reportOf (state : StateFork) (gasLimit : Nat) (result : ExecutionResult) (last : Evm) :
    SimulationResult :=
  predictionOf state gasLimit result { last with state := last.state.clearTransientStorage }

/-- The copy back at the end of a run touches nothing that is reported. -/
theorem predictionOf_run (result : ExecutionResult) (last : Evm) :
    predictionOf state gasLimit result { syncForkIntoLegacyState host last with
      state := last.state.clearTransientStorage } = reportOf state gasLimit result last := by
  obtain ⟨storage, balances, nonces, contracts, same⟩ := syncForkIntoLegacyState_eq host last
  rw [same]
  rfl

/-- A simulation that succeeds has run its frame to a success. -/
theorem trace_of_simulated {report : SimulationResult}
    (simulated : simulateTx host fuel state caller target value input gasLimit = .value report)
    (success : report.success = true) :
    value ≤ state.getBalance caller ∧ ∃ history result last,
      (machine host).trace fuel (syncLegacyStateIntoFork
        (simulationVm state caller target value input gasLimit)) = .value (history, result, last) ∧
        result.isSuccess = true ∧ report = reportOf state gasLimit result last := by
  by_cases funded : value ≤ state.getBalance caller
  · rw [simulateTx_of_funded funded] at simulated
    obtain ⟨⟨result, vm⟩, ran, reported⟩ := Outcome.bind_eq_value simulated
    simp only [Outcome.pure_eq, Outcome.value.injEq] at reported
    obtain ⟨history, last, traced, rfl⟩ := run_eq_value ran
    rw [predictionOf_run] at reported
    obtain rfl := reported
    exact ⟨funded, history, result, last, traced, success, rfl⟩
  · -- Turned down for want of ether, it does not succeed.
    rw [simulateTx, if_pos (BitVec.not_le.mp funded)] at simulated
    cases simulated
    cases success

theorem simulateTx_of_trace {history : History Evm ExecutionResult} {result : ExecutionResult}
    {last : Evm} (funded : value ≤ state.getBalance caller)
    (traced : (machine host).trace fuel (syncLegacyStateIntoFork
      (simulationVm state caller target value input gasLimit)) = .value (history, result, last)) :
    simulateTx host fuel state caller target value input gasLimit =
      .value (reportOf state gasLimit result last) := by
  rw [simulateTx_of_funded funded, run_of_trace traced, Outcome.value_bind]
  exact congrArg Outcome.value (predictionOf_run result last)

/-- Both limits differ in nothing but the gas that the frame starts with. -/
theorem simulationVm_more (extra : Nat) :
    syncLegacyStateIntoFork (simulationVm state caller target value input (gasLimit + extra)) =
      gasBudget.more extra (syncLegacyStateIntoFork
        (simulationVm state caller target value input gasLimit)) := rfl

/-- Limit and leftover grow by the same, so the report stays the same. -/
theorem reportOf_more (extra : Nat) (result : ExecutionResult) (last : Evm) :
    reportOf state (gasLimit + extra) result (gasBudget.more extra last) =
      reportOf state gasLimit result last := by
  have used : gasLimit + extra - (last.gasLeft + extra) = gasLimit - last.gasLeft := by omega
  show SimulationResult.mk _ (gasLimit + extra - (last.gasLeft + extra)) _ _ _ = _
  rw [used]
  rfl

/-- The frame of a simulation starts at the first instruction of the target's code. -/
theorem blind_simulationVm (code : gasBlind (state.getCode target) = true) :
    Blind (syncLegacyStateIntoFork (simulationVm state caller target value input gasLimit)) :=
  ⟨⟨rfl, .refl⟩, code⟩

/-- Once enough gas is known, what is used decides which other limits are enough. -/
theorem simulation_threshold {report : SimulationResult}
    (code : gasBlind (state.getCode target) = true)
    (simulated : simulateTx host fuel state caller target value input gasLimit = .value report)
    (success : report.success = true) (other : Nat) :
    (report.gasUsed ≤ other →
        simulateTx host fuel state caller target value input other = .value report) ∧
      (other < report.gasUsed → ∃ failed,
        simulateTx host fuel state caller target value input other = .value failed ∧
          failed.success = false) := by
  obtain ⟨funded, history, result, last, traced, succeeded, rfl⟩ :=
    trace_of_simulated simulated success
  have used : (reportOf state gasLimit result last).gasUsed = gasLimit - last.gasLeft := rfl
  rw [used]
  rcases Nat.le_total gasLimit other with more | less
  · -- More than was enough is enough, and nothing less than the use is more than the limit.
    obtain ⟨extra, rfl⟩ := Nat.exists_eq_add_of_le more
    obtain ⟨later, same⟩ := trace_of_less extra (blind_simulationVm code) succeeded traced
    rw [← simulationVm_more] at same
    refine ⟨fun _ => ?_, fun short => by omega⟩
    rw [simulateTx_of_trace funded same, reportOf_more]
  · obtain ⟨extra, rfl⟩ := Nat.exists_eq_add_of_le less
    rw [simulationVm_more] at traced
    obtain ⟨enough, short⟩ := trace_of_excess (blind_simulationVm code) succeeded traced
    constructor
    · intro covers
      obtain ⟨past, before, ran, rfl⟩ := enough (by omega)
      rw [simulateTx_of_trace funded ran, reportOf_more]
    · intro lacks
      obtain ⟨past, before, ran⟩ := short (by omega)
      exact ⟨_, simulateTx_of_trace funded ran, rfl⟩

/--
A contract that is blind to gas needs one fixed amount of it, if any is enough.

Every limit from there on leads to the same report, and every limit below fails.
-/
theorem simulation_gas_threshold (host : Host) (fuel : Nat) (state : StateFork)
    (caller target : Address) (value : Word) (input : Bytes)
    (code : gasBlind (state.getCode target) = true) :
    (∀ gasLimit report, simulateTx host fuel state caller target value input gasLimit =
        .value report → report.success = false) ∨
      ∃ report, report.success = true ∧ ∀ gasLimit,
        (report.gasUsed ≤ gasLimit →
          simulateTx host fuel state caller target value input gasLimit = .value report) ∧
        (gasLimit < report.gasUsed → ∃ failed,
          simulateTx host fuel state caller target value input gasLimit = .value failed ∧
            failed.success = false) := by
  by_cases succeeds : ∃ gasLimit report, simulateTx host fuel state caller target value input
      gasLimit = .value report ∧ report.success = true
  · obtain ⟨gasLimit, report, simulated, success⟩ := succeeds
    exact .inr ⟨report, success, simulation_threshold code simulated success⟩
  · refine .inl fun gasLimit report simulated => ?_
    rw [← Bool.not_eq_true]
    exact fun success => succeeds ⟨gasLimit, report, simulated, success⟩

/-- A cold store of a new value and the two pushes before it. -/
theorem simulation_gas_threshold_storing :
    ∃ report, report.success = true ∧ ∀ gasLimit,
      (report.gasUsed ≤ gasLimit →
        simulateTx (tableHost []) 10 storing 0x02 0x01 9 [] gasLimit = .value report) ∧
      (gasLimit < report.gasUsed → ∃ failed,
        simulateTx (tableHost []) 10 storing 0x02 0x01 9 [] gasLimit = .value failed ∧
          failed.success = false) := by
  have ended : endsWith (simulateTx (tableHost []) 10 storing 0x02 0x01 9 [] 22106)
      (fun report => report.success) = true := by
    decide +kernel
  obtain ⟨report, simulated, success⟩ := exists_of_endsWith ended
  rcases simulation_gas_threshold (tableHost []) 10 storing 0x02 0x01 9 [] (by decide +kernel)
    with never | found
  · rw [never _ _ simulated] at success
    cases success
  · exact found

end Simulations

end MiniEvm
