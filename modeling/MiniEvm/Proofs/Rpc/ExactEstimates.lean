import MiniEvm.Proofs.Rpc.Estimates
import MiniEvm.Proofs.Vm.GasWindow

/-! For a contract that is blind to gas, the estimate is the least limit that works. -/

namespace MiniEvm

open Frames

section Threshold

/-- A search over attempts with a threshold finds the threshold. -/
theorem search_threshold (succeeds : Nat → Outcome Fault Bool) (threshold rounds : Nat) :
    ∀ state : SearchState, state.high ≤ u64Max → state.low ≤ threshold → threshold ≤ state.high →
      state.high - state.low ≤ rounds →
      (∀ total, state.low ≤ total → succeeds total = .value (decide (threshold ≤ total))) →
      estimateTransactionGas.search succeeds rounds state.low state.high = .value threshold := by
  -- The threshold stays within the range, which each round makes narrower.
  induction rounds with
  | zero =>
    intro state _ above below bound _
    have closed : state.high = threshold := by omega
    exact congrArg Outcome.value closed
  | succ rounds ih =>
    intro state small above below bound known
    by_cases entered : state.low < state.high
    · have reached := low_le_middle state
      have middle := middle_lt_high entered
      rw [search_succ rounds entered, known _ reached, Outcome.value_bind]
      by_cases works : threshold ≤ state.middle
      · have narrowed : state.narrowed true = ⟨state.low, state.middle⟩ := rfl
        rw [decide_eq_true works, narrowed]
        exact ih _ (Nat.le_trans (Nat.le_of_lt middle) small) above works
          (by simp only; omega) known
      · -- A limit that is too low is left behind together with all below it.
        have narrowed : state.narrowed false = ⟨state.middle + 1, state.high⟩ := by
          rw [← saturatingAdd_one middle small]
          rfl
        rw [decide_eq_false works, narrowed]
        exact ih _ small (by simp only; omega) below (by simp only; omega)
          fun total le => known total (by simp only at le; omega)
    · have closed : state.high = threshold := by omega
      rw [estimateTransactionGas.search, if_neg entered, closed]
      rfl

end Threshold

section Exactness

variable {host : Host} {fuel : Nat} {state : StateFork} {request : CallRequest} {target : Address}
  {report : SimulationResult}

/-- The report of a success is the report for every limit that covers its use. -/
def Needs (host : Host) (fuel : Nat) (state : StateFork) (request : CallRequest)
    (target : Address) (report : SimulationResult) : Prop :=
  ∀ execution, (report.gasUsed ≤ execution →
      simulateRequest host fuel state request target execution = .value report) ∧
    (execution < report.gasUsed → ∃ failed,
      simulateRequest host fuel state request target execution = .value failed ∧
        failed.success = false)

/-- So whether an attempt succeeds is decided by its gas alone. -/
theorem attemptRequest_of_needs (needs : Needs host fuel state request target report)
    (success : report.success = true) (execution : Nat) :
    attemptRequest host fuel state request target execution =
      .value (decide (report.gasUsed ≤ execution)) := by
  obtain ⟨covered, lacking⟩ := needs execution
  unfold attemptRequest
  -- The threshold is what the one report uses.
  by_cases covers : report.gasUsed ≤ execution
  · rw [covered covers, Outcome.value_bind, decide_eq_true covers, success]
    rfl
  · obtain ⟨failed, simulated, verdict⟩ := lacking (Nat.not_le.mp covers)
    rw [simulated, Outcome.value_bind, decide_eq_false covers, verdict]
    rfl

/-- A limit below the intrinsic gas is turned down before anything is tried. -/
theorem estimateTransactionGas_of_poor {blockGasLimit limit : Nat}
    (bounded : request.limit blockGasLimit = some limit) (poor : limit < request.intrinsic) :
    estimateTransactionGas host fuel state request blockGasLimit =
      .value (.error (estimationError "intrinsic gas exceeds gas limit")) := by
  obtain ⟨from_, to_, gas, gasPrice, value, data⟩ := request
  unfold CallRequest.intrinsic at poor
  unfold estimateTransactionGas
  -- The limit is the block's, or the one that was asked for.
  cases gas with
  | none =>
    obtain rfl : blockGasLimit = limit := Option.some.inj bounded
    simp only [if_pos poor]
    rfl
  | some gas =>
    have converted : toU64 gas = some limit := bounded
    simp only [converted, if_pos poor]
    rfl

/-- What an estimate comes to, whatever limit it starts from. -/
theorem estimateTransactionGas_of_needs {blockGasLimit limit : Nat}
    (needs : Needs host fuel state request target report) (success : report.success = true)
    (small : blockGasLimit ≤ u64Max) (named : request.to_ = some target)
    (bounded : request.limit blockGasLimit = some limit) :
    estimateTransactionGas host fuel state request blockGasLimit = .value (
      if limit < request.intrinsic then
        .error (estimationError "intrinsic gas exceeds gas limit")
      else if limit < request.intrinsic + report.gasUsed then
        .error (estimationError "execution reverted during gas estimation")
      else .ok (request.intrinsic + report.gasUsed)) := by
  by_cases poor : limit < request.intrinsic
  · rw [if_pos poor]
    exact estimateTransactionGas_of_poor bounded poor
  · rw [if_neg poor]
    have enough := Nat.not_lt.mp poor
    rw [estimateTransactionGas_eq bounded enough named]
    simp only [attemptRequest_of_needs needs success, Outcome.value_bind]
    by_cases short : limit < request.intrinsic + report.gasUsed
    · rw [if_pos short, if_neg (by simp only [decide_eq_true_eq]; omega)]
      rfl
    · rw [if_neg short, if_pos (by simp only [decide_eq_true_eq]; omega)]
      -- Behind the floor, an attempt succeeds from the floor and the use on.
      have found := search_threshold
        (fun total => .value (decide (report.gasUsed ≤ total - request.intrinsic)))
        (request.intrinsic + report.gasUsed) (limit - request.intrinsic)
        ⟨request.intrinsic, limit⟩ (limit_le small bounded) (Nat.le_add_right ..)
        (Nat.not_lt.mp short) (Nat.le_refl _) fun total le => by
          have same : report.gasUsed ≤ total - request.intrinsic ↔
            request.intrinsic + report.gasUsed ≤ total := by simp only at le; omega
          simp only [same]
      simp only at found
      rw [found]
      rfl

/-- An estimate that is returned stands for a success with the gas that was found. -/
theorem success_of_estimate {blockGasLimit gas : Nat} (named : request.to_ = some target)
    (returned : estimateTransactionGas host fuel state request blockGasLimit = .value (.ok gas)) :
    ∃ limit report, request.limit blockGasLimit = some limit ∧ request.intrinsic ≤ limit ∧
      simulateRequest host fuel state request target (limit - request.intrinsic) =
        .value report ∧ report.success = true := by
  obtain ⟨error, refused⟩ | ⟨limit, _, bounded, _, enough⟩ :=
    estimateTransactionGas_cases host state request blockGasLimit
  · rw [refused fuel] at returned
    cases returned
  · rw [estimateTransactionGas_eq bounded enough named] at returned
    -- The first attempt decides whether there is a search at all.
    obtain ⟨verdict, tried, rest⟩ := Outcome.bind_eq_value returned
    obtain ⟨report, simulated, reported⟩ := attemptRequest_eq_value tried
    cases verdict with
    | false => cases rest
    | true => exact ⟨limit, report, bounded, enough, simulated, reported⟩

/--
The estimate for a contract that is blind to gas is exact.

It is the intrinsic gas and what the call uses, and every limit from there on leads to the same
report and to the same estimate, while every limit below is turned down.
-/
theorem estimate_is_exact (host : Host) (fuel : Nat) (state : StateFork) (request : CallRequest)
    (target : Address) (blockGasLimit gas : Nat) (small : blockGasLimit ≤ u64Max)
    (named : request.to_ = some target) (code : gasBlind (state.getCode target) = true)
    (returned : estimateTransactionGas host fuel state request blockGasLimit = .value (.ok gas)) :
    ∃ report, report.success = true ∧ gas = request.intrinsic + report.gasUsed ∧
      (∀ total, gas ≤ total → simulateRequest host fuel state request target
        (executionGas request.intrinsic total) = .value report) ∧
      ∀ asked blockGasLimit' limit, blockGasLimit' ≤ u64Max →
        { request with gas := asked }.limit blockGasLimit' = some limit →
        estimateTransactionGas host fuel state { request with gas := asked } blockGasLimit' =
          .value (if limit < request.intrinsic then
              .error (estimationError "intrinsic gas exceeds gas limit")
            else if limit < gas then
              .error (estimationError "execution reverted during gas estimation")
            else .ok gas) := by
  obtain ⟨limit, report, bounded, enough, simulated, success⟩ :=
    success_of_estimate named returned
  have needs : Needs host fuel state request target report :=
    simulation_threshold code simulated success
  -- The estimate itself is one of those that the threshold decides.
  have exact : gas = request.intrinsic + report.gasUsed := by
    rw [estimateTransactionGas_of_needs needs success small named bounded] at returned
    split at returned
    · cases returned
    · split at returned
      · cases returned
      · exact (Except.ok.inj (Outcome.value.inj returned)).symm
  refine ⟨report, success, exact, fun total le => ?_, ?_⟩
  · exact (needs _).1 (by unfold executionGas; omega)
  · intro asked blockGasLimit' limit' small' at'
    -- The limit that is asked for is no part of what is simulated.
    have same : Needs host fuel state { request with gas := asked } target report := needs
    rw [estimateTransactionGas_of_needs same success small' named at', exact]
    rfl

/-- A request to an account whose code stores a value. -/
def storingRequest : CallRequest := { to_ := some 0x01 }

theorem estimate_is_exact_storing :
    ∃ report, report.success = true ∧ 43106 = storingRequest.intrinsic + report.gasUsed ∧
      (∀ total, 43106 ≤ total → simulateRequest (tableHost []) 10 storing storingRequest 0x01
        (executionGas storingRequest.intrinsic total) = .value report) ∧
      ∀ asked blockGasLimit' limit, blockGasLimit' ≤ u64Max →
        { storingRequest with gas := asked }.limit blockGasLimit' = some limit →
        estimateTransactionGas (tableHost []) 10 storing { storingRequest with gas := asked }
            blockGasLimit' =
          .value (if limit < storingRequest.intrinsic then
              .error (estimationError "intrinsic gas exceeds gas limit")
            else if limit < 43106 then
              .error (estimationError "execution reverted during gas estimation")
            else .ok 43106) := by
  -- The estimate is computed once, and the theorem says the rest.
  have ended : endsWith (estimateTransactionGas (tableHost []) 10 storing storingRequest 44000)
      (fun answer => decide (answer = .ok 43106)) = true := by
    decide +kernel
  obtain ⟨answer, returned, same⟩ := exists_of_endsWith ended
  rw [of_decide_eq_true same] at returned
  exact estimate_is_exact (tableHost []) 10 storing storingRequest 0x01 44000 43106
    (by decide) rfl (by decide +kernel) returned

end Exactness

end MiniEvm
