import MiniEvm.Loops.While
import MiniEvm.Proofs.Vm.Gas
import MiniEvm.Rpc.Estimator

/-! The search for a gas limit ends at one that works and that cannot be lowered by one. -/

namespace MiniEvm

open Frames Loops

section Search

/-- The range that is left to search. -/
structure SearchState where
  low : Nat
  high : Nat

/-- The limit that a round tries. -/
def SearchState.middle (state : SearchState) : Nat := state.low + (state.high - state.low) / 2

/-- The range after a round, up to the limit that was tried or from behind it on. -/
def SearchState.narrowed (state : SearchState) (verdict : Bool) : SearchState :=
  if verdict then ⟨state.low, state.middle⟩ else ⟨saturatingAdd state.middle 1, state.high⟩

/--
One round of the search, over attempts with the gas that is left for execution.

No subtraction is below zero, and the limit that is tried is a 64-bit number.
-/
structure SearchRound (attempt : Nat → Outcome Fault Bool) (intrinsic : Nat)
    (state next : SearchState) : Prop where
  ordered : state.low ≤ state.high
  inRange : state.middle ≤ u64Max
  paid : intrinsic ≤ state.middle
  turned : ∃ verdict, attempt (state.middle - intrinsic) = .value verdict ∧
    next = state.narrowed verdict

/-- The loop of the search. -/
def SearchLoop (attempt : Nat → Outcome Fault Bool) (intrinsic : Nat) :
    Nat → SearchState → SearchState → Prop :=
  Ends (fun state => state.low < state.high) (SearchRound attempt intrinsic)

/--
What holds between two rounds, whatever the attempts come to.

The upper end works, and just below the lower end is an attempt that failed, or the floor.
-/
structure SearchInvariant (attempt : Nat → Outcome Fault Bool) (intrinsic limit : Nat)
    (state : SearchState) : Prop where
  floor : intrinsic ≤ state.low
  ordered : state.low ≤ state.high
  ceiling : state.high ≤ limit
  works : attempt (state.high - intrinsic) = .value true
  tight : state.low = intrinsic ∨ attempt (state.low - 1 - intrinsic) = .value false

variable {attempt : Nat → Outcome Fault Bool} {intrinsic limit : Nat} {state next : SearchState}

theorem low_le_middle (state : SearchState) : state.low ≤ state.middle := Nat.le_add_right ..

theorem middle_lt_high (entered : state.low < state.high) : state.middle < state.high := by
  unfold SearchState.middle
  omega

/-- Below the largest 64-bit number, moving on by one does not saturate. -/
theorem saturatingAdd_one {number bound : Nat} (less : number < bound) (small : bound ≤ u64Max) :
    saturatingAdd number 1 = number + 1 := Nat.min_eq_left (by omega)

/-- Whatever the attempt in the middle comes to, one of the two ends takes it over. -/
theorem SearchInvariant.kept (holds : SearchInvariant attempt intrinsic limit state)
    (small : limit ≤ u64Max) (entered : state.low < state.high)
    (round : SearchRound attempt intrinsic state next) :
    SearchInvariant attempt intrinsic limit next ∧
      next.high - next.low < state.high - state.low := by
  obtain ⟨floor, ordered, ceiling, works, tight⟩ := holds
  obtain ⟨verdict, tried, rfl⟩ := round.turned
  have above := low_le_middle state
  have below := middle_lt_high entered
  cases verdict with
  | true =>
    -- A success moves the upper end down to a limit that works.
    have narrowed : state.narrowed true = ⟨state.low, state.middle⟩ := rfl
    rw [narrowed]
    exact ⟨⟨floor, above, (Nat.le_of_lt below).trans ceiling, tried, tight⟩, by simp only; omega⟩
  | false =>
    have narrowed : state.narrowed false = ⟨state.middle + 1, state.high⟩ := by
      rw [← saturatingAdd_one below (ceiling.trans small)]
      rfl
    rw [narrowed]
    -- The failed attempt now stands just below the lower end.
    exact ⟨⟨(floor.trans above).trans (Nat.le_succ _), below, ceiling, works, .inr tried⟩,
      by simp only; omega⟩

/-- A round goes through as soon as its attempt comes to an end. -/
theorem SearchInvariant.round (holds : SearchInvariant attempt intrinsic limit state)
    (small : limit ≤ u64Max) (entered : state.low < state.high) {verdict : Bool}
    (tried : attempt (state.middle - intrinsic) = .value verdict) :
    SearchRound attempt intrinsic state (state.narrowed verdict) := by
  have below := middle_lt_high entered
  refine ⟨holds.ordered, ?_, holds.floor.trans (low_le_middle _), verdict, tried, rfl⟩
  have ceiling := holds.ceiling
  omega

/-- One round of the search as it is run. -/
theorem search_succ {succeeds : Nat → Outcome Fault Bool} (rounds : Nat)
    (entered : state.low < state.high) :
    estimateTransactionGas.search succeeds (rounds + 1) state.low state.high =
      succeeds state.middle >>= fun verdict =>
        estimateTransactionGas.search succeeds rounds (state.narrowed verdict).low
          (state.narrowed verdict).high := by
  rw [estimateTransactionGas.search, if_pos entered]
  -- The verdict decides which half is kept.
  refine congrArg (succeeds state.middle >>= ·) (funext fun verdict => ?_)
  cases verdict with
  | true => rfl
  | false => rfl

/-- Where the search returns a limit, its loop has come to an end at that limit. -/
theorem search_ends (small : limit ≤ u64Max) (rounds : Nat) :
    ∀ {state : SearchState} {gas : Nat}, SearchInvariant attempt intrinsic limit state →
      state.high - state.low ≤ rounds →
      estimateTransactionGas.search (fun total => attempt (total - intrinsic)) rounds state.low
        state.high = .value gas →
      ∃ turns, SearchLoop attempt intrinsic turns state ⟨gas, gas⟩ ∧
        SearchInvariant attempt intrinsic limit ⟨gas, gas⟩ := by
  -- The rounds left bound the width of the range, and each round makes it narrower.
  induction rounds with
  | zero =>
    intro state gas holds bound returned
    -- No rounds are left for an empty range only.
    have ordered := holds.ordered
    have closed : state.low = state.high := by omega
    obtain ⟨low, high⟩ := state
    obtain rfl : low = high := closed
    cases returned
    exact ⟨0, .leave (Nat.lt_irrefl _), holds⟩
  | succ rounds ih =>
    intro state gas holds bound returned
    by_cases entered : state.low < state.high
    · rw [search_succ rounds entered] at returned
      obtain ⟨verdict, tried, rest⟩ := Outcome.bind_eq_value returned
      have round := holds.round small entered tried
      obtain ⟨holds', less⟩ := holds.kept small entered round
      obtain ⟨turns, ends, last⟩ := ih holds' (by omega) rest
      exact ⟨turns + 1, .turn entered round ends, last⟩
    · -- The loop has been left: both ends are the same limit.
      have ordered := holds.ordered
      have closed : state.low = state.high := by omega
      rw [estimateTransactionGas.search, if_neg entered] at returned
      obtain ⟨low, high⟩ := state
      obtain rfl : low = high := closed
      cases returned
      exact ⟨0, .leave (Nat.lt_irrefl _), holds⟩

/-- If every attempt within the range comes to an end, so does the search. -/
theorem search_finishes (limit : Nat) {succeeds : Nat → Outcome Fault Bool}
    (finished : ∀ total, total ≤ limit → succeeds total ≠ .outOfFuel) (rounds : Nat) :
    ∀ low high, high ≤ limit →
      estimateTransactionGas.search succeeds rounds low high ≠ .outOfFuel := by
  induction rounds with
  | zero =>
    intro low high ceiling stuck
    cases stuck
  | succ rounds ih =>
    intro low high ceiling
    by_cases entered : low < high
    · have less : (⟨low, high⟩ : SearchState).low < (⟨low, high⟩ : SearchState).high := entered
      have below : (⟨low, high⟩ : SearchState).middle < high := middle_lt_high less
      rw [search_succ rounds less]
      -- The middle is within the range, so its attempt comes to an end.
      have tried := finished _ (Nat.le_of_lt (Nat.lt_of_lt_of_le below ceiling))
      cases verdict : succeeds (⟨low, high⟩ : SearchState).middle with
      | outOfFuel => exact absurd verdict tried
      | fault cause => simp
      | value works =>
        rw [Outcome.value_bind]
        cases works with
        | true => exact ih low _ (Nat.le_of_lt (Nat.lt_of_lt_of_le below ceiling))
        | false => exact ih _ high ceiling
    · rw [estimateTransactionGas.search, if_neg entered]
      simp

end Search

section Estimates

variable {host : Host} {fuel : Nat} {state : StateFork} {request : CallRequest}

/-- Some fuel is enough for a simulation, and so is any more. -/
theorem simulateTx_finishes (host : Host) (state : StateFork) (caller target : Address)
    (value : Word) (input : Bytes) (gasLimit : Nat) :
    ∃ enough, ∀ fuel, enough ≤ fuel →
      simulateTx host fuel state caller target value input gasLimit ≠ .outOfFuel := by
  obtain ⟨enough, stable, finished⟩ :=
    run_finishes host (simulationVm state caller target value input gasLimit)
  refine ⟨enough, fun fuel le => ?_⟩
  unfold simulateTx
  split
  · simp
  · -- The run is the only part of a simulation that needs fuel.
    rw [stable fuel le]
    cases ran : run host enough (simulationVm state caller target value input gasLimit) with
    | outOfFuel => exact absurd ran finished
    | fault cause => simp
    | value ended => simp

/-- What the request costs before anything runs. -/
def CallRequest.intrinsic (request : CallRequest) : Nat :=
  calculateIntrinsicGas (request.data.getD []) request.to_.isNone

/-- The largest limit to try: that of the request, or else that of the block. -/
def CallRequest.limit (request : CallRequest) (blockGasLimit : Nat) : Option Nat :=
  request.gas.elim (some blockGasLimit) toU64

/-- The simulation of the request with so much gas for execution. -/
def simulateRequest (host : Host) (fuel : Nat) (state : StateFork) (request : CallRequest)
    (target : Address) (gasLimit : Nat) : Outcome Fault SimulationResult :=
  simulateTx host fuel state (request.from_.getD 0) target (request.value.getD 0)
    (request.data.getD []) gasLimit

/-- Whether it succeeds. -/
def attemptRequest (host : Host) (fuel : Nat) (state : StateFork) (request : CallRequest)
    (target : Address) (gasLimit : Nat) : Outcome Fault Bool := do
  let result ← simulateRequest host fuel state request target gasLimit
  return result.success

theorem attemptRequest_eq_value {target : Address} {gasLimit : Nat} {verdict : Bool}
    (tried : attemptRequest host fuel state request target gasLimit = .value verdict) :
    ∃ result, simulateRequest host fuel state request target gasLimit = .value result ∧
      result.success = verdict := by
  obtain ⟨result, simulated, reported⟩ := Outcome.bind_eq_value tried
  exact ⟨result, simulated, Outcome.value.inj reported⟩

/-- Some fuel is enough for all attempts up to a limit. -/
theorem attemptRequest_finishes (host : Host) (state : StateFork) (request : CallRequest)
    (target : Address) (limit : Nat) :
    ∃ enough, ∀ fuel, enough ≤ fuel → ∀ gasLimit, gasLimit ≤ limit →
      attemptRequest host fuel state request target gasLimit ≠ .outOfFuel := by
  have single : ∀ gasLimit, ∃ enough, ∀ fuel, enough ≤ fuel →
      attemptRequest host fuel state request target gasLimit ≠ .outOfFuel := by
    intro gasLimit
    obtain ⟨enough, finished⟩ := simulateTx_finishes host state (request.from_.getD 0) target
      (request.value.getD 0) (request.data.getD []) gasLimit
    refine ⟨enough, fun fuel le => ?_⟩
    unfold attemptRequest simulateRequest
    cases simulated : simulateTx host fuel state (request.from_.getD 0) target
      (request.value.getD 0) (request.data.getD []) gasLimit with
    | outOfFuel => exact absurd simulated (finished fuel le)
    | fault cause => simp
    | value result => simp
  -- There are only finitely many attempts; the induction is on the largest of them.
  induction limit with
  | zero =>
    obtain ⟨enough, finished⟩ := single 0
    refine ⟨enough, fun fuel le gasLimit small => ?_⟩
    obtain rfl := Nat.le_zero.mp small
    exact finished fuel le
  | succ limit ih =>
    -- The larger of two bounds serves the attempts below and the last one.
    obtain ⟨enough, below⟩ := ih
    obtain ⟨more, last⟩ := single (limit + 1)
    refine ⟨max enough more, fun fuel le gasLimit small => ?_⟩
    rcases Nat.lt_or_ge gasLimit (limit + 1) with less | reached
    · exact below fuel (by omega) gasLimit (by omega)
    · obtain rfl : gasLimit = limit + 1 := by omega
      exact last fuel (by omega)

/-- An estimate that goes as far as the first attempt. -/
theorem estimateTransactionGas_eq {blockGasLimit limit : Nat} {target : Address}
    (bounded : request.limit blockGasLimit = some limit) (enough : request.intrinsic ≤ limit)
    (named : request.to_ = some target) :
    estimateTransactionGas host fuel state request blockGasLimit = (do
      let succeeds := fun total =>
        attemptRequest host fuel state request target (total - request.intrinsic)
      if ← succeeds limit then do
        let gas ← estimateTransactionGas.search succeeds (limit - request.intrinsic)
          request.intrinsic limit
        return .ok gas
      else return .error (estimationError "execution reverted during gas estimation")) := by
  obtain ⟨from_, to_, gas, gasPrice, value, data⟩ := request
  obtain rfl : to_ = some target := named
  have affordable := Nat.not_lt.mpr enough
  unfold CallRequest.intrinsic at affordable
  unfold estimateTransactionGas
  -- Both sources of the limit lead to the same search.
  cases gas with
  | none =>
    obtain rfl : blockGasLimit = limit := Option.some.inj bounded
    simp only [if_neg affordable]
    rfl
  | some gas =>
    have converted : toU64 gas = some limit := bounded
    simp only [converted, if_neg affordable]
    rfl

/--
The limit that is found lies in the range, works, and cannot be lowered by one.

The search that found it came to an end with every operation in its range.
-/
structure TightEstimate (host : Host) (fuel : Nat) (state : StateFork) (request : CallRequest)
    (blockGasLimit limit : Nat) (target : Address) (gas : Nat) : Prop where
  bounded : request.limit blockGasLimit = some limit
  named : request.to_ = some target
  floor : request.intrinsic ≤ gas
  ceiling : gas ≤ limit
  works : ∃ result, simulateRequest host fuel state request target (gas - request.intrinsic) =
    .value result ∧ result.success = true
  tight : gas = request.intrinsic ∨
    ∃ result, simulateRequest host fuel state request target (gas - 1 - request.intrinsic) =
      .value result ∧ result.success = false
  searched : ∃ rounds, SearchLoop (attemptRequest host fuel state request target) request.intrinsic
    rounds ⟨request.intrinsic, limit⟩ ⟨gas, gas⟩

/-- A request is turned down by a check, or has a target and a limit above its intrinsic gas. -/
theorem estimateTransactionGas_cases (host : Host) (state : StateFork) (request : CallRequest)
    (blockGasLimit : Nat) :
    (∃ error, ∀ fuel, estimateTransactionGas host fuel state request blockGasLimit =
        .value (.error error)) ∨
      ∃ limit target, request.limit blockGasLimit = some limit ∧ request.to_ = some target ∧
        request.intrinsic ≤ limit := by
  obtain ⟨from_, to_, gas, gasPrice, value, data⟩ := request
  unfold estimateTransactionGas CallRequest.limit CallRequest.intrinsic
  -- Each of the three checks answers with an error of its own, whatever the fuel.
  cases gas with
  | none =>
    by_cases short : blockGasLimit < calculateIntrinsicGas (data.getD []) to_.isNone
    · exact .inl ⟨_, fun fuel => if_pos short⟩
    · cases to_ with
      | none => exact .inl ⟨_, fun fuel => if_neg short⟩
      | some target => exact .inr ⟨blockGasLimit, target, rfl, rfl, Nat.not_lt.mp short⟩
  | some operand =>
    cases converted : toU64 operand with
    | none => exact .inl ⟨_, fun fuel => by simp only [converted]; rfl⟩
    | some limit =>
      by_cases short : limit < calculateIntrinsicGas (data.getD []) to_.isNone
      · exact .inl ⟨_, fun fuel => by simp only [converted]; exact if_pos short⟩
      · cases to_ with
        | none => exact .inl ⟨_, fun fuel => by simp only [converted]; exact if_neg short⟩
        | some target => exact .inr ⟨limit, target, converted, rfl, Nat.not_lt.mp short⟩

/-- Every limit that is tried at first is a 64-bit number. -/
theorem limit_le {blockGasLimit limit : Nat} (small : blockGasLimit ≤ u64Max)
    (bounded : request.limit blockGasLimit = some limit) : limit ≤ u64Max := by
  unfold CallRequest.limit at bounded
  cases asked : request.gas with
  | none =>
    rw [asked] at bounded
    obtain rfl := Option.some.inj bounded
    exact small
  | some operand =>
    rw [asked] at bounded
    -- The limit of a request is converted with a check, which only numbers in range pass.
    obtain ⟨fits, converted⟩ := Option.ite_none_right_eq_some.mp bounded
    obtain rfl := Option.some.inj converted
    exact fits

/--
Gas estimation comes to an end, and where it returns a limit that is a tight one.

Nothing is asked of the contract that is called: it may well fail with more gas than it needs.
-/
theorem estimate_is_tight (host : Host) (state : StateFork) (request : CallRequest)
    (blockGasLimit : Nat) (small : blockGasLimit ≤ u64Max) :
    (∀ fuel gas, estimateTransactionGas host fuel state request blockGasLimit =
        .value (.ok gas) →
      ∃ limit target, TightEstimate host fuel state request blockGasLimit limit target gas) ∧
      ∃ enough, ∀ fuel, enough ≤ fuel →
        estimateTransactionGas host fuel state request blockGasLimit ≠ .outOfFuel := by
  constructor
  · intro fuel gas returned
    obtain ⟨error, refused⟩ | ⟨limit, target, bounded, named, enough⟩ :=
      estimateTransactionGas_cases host state request blockGasLimit
    · rw [refused fuel] at returned
      cases returned
    rw [estimateTransactionGas_eq bounded enough named] at returned
    obtain ⟨verdict, tried, rest⟩ := Outcome.bind_eq_value returned
    cases verdict with
    | false => cases rest
    | true =>
      obtain ⟨found, searched, answered⟩ := Outcome.bind_eq_value rest
      cases answered
      have start : SearchInvariant (attemptRequest host fuel state request target)
          request.intrinsic limit ⟨request.intrinsic, limit⟩ :=
        ⟨Nat.le_refl _, enough, Nat.le_refl _, tried, .inl rfl⟩
      obtain ⟨rounds, ends, last⟩ :=
        search_ends (limit_le small bounded) _ start (Nat.le_refl _) searched
      exact ⟨limit, target, {
        bounded := bounded
        named := named
        floor := last.floor
        ceiling := last.ceiling
        works := attemptRequest_eq_value last.works
        tight := last.tight.imp_right attemptRequest_eq_value
        searched := ⟨rounds, ends⟩ }⟩
  · obtain ⟨error, refused⟩ | ⟨limit, target, bounded, named, enough⟩ :=
      estimateTransactionGas_cases host state request blockGasLimit
    · exact ⟨0, fun fuel _ => by rw [refused fuel]; simp⟩
    obtain ⟨fuelBound, finished⟩ := attemptRequest_finishes host state request target limit
    refine ⟨fuelBound, fun fuel le => ?_⟩
    rw [estimateTransactionGas_eq bounded enough named]
    -- With fuel for every attempt up to the limit, nothing else can run out.
    have attempts := finished fuel le
    cases tried : attemptRequest host fuel state request target (limit - request.intrinsic) with
    | outOfFuel => exact absurd tried (attempts _ (Nat.sub_le ..))
    | fault cause => simp [tried]
    | value verdict =>
      cases verdict with
      | false => simp [tried]
      | true =>
        have searches := search_finishes limit
          (fun total le => attempts (total - request.intrinsic) ((Nat.sub_le ..).trans le))
          (limit - request.intrinsic) request.intrinsic limit (Nat.le_refl _)
        cases searched : estimateTransactionGas.search
          (fun total => attemptRequest host fuel state request target (total - request.intrinsic))
          (limit - request.intrinsic) request.intrinsic limit with
        | outOfFuel => exact absurd searched searches
        | fault cause => simp [tried, searched]
        | value gas => simp [tried, searched]

/-- A request to one account. -/
def plainRequest : CallRequest := { to_ := some 0x0a }

/-- That account, with code that stores a value. -/
def storingAccount : StateFork where
  baseState := (∅ : HashMap Address AccountState).insert 0x0a
    { code := [0x60, 7, 0x60, 3, 0x55] }

/-- Without code there is nothing to search for, and with it the search ends at its cost. -/
theorem estimate_is_tight_storing :
    (∃ limit target, TightEstimate (tableHost []) 1 {} plainRequest 21003 limit target 21000) ∧
      estimateTransactionGas (tableHost []) 10 storingAccount plainRequest 44000 =
        .value (.ok 43106) ∧
      ∃ limit target,
        TightEstimate (tableHost []) 10 storingAccount plainRequest 44000 limit target 43106 := by
  -- The search is run for an account that stores, and for a plain transfer it has nothing to do.
  have ended : endsWith
      (estimateTransactionGas (tableHost []) 10 storingAccount plainRequest 44000)
      (fun answer => decide (answer = .ok 43106)) = true := by
    decide +kernel
  obtain ⟨answer, returned, same⟩ := exists_of_endsWith ended
  rw [of_decide_eq_true same] at returned
  exact ⟨(estimate_is_tight (tableHost []) {} plainRequest 21003 (by decide)).1 1 21000 rfl,
    returned,
    (estimate_is_tight (tableHost []) storingAccount plainRequest 44000 (by decide)).1 10 43106
      returned⟩

end Estimates

end MiniEvm
