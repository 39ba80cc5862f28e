import MiniEvm.Proofs.Sim.Search
import MiniEvm.Proofs.Vm.Simulations

/-! When the profit that a route reports is the difference of its balances. -/

namespace MiniEvm

open Frames

/-- An integer as a signed 128-bit number, held at the ends of the range. -/
def clampI128 (value : Int) : Int := max i128Min (min i128Max value)

/-- The profit is the difference over the integers, held at the ends of its range. -/
structure ReportsProfit (result : ArbSimulationResult) : Prop where
  difference : result.netProfitOrLoss =
    clampI128 (result.endingBalance.toNat - result.startingBalance.toNat)
  gain : 0 < result.netProfitOrLoss ↔ result.startingBalance < result.endingBalance
  even : result.netProfitOrLoss = 0 ↔ result.endingBalance = result.startingBalance
  loss : result.netProfitOrLoss < 0 ↔ result.endingBalance < result.startingBalance

section Differences

theorem clampedI128_eq (value : Word) : clampedI128 value = min (value.toNat : Int) i128Max := by
  unfold clampedI128
  split <;> omega

variable {result : ArbSimulationResult}

/-- Balances in range, a balance that started at zero, or one that ends where it started. -/
def ProfitFits (starting ending : Word) : Prop :=
  (starting.toNat ≤ i128Max ∧ ending.toNat ≤ i128Max) ∨ starting = 0 ∨ starting = ending

/-- Holding the balances in range first makes no difference for just these. -/
theorem signedDifference_eq_iff (ending starting : Word) :
    signedDifference ending starting = clampI128 (ending.toNat - starting.toNat) ↔
      ProfitFits starting ending := by
  -- Zero and equality are told on numbers, so that the rest is arithmetic.
  have zero : starting = 0 ↔ starting.toNat = 0 := by
    rw [← BitVec.toNat_inj]
    rfl
  have same : starting = ending ↔ starting.toNat = ending.toNat := BitVec.toNat_inj.symm
  rw [ProfitFits, zero, same, signedDifference, clampI128]
  simp only [clampedI128_eq, i128Max, i128Min]
  show (_ : Int) = _ ↔ _
  omega

theorem reportsProfit_of_fits
    (net : result.netProfitOrLoss =
      signedDifference result.endingBalance result.startingBalance)
    (fits : ProfitFits result.startingBalance result.endingBalance) : ReportsProfit result := by
  have difference := net.trans ((signedDifference_eq_iff _ _).mpr fits)
  -- Holding a number in a range around zero keeps its sign.
  rw [clampI128, i128Max, i128Min] at difference
  refine ⟨difference, ?_, ?_, ?_⟩
  · show (0 : Int) < _ ↔ _
    rw [difference, BitVec.lt_def]
    omega
  · show (_ : Int) = 0 ↔ _
    rw [difference, ← BitVec.toNat_inj]
    omega
  · show (_ : Int) < 0 ↔ _
    rw [difference, BitVec.lt_def]
    omega

end Differences

section Codeless

variable {host : Host} {fuel : Nat} {state : StateFork} {caller target token owner : Address}
  {input : Bytes} {gasLimit : Nat}

/-- A call of an account without code succeeds with no data, and leaves all code as it is. -/
theorem simulateTx_of_no_code (host : Host) (fuel : Nat) (caller : Address) (input : Bytes)
    (gasLimit : Nat) (empty : state.getCode target = []) :
    ∃ outcome, simulateTx host (fuel + 1) state caller target 0 input gasLimit = .value outcome ∧
      outcome.success = true ∧ outcome.returnData = [] ∧
      ∀ address, (overlay state outcome.stateDiff address).code = state.getCode address := by
  -- The frame has nothing to run, and no old map to copy.
  have start : syncLegacyStateIntoFork (simulationVm state caller target 0 input gasLimit) =
      simulationVm state caller target 0 input gasLimit := rfl
  have code : (simulationVm state caller target 0 input gasLimit).code = [] := empty
  have traced : (machine host).trace (fuel + 1)
      (syncLegacyStateIntoFork (simulationVm state caller target 0 input gasLimit)) =
        .value ([], .halt, simulationVm state caller target 0 input gasLimit) := by
    have ended : (machine host).running (simulationVm state caller target 0 input gasLimit) =
        false := by
      show decide (_ < (simulationVm state caller target 0 input gasLimit).code.length) = false
      rw [code]
      rfl
    rw [start, Machine.trace, ended]
    rfl
  have overlays : Overlays state (simulationVm state caller target 0 input gasLimit).state := by
    have taken : Overlays state state.snapshot.2 := (Overlays.refl state).of_layers rfl rfl
    exact (taken.accountForWrite _ _).accountForWrite _ _
  refine ⟨predictionOf state gasLimit .halt
    (endedVm host (simulationVm state caller target 0 input gasLimit)), ?_, rfl, ?_, ?_⟩
  · rw [simulateTx_of_funded ((BitVec.le_def.mpr (Nat.zero_le _))), run_eq_trace, traced]
    rfl
  · obtain ⟨storage, balances, nonces, contracts, same⟩ :=
      syncForkIntoLegacyState_eq host (simulationVm state caller target 0 input gasLimit)
    simp only [predictionOf, endedVm, same]
    rfl
  · intro address
    -- The transfer touches balances only.
    have kept : (simulationVm state caller target 0 input gasLimit).state.getCode address =
        state.getCode address := by
      rw [simulationVm, StateFork.getCode_setBalance, StateFork.getCode_setBalance]
      rfl
    exact (overlays.overlay address).code.symm.trans kept

/-- So its balance is what its slot says. -/
theorem getErc20Balance_of_no_code (empty : state.getCode token = []) :
    getErc20Balance host (fuel + 1) state token owner =
      .value (state.getStorage token (balanceSlot host owner)) := by
  obtain ⟨outcome, simulated, _, data, _⟩ := simulateTx_of_no_code host fuel owner
    ([0x70, 0xa0, 0x82, 0x31] ++ List.replicate 12 0 ++ beBytes 20 owner.toNat) 100000 empty
  rw [getErc20Balance, simulated, Outcome.value_bind, if_neg (by simp [data])]
  rfl

/-- A swap at an account without code sets the balance to the amount that is put in. -/
theorem simulateHop_of_no_code (host : Host) (fuel : Nat) (caller : Address) (hop : SwapHop)
    (progress : ArbSimulator.Progress)
    (codeless : ∀ address, progress.forkState.getCode address = [])
    (enough : ¬ hop.amountIn.getD progress.currentAmount < hop.minAmountOut) :
    ∃ after, ArbSimulator.simulateHop host (fuel + 1) caller hop progress = .value (.ok after) ∧
      (∀ address, after.forkState.getCode address = []) ∧
      after.forkState.getStorage hop.tokenOut (balanceSlot host caller) =
        hop.amountIn.getD progress.currentAmount := by
  obtain ⟨outcome, simulated, succeeded, data, code⟩ := simulateTx_of_no_code host fuel caller
    hop.calldata 30000000 (codeless hop.targetDex)
  -- Without code no data comes back, and the amount is taken over as it went in.
  have amount : (decodeAmount outcome.returnData).getD
      (hop.amountIn.getD progress.currentAmount) = hop.amountIn.getD progress.currentAmount := by
    rw [data]
    rfl
  refine ⟨{
    forkState := setErc20BalanceOverride host
      (insertDiff progress.forkState outcome.stateDiff.entries) hop.tokenOut caller
        (hop.amountIn.getD progress.currentAmount)
    currentAmount := hop.amountIn.getD progress.currentAmount
    totalGasUsed := saturatingAdd progress.totalGasUsed outcome.gasUsed }, ?_, ?_, ?_⟩
  · rw [ArbSimulator.simulateHop, simulated, Outcome.value_bind]
    simp only [succeeded, not_true_eq_false, if_false, amount, if_neg enough]
    rfl
  · intro address
    rw [setErc20BalanceOverride, StateFork.getCode_setStorage, StateFork.getCode,
      getAccount_insertDiff (List.Perm.refl _), code, codeless]
  · rw [setErc20BalanceOverride, StateFork.getStorage_setStorage, if_pos ⟨rfl, rfl⟩]

end Codeless

section Reports

/-- A token without code, and the balance that an account has of it. -/
def tokenState (host : Host) (owner : Address) (balance : Word) : StateFork where
  baseState := (∅ : HashMap Address AccountState).insert 0x01
    { storage := (∅ : HashMap Word Word).insert (balanceSlot host owner) balance }

/-- One swap at an account without code, of the token for itself. -/
def swapRoute (amount : Word) : ArbRoute where
  borrowCapital := none
  startingToken := 0x01
  initialAmount := amount
  hops := [{ targetDex := 0x02, tokenIn := 0x01, tokenOut := 0x01, amountIn := none,
             minAmountOut := 0, calldata := [] }]

/-- Some route reads any two balances. -/
theorem simulateRoute_swapRoute (host : Host) (starting ending : Word) :
    ∃ result, ArbSimulator.simulateRoute host 1
        { baseState := tokenState host 0x03 starting, sender := 0x03 } (swapRoute ending) =
          .value result ∧ result.success = true ∧ result.startingBalance = starting ∧
      result.endingBalance = ending := by
  -- The token is an account without code, so that its balance is read from its slot.
  have codeless : ∀ address, (tokenState host 0x03 starting).getCode address = [] := by
    intro address
    by_cases token : address = 0x01
    · rw [token]
      rfl
    · have absent : (tokenState host 0x03 starting).getAccount address = {} := by
        show ((tokenState host 0x03 starting).baseState.lookup address).getD {} = {}
        rw [tokenState, AList.lookup_insert_ne token]
        rfl
      rw [StateFork.getCode, absent]
  have before : (tokenState host 0x03 starting).getStorage 0x01 (balanceSlot host 0x03) =
      starting := by
    simp [tokenState, StateFork.getStorage, StateFork.getAccount, -AList.insert_empty]
  obtain ⟨after, hopped, empty, held⟩ := simulateHop_of_no_code host 0 0x03
    ⟨0x02, 0x01, 0x01, none, 0, []⟩ ⟨tokenState host 0x03 starting, ending, 0⟩ codeless
    (BitVec.not_lt.mpr (BitVec.le_def.mpr (Nat.zero_le _)))
  refine ⟨ArbSimulator.successResult starting ending after.totalGasUsed, ?_, rfl, rfl, rfl⟩
  have first : getErc20Balance host 1 (tokenState host 0x03 starting) 0x01 0x03 =
      .value starting := by
    rw [getErc20Balance_of_no_code (codeless _), before]
  have last : getErc20Balance host 1 after.forkState 0x01 0x03 = .value ending := by
    rw [getErc20Balance_of_no_code (empty _)]
    exact congrArg Outcome.value held
  simp only [ArbSimulator.simulateRoute, swapRoute, ArbSimulator.simulateHops, first, hopped, last,
    Outcome.value_bind, Outcome.pure_eq]

/-- Every successful route reports its profit just for the balances that fit. -/
theorem profit_reported_iff (host : Host) (starting ending : Word) :
    (∀ fuel simulator route result,
      ArbSimulator.simulateRoute host fuel simulator route = .value result →
      result.success = true → result.startingBalance = starting →
      result.endingBalance = ending → ReportsProfit result) ↔ ProfitFits starting ending := by
  constructor
  · intro reported
    -- A route that reads just these two balances is made for them.
    obtain ⟨result, simulated, succeeded, first, last⟩ :=
      simulateRoute_swapRoute host starting ending
    have report := reported 1 _ _ result simulated succeeded first last
    have net := ArbSimulator.simulateRoute_of_success simulated succeeded
    rw [report.difference, first, last] at net
    exact (signedDifference_eq_iff ending starting).mp net.symm
  · rintro fits fuel simulator route result simulated succeeded rfl rfl
    exact reportsProfit_of_fits (ArbSimulator.simulateRoute_of_success simulated succeeded) fits

/-- A gain of one beyond the range is reported as none. -/
theorem gain_unreported :
    ∃ result, ArbSimulator.simulateRoute (tableHost []) 1
        { baseState := tokenState (tableHost []) 0x03 0x80000000000000000000000000000000, sender := 0x03 }
        (swapRoute 0x80000000000000000000000000000001) = .value result ∧ result.success = true ∧
      result.startingBalance < result.endingBalance ∧ result.netProfitOrLoss = 0 := by
  -- The balances are 2^127 and one more.
  obtain ⟨result, simulated, succeeded, first, last⟩ :=
    simulateRoute_swapRoute (tableHost []) 0x80000000000000000000000000000000 0x80000000000000000000000000000001
  refine ⟨result, simulated, succeeded, ?_, ?_⟩
  · rw [first, last]
    decide
  · rw [ArbSimulator.simulateRoute_of_success simulated succeeded, first, last]
    decide

end Reports

end MiniEvm
