import MiniEvm.Proofs.Vm.Transactions
import MiniEvm.Rpc.Estimator

/-! Gas estimation against execution: which gas each of them takes off for the transaction
itself. -/

namespace MiniEvm

open Frames

variable {host : Host} {state : StateFork} {tx : SignedTransaction}

/-- A transaction that is turned down, whatever the bound on its run. -/
def Rejects (host : Host) (state : StateFork) (tx : SignedTransaction) : Prop :=
  ∃ error, ∀ fuel, applySignedTransaction host fuel state tx = .value (.error error, state)

/-- Only the two checks turn a transaction down. -/
theorem rejects_iff : Rejects host state tx ↔ ∃ error, rejection state tx = some error := by
  constructor
  · rintro ⟨error, refused⟩
    rcases applySignedTransaction_cases (refused 0) with ⟨error, checked, _, _⟩ |
      ⟨_, _, _, _, _, _, answer, _⟩
    · exact ⟨error, checked⟩
    · cases answer
  · rintro ⟨error, checked⟩
    exact ⟨error, fun fuel => applySignedTransaction_of_rejection checked⟩

/-- The checks as conditions on the state. -/
theorem rejection_iff : (∃ error, rejection state tx = some error) ↔
    (state.getAccount tx.sender).nonce ≠ tx.nonce ∨
      state.getBalance tx.sender < tx.value + tx.maxGasCost := by
  simp only [rejection]
  -- The first check decides alone, and the second only where the first one passed.
  by_cases nonce : (state.getAccount tx.sender).nonce = tx.nonce
  · by_cases poor : state.getBalance tx.sender < tx.value + tx.maxGasCost
    · simp [nonce, poor]
    · simp [nonce, poor]
  · simp [nonce]

/-- Every executed frame starts with the whole limit. -/
theorem executedFrame_gasLeft {vm : Evm} (executed : executedFrame host state tx = some vm) :
    vm.gasLeft = tx.gasLimit := by
  unfold executedFrame at executed
  split at executed
  · obtain rfl := Option.some.inj executed
    rfl
  · cases executed

/-- The base alone is no small cost. -/
theorem calculateIntrinsicGas_pos (input : Bytes) (isContractCreation : Bool) :
    0 < calculateIntrinsicGas input isContractCreation := by
  unfold calculateIntrinsicGas
  -- No byte of input makes the sum smaller, up to the largest 64-bit value.
  have grows : ∀ start, 0 < start →
      0 < input.foldl (fun gas byte => saturatingAdd gas (if byte = 0 then 4 else 16)) start := by
    induction input with
    | nil => exact fun _ positive => positive
    | cons byte rest ih =>
      intro start positive
      apply ih
      simp only [saturatingAdd, u64Max]
      omega
  apply grows
  split <;> decide

/--
A transaction accounts for the gas that its estimate goes by.

It is turned down below its intrinsic gas, and otherwise runs on what is left of its limit and
reports the intrinsic gas together with what the run has used.
-/
structure GasAgrees (host : Host) (state : StateFork) (tx : SignedTransaction) : Prop where
  refused : tx.gasLimit < calculateIntrinsicGas tx.data false → Rejects host state tx
  executed : calculateIntrinsicGas tx.data false ≤ tx.gasLimit → Rejects host state tx ∨
    ∃ vm, executedFrame host state tx = some vm ∧
      vm.gasLeft = executionGas (calculateIntrinsicGas tx.data false) tx.gasLimit ∧
      ∀ fuel result final, run host fuel vm = .value (result, final) →
        ∃ receipt after, applySignedTransaction host fuel state tx = .value (.ok receipt, after) ∧
          receipt.gasUsed =
            calculateIntrinsicGas tx.data false + (vm.gasLeft - final.gasLeft)

/-- A transaction that runs, or aborts, does not account for its intrinsic gas. -/
theorem rejects_of_gasAgrees (agrees : GasAgrees host state tx) : Rejects host state tx := by
  -- A limit below the intrinsic gas must be refused, and any other one is run in full.
  rcases Nat.lt_or_ge tx.gasLimit (calculateIntrinsicGas tx.data false) with short | enough
  · exact agrees.refused short
  · rcases agrees.executed enough with refused | ⟨vm, executed, budget, _⟩
    · exact refused
    · -- A frame starts with the whole limit, and the estimate would leave less.
      have whole := executedFrame_gasLeft executed
      have positive := calculateIntrinsicGas_pos tx.data false
      simp only [executionGas] at budget
      omega

/--
Execution never accounts for intrinsic gas.

A transaction agrees with its estimate exactly when it does not run at all, because one of the two
checks turns it down.
-/
theorem gasAgrees_iff (host : Host) (state : StateFork) (tx : SignedTransaction) :
    GasAgrees host state tx ↔
      (state.getAccount tx.sender).nonce ≠ tx.nonce ∨
        state.getBalance tx.sender < tx.value + tx.maxGasCost := by
  -- The two agree by refusing, since what is accepted costs more than was simulated.
  constructor
  · intro agrees
    exact rejection_iff.mp (rejects_iff.mp (rejects_of_gasAgrees agrees))
  · intro checked
    have refused : Rejects host state tx := rejects_iff.mpr (rejection_iff.mpr checked)
    exact ⟨fun _ => refused, fun _ => .inl refused⟩

/-- A plain transfer without a fee, with all the gas it needs. -/
def plainTransfer : SignedTransaction where
  hash := 1
  txType := .legacy
  chainId := some 1
  nonce := 0
  gasLimit := 30000
  maxFeePerGas := 0
  maxPriorityFeePerGas := 0
  to_ := some 0x0a
  value := 0
  data := []
  sender := 0x01

/-- It runs on its whole limit, and its receipt reports no gas at all. -/
theorem plainTransfer_uses_no_gas :
    (∃ vm, executedFrame (tableHost []) {} plainTransfer = some vm ∧ vm.gasLeft = 30000) ∧
      executionGas (calculateIntrinsicGas plainTransfer.data false) plainTransfer.gasLimit = 9000 ∧
      (∃ receipt after, applySignedTransaction (tableHost []) 1 {} plainTransfer =
        .value (.ok receipt, after) ∧ receipt.status = 1 ∧ receipt.gasUsed = 0) ∧
      ¬ GasAgrees (tableHost []) {} plainTransfer := by
  refine ⟨⟨_, rfl, rfl⟩, by decide, ⟨_, _, rfl, rfl, rfl⟩, ?_⟩
  intro agrees
  -- Its nonce is right and it costs nothing, so neither check turns it down.
  have refused := rejection_iff.mp (rejects_iff.mp (rejects_of_gasAgrees agrees))
  revert refused
  decide

end MiniEvm
