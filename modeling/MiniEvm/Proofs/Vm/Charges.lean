import MiniEvm.Proofs.State.Fork
import MiniEvm.Proofs.Vm.Gas
import MiniEvm.Proofs.Vm.Transactions

/-! What a transaction costs: the check, the deduction and the refund, in words and in numbers. -/

namespace MiniEvm

open Frames

variable {host : Host} {fuel : Nat} {state charged : StateFork} {tx : SignedTransaction}
  {result : ExecutionResult} {vm : Evm}

/-- The most gas a transaction may cost, as a number. -/
def SignedTransaction.gasCost (tx : SignedTransaction) : Nat :=
  tx.gasLimit * tx.maxFeePerGas.toNat

/-- A product of gas and fee wraps once, at the end of the range of words. -/
theorem toNat_gasProduct (gas : Nat) (fee : Word) :
    (BitVec.ofNat 256 gas * fee).toNat = gas * fee.toNat % 2 ^ 256 := by
  rw [BitVec.toNat_mul, BitVec.toNat_ofNat, Nat.mod_mul_mod]

/-- The frame of a transaction ends with no more gas than it was given. -/
theorem gasLeft_of_run
    (ran : run host fuel (transactionVm charged tx) = .value (result, vm)) :
    vm.gasLeft ≤ tx.gasLimit := by
  obtain ⟨history, last, looped, rfl⟩ := run_eq_value ran
  have bounded : last.gasLeft ≤ tx.gasLimit := gas_of_runs ⟨fuel, looped⟩
  simpa using bounded

/-- What is refunded is the gas that the frame has left. -/
theorem unusedGas_of_run
    (ran : run host fuel (transactionVm charged tx) = .value (result, vm)) :
    tx.gasLimit - (tx.gasLimit - vm.gasLeft) = vm.gasLeft := by
  have bounded := gasLeft_of_run ran
  omega

section Exactness

/-- The state that the frame of a transaction leaves behind, before the refund. -/
def leftState (charged : StateFork) (result : ExecutionResult) (vm : Evm) : StateFork :=
  if result.isSuccess then vm.state else charged

/-- Nothing wraps: the check, the deduction and the refund come to what unbounded numbers do. -/
structure ExactCharge (state : StateFork) (tx : SignedTransaction) (charged left after : StateFork)
    (unusedGas : Nat) : Prop where
  covered : tx.value.toNat + tx.gasCost ≤ (state.getBalance tx.sender).toNat
  deducted : (charged.getBalance tx.sender).toNat + tx.gasCost = (state.getBalance tx.sender).toNat
  refunded : (after.getBalance tx.sender).toNat =
    (left.getBalance tx.sender).toNat + unusedGas * tx.maxFeePerGas.toNat

/-- An accepted transaction passed the check, in words. -/
theorem covered_of_accepted (accepted : rejection state tx = none) :
    tx.value + tx.maxGasCost ≤ state.getBalance tx.sender := by
  simp only [rejection] at accepted
  split at accepted
  · cases accepted
  · split at accepted
    · cases accepted
    · rename_i covered
      exact BitVec.not_lt.mp covered

/-- The sender has paid the whole upfront cost. -/
theorem getBalance_chargeSender (bumped : Nat) :
    (chargeSender state tx bumped).getBalance tx.sender =
      state.getBalance tx.sender - tx.maxGasCost := by
  rw [chargeSender, StateFork.getBalance_setNonce, StateFork.getBalance_setBalance, if_pos rfl]

/-- It gets back the gas that is left, at the price of the transaction. -/
theorem getBalance_settledState
    (ran : run host fuel (transactionVm charged tx) = .value (result, vm)) :
    ((settledState charged tx result vm).getBalance tx.sender).toNat =
      (((leftState charged result vm).getBalance tx.sender).toNat +
        vm.gasLeft * tx.maxFeePerGas.toNat) % 2 ^ 256 := by
  simp only [settledState, StateFork.getBalance_setBalance, if_true, unusedGas_of_run ran]
  rw [BitVec.toNat_add, toNat_gasProduct, Nat.add_mod_mod]
  rfl

/-- A sum of value and gas in range is checked and deducted exactly. -/
theorem exact_of_range (accepted : rejection state tx = none)
    (range : tx.value.toNat + tx.gasCost < 2 ^ 256) (bumped : Nat) :
    tx.value.toNat + tx.gasCost ≤ (state.getBalance tx.sender).toNat ∧
      ((chargeSender state tx bumped).getBalance tx.sender).toNat + tx.gasCost =
        (state.getBalance tx.sender).toNat := by
  -- A cost inside the range is the product of the unbounded numbers.
  have cost : tx.maxGasCost.toNat = tx.gasCost := by
    rw [SignedTransaction.maxGasCost, toNat_gasProduct]
    exact Nat.mod_eq_of_lt (by unfold SignedTransaction.gasCost at range; omega)
  -- So is the sum, which the balance was compared with.
  have total : (tx.value + tx.maxGasCost).toNat = tx.value.toNat + tx.gasCost := by
    rw [BitVec.toNat_add, cost]
    exact Nat.mod_eq_of_lt range
  have covered : tx.value.toNat + tx.gasCost ≤ (state.getBalance tx.sender).toNat := by
    rw [← total]
    exact covered_of_accepted accepted
  refine ⟨covered, ?_⟩
  rw [getBalance_chargeSender, BitVec.toNat_sub_of_le, cost]
  · omega
  · rw [BitVec.le_def, cost]
    omega

/--
When the cost of a transaction is exact.

A transaction that got a receipt was checked, charged and refunded without any wrapping exactly when
its value and the price of all its gas add up inside the range of words, and the account that a
successful run leaves to the sender has room for the refund.
-/
theorem upfront_cost_exact_iff (host : Host) (fuel : Nat) (state : StateFork)
    (tx : SignedTransaction) (receipt : TxExecutionReceipt) (after : StateFork)
    (applied : applySignedTransaction host fuel state tx = .value (.ok receipt, after)) :
    ∃ bumped result vm,
      run host fuel (transactionVm (chargeSender state tx bumped) tx) = .value (result, vm) ∧
      (ExactCharge state tx (chargeSender state tx bumped)
          (leftState (chargeSender state tx bumped) result vm) after
          (tx.gasLimit - receipt.gasUsed) ↔
        tx.value.toNat + tx.gasCost < 2 ^ 256 ∧
          (result.isSuccess = true → (vm.state.getBalance tx.sender).toNat +
            vm.gasLeft * tx.maxFeePerGas.toNat < 2 ^ 256)) := by
  rcases applySignedTransaction_cases applied with ⟨error, _, never, _⟩ |
    ⟨accepted, bumped, result, vm, _, ran, answered, rfl⟩
  · cases never
  obtain rfl := Except.ok.inj answered
  refine ⟨bumped, result, vm, ran, ?_⟩
  have unused : tx.gasLimit - (receiptOf tx result vm).gasUsed = vm.gasLeft := unusedGas_of_run ran
  have settled := getBalance_settledState ran
  rw [unused]
  constructor
  · intro exact_
    have small := (state.getBalance tx.sender).isLt
    -- What is covered by a balance is a 256-bit number.
    refine ⟨by have covered := exact_.covered; omega, fun succeeded => ?_⟩
    -- A sum that comes out in full has not left the range.
    have refunded := exact_.refunded
    have bounded := ((settledState (chargeSender state tx bumped) tx result vm).getBalance
      tx.sender).isLt
    simp only [leftState, succeeded, if_true] at refunded
    omega
  · rintro ⟨range, room⟩
    -- In range, the check and the deduction are exact whatever the run came to.
    obtain ⟨covered, deducted⟩ := exact_of_range accepted range bumped
    refine ⟨covered, deducted, ?_⟩
    rw [settled]
    refine Nat.mod_eq_of_lt ?_
    cases succeeded : result.isSuccess with
    | true =>
      simp only [leftState, succeeded, if_true]
      exact room succeeded
    | false =>
      -- A failed run leaves the charged state, which lacks at least what is refunded.
      have small := (state.getBalance tx.sender).isLt
      have le : vm.gasLeft * tx.maxFeePerGas.toNat ≤ tx.gasCost :=
        Nat.mul_le_mul_right _ (gasLeft_of_run ran)
      simp only [leftState, succeeded, Bool.false_eq_true, if_false]
      omega

/-- An account with some ether, and one whose code fails. -/
def payer : StateFork where
  baseState := ((∅ : HashMap Address AccountState).insert 0x01 { balance := 5000 }).insert 0x0a
    { code := [0xfe] }

/-- A transaction of that account. -/
def payment (gasLimit : Nat) (fee : Word) (target : Address) : SignedTransaction where
  hash := 1
  txType := .legacy
  chainId := none
  nonce := 0
  gasLimit
  maxFeePerGas := fee
  maxPriorityFeePerGas := fee
  to_ := some target
  value := 7
  data := []
  sender := 0x01

/-- Whether a transaction got a receipt. -/
def receives (ended : Except ExecutionError TxExecutionReceipt × StateFork) : Bool := ended.1.isOk

/-- A transaction that passes the test has a receipt. -/
theorem receipt_of_receives
    (ended : endsWith (applySignedTransaction host fuel state tx) receives = true) :
    ∃ receipt after, applySignedTransaction host fuel state tx = .value (.ok receipt, after) := by
  obtain ⟨⟨answer, after⟩, applied, fine⟩ := exists_of_endsWith ended
  cases answer with
  | error error => cases fine
  | ok receipt => exact ⟨receipt, after, applied⟩

/-- A transaction that pays another account is charged exactly. -/
theorem upfront_cost_exact_payment :
    ∃ receipt after bumped result vm,
      applySignedTransaction (tableHost []) 3 payer (payment 1000 2 0x0b) =
        .value (.ok receipt, after) ∧
      run (tableHost []) 3 (transactionVm (chargeSender payer (payment 1000 2 0x0b) bumped)
        (payment 1000 2 0x0b)) = .value (result, vm) ∧
      (ExactCharge payer (payment 1000 2 0x0b) (chargeSender payer (payment 1000 2 0x0b) bumped)
          (leftState (chargeSender payer (payment 1000 2 0x0b) bumped) result vm) after
          (1000 - receipt.gasUsed) ↔
        7 + 1000 * 2 < 2 ^ 256 ∧ (result.isSuccess = true →
          (vm.state.getBalance 0x01).toNat + vm.gasLeft * 2 < 2 ^ 256)) := by
  have ended : endsWith (applySignedTransaction (tableHost []) 3 payer (payment 1000 2 0x0b))
      receives = true := by
    decide +kernel
  obtain ⟨receipt, after, applied⟩ := receipt_of_receives ended
  obtain ⟨bumped, result, vm, ran, exact_⟩ := upfront_cost_exact_iff (tableHost []) 3 payer
    (payment 1000 2 0x0b) receipt after applied
  exact ⟨receipt, after, bumped, result, vm, applied, ran, exact_⟩

/-- A payment whose gas costs nothing, once the price of it has wrapped. -/
def wrappingPayment : SignedTransaction := payment 0x10000 (BitVec.ofNat 256 (2 ^ 240)) 0x0b

/-- A price that wraps to nothing is paid by an account that could never afford it. -/
theorem wrapped_cost_is_accepted :
    (∃ receipt after,
      applySignedTransaction (tableHost []) 3 payer wrappingPayment =
        .value (.ok receipt, after)) ∧
    ¬ wrappingPayment.value.toNat + wrappingPayment.gasCost ≤ (payer.getBalance 0x01).toNat := by
  have ended : endsWith (applySignedTransaction (tableHost []) 3 payer wrappingPayment)
      receives = true := by
    decide +kernel
  -- Over the unbounded numbers the price is 2^256, far beyond the balance.
  refine ⟨receipt_of_receives ended, ?_⟩
  decide +kernel

end Exactness

section Failures

/-- The account of a sender who has paid for some gas and one nonce. -/
def paidAccount (state : StateFork) (tx : SignedTransaction) (gasUsed : Nat) : AccountState :=
  { state.getAccount tx.sender with
    nonce := (state.getAccount tx.sender).nonce + 1
    balance := state.getBalance tx.sender - BitVec.ofNat 256 gasUsed * tx.maxFeePerGas }

/-- A failed transaction costs its gas and nothing else. -/
structure CostsOnlyGas (state : StateFork) (tx : SignedTransaction) (receipt : TxExecutionReceipt)
    (after : StateFork) : Prop where
  state : after = { state with
    dirtyState := state.dirtyState.insert tx.sender (paidAccount state tx receipt.gasUsed) }
  gas : receipt.gasUsed ≤ tx.gasLimit
  logs : receipt.logs = []

/-- What is deducted and what is refunded leave the price of the gas that was used. -/
theorem deducted_refunded (balance fee : Word) {gasLimit gasLeft : Nat} (le : gasLeft ≤ gasLimit) :
    balance - BitVec.ofNat 256 gasLimit * fee + BitVec.ofNat 256 gasLeft * fee =
      balance - BitVec.ofNat 256 (gasLimit - gasLeft) * fee := by
  -- The limit is what was used and what is left of it.
  have split : BitVec.ofNat 256 gasLimit =
      BitVec.ofNat 256 (gasLimit - gasLeft) + BitVec.ofNat 256 gasLeft := by
    rw [← BitVec.ofNat_add, Nat.sub_add_cancel le]
  rw [split, BitVec.add_mul]
  generalize BitVec.ofNat 256 (gasLimit - gasLeft) * fee = used
  generalize BitVec.ofNat 256 gasLeft * fee = unused
  bv_omega

/-- Two writes to one account are one write. -/
theorem accountForWrite_twice (fork : StateFork) (address : Address)
    (first second : AccountState → AccountState) :
    (fork.accountForWrite address first).accountForWrite address second =
      fork.accountForWrite address (second ∘ first) := by
  unfold StateFork.accountForWrite
  simp only [AList.lookup_insert, AList.insert_insert]
  rfl

/-- A failed transaction writes its sender's account only. -/
theorem settledState_of_failure {bumped : Nat} (failed : result.isSuccess = false)
    (ran : run host fuel (transactionVm (chargeSender state tx bumped) tx) = .value (result, vm)) :
    settledState (chargeSender state tx bumped) tx result vm = { state with
      dirtyState := state.dirtyState.insert tx.sender
        { state.getAccount tx.sender with
          nonce := bumped
          balance := state.getBalance tx.sender -
            BitVec.ofNat 256 (tx.gasLimit - vm.gasLeft) * tx.maxFeePerGas } } := by
  simp only [settledState, failed, Bool.false_eq_true, if_false, unusedGas_of_run ran,
    getBalance_chargeSender]
  rw [SignedTransaction.maxGasCost, deducted_refunded _ _ (gasLeft_of_run ran)]
  -- The balance, the nonce and the balance again go to one account.
  unfold chargeSender StateFork.setNonce StateFork.setBalance
  rw [accountForWrite_twice, accountForWrite_twice]
  rfl

/--
When a failed transaction costs exactly its gas.

A transaction that is turned down changes nothing.
One that failed in its frame cost the sender one nonce and the price of the gas that was used, and
nobody anything else, exactly when the sender's nonce was not the last one of its range.
-/
theorem failed_transaction_costs_gas_iff (host : Host) (fuel : Nat) (state : StateFork)
    (tx : SignedTransaction) (answer : Except ExecutionError TxExecutionReceipt)
    (after : StateFork)
    (applied : applySignedTransaction host fuel state tx = .value (answer, after)) :
    (∀ error, answer = .error error → after = state) ∧
      ∀ receipt, answer = .ok receipt → receipt.status = 0 →
        (CostsOnlyGas state tx receipt after ↔ (state.getAccount tx.sender).nonce < u64Max) := by
  rcases applySignedTransaction_cases applied with ⟨error, _, rfl, rfl⟩ |
    ⟨accepted, bumped, result, vm, bumps, ran, rfl, rfl⟩
  · refine ⟨fun _ _ => rfl, fun receipt never => ?_⟩
    cases never
  · refine ⟨fun error never => (by cases never), fun receipt answered status => ?_⟩
    obtain rfl := Except.ok.inj answered
    have failed : result.isSuccess = false := by
      cases succeeded : result.isSuccess with
      | false => rfl
      | true => simp [receiptOf, succeeded] at status
    have settled := settledState_of_failure failed ran
    have nonce := nonce_of_accepted accepted
    -- The account that was written differs from the one paid for in the nonce at most.
    have writes : CostsOnlyGas state tx (receiptOf tx result vm)
        (settledState (chargeSender state tx bumped) tx result vm) ↔
          bumped = (state.getAccount tx.sender).nonce + 1 := by
      rw [settled]
      constructor
      · intro costs
        have accounts := congrArg (fun fork => (fork.getAccount tx.sender).nonce) costs.state
        simpa [StateFork.getAccount, paidAccount] using accounts
      · rintro rfl
        exact ⟨rfl, Nat.sub_le _ _, by simp [receiptOf, failed]⟩
    rw [writes]
    -- At the end of its range the nonce starts over, or the process is gone.
    unfold bumpNonce at bumps
    rw [nonce] at bumps
    split at bumps
    · rename_i inside
      cases bumps
      exact ⟨fun _ => inside, fun _ => rfl⟩
    · rename_i outside
      split at bumps
      · cases bumps
      · cases bumps
        unfold u64Max at outside ⊢
        omega

/-- Whether a transaction got a receipt for a failure, and left a nonce to its sender. -/
def failsAt (sender : Address) (nonce : Nat)
    (ended : Except ExecutionError TxExecutionReceipt × StateFork) : Bool :=
  match ended.1 with
  | .ok receipt => receipt.status = 0 && (ended.2.getAccount sender).nonce = nonce
  | .error _ => false

/-- A transaction that fails has a receipt, with the nonce raised. -/
theorem receipt_of_failsAt {sender : Address} {nonce : Nat}
    (ended : endsWith (applySignedTransaction host fuel state tx) (failsAt sender nonce) = true) :
    ∃ receipt after, applySignedTransaction host fuel state tx = .value (.ok receipt, after) ∧
      receipt.status = 0 ∧ (after.getAccount sender).nonce = nonce := by
  obtain ⟨⟨answer, after⟩, applied, fails⟩ := exists_of_endsWith ended
  cases answer with
  | error error => cases fails
  | ok receipt =>
    simp only [failsAt, Bool.and_eq_true, decide_eq_true_eq] at fails
    exact ⟨receipt, after, applied, fails.1, fails.2⟩

/-- A transaction that fails pays for the gas that it used. -/
theorem failed_transaction_costs_gas_payment :
    ∃ receipt after,
      applySignedTransaction (tableHost []) 3 payer (payment 1000 2 0x0a) =
        .value (.ok receipt, after) ∧ receipt.status = 0 ∧
      (CostsOnlyGas payer (payment 1000 2 0x0a) receipt after ↔ 0 < u64Max) := by
  have ended : endsWith (applySignedTransaction (tableHost []) 3 payer (payment 1000 2 0x0a))
      (failsAt 0x01 1) = true := by
    decide +kernel
  obtain ⟨receipt, after, applied, failed, _⟩ := receipt_of_failsAt ended
  exact ⟨receipt, after, applied, failed, (failed_transaction_costs_gas_iff (tableHost []) 3 payer
    (payment 1000 2 0x0a) (.ok receipt) after applied).2 receipt rfl failed⟩

/-- The same account at the last nonce of its range. -/
def lastPayer : StateFork :=
  { payer with baseState := payer.baseState.insert 0x01 { balance := 5000, nonce := u64Max } }

/-- Without overflow checks the last nonce is followed by the first one. -/
theorem last_nonce_starts_over :
    ∃ receipt after,
      applySignedTransaction { tableHost [] with overflowChecks := false } 3 lastPayer
        { payment 1000 2 0x0a with nonce := u64Max } = .value (.ok receipt, after) ∧
      receipt.status = 0 ∧ (after.getAccount 0x01).nonce = 0 ∧
      ¬ CostsOnlyGas lastPayer { payment 1000 2 0x0a with nonce := u64Max } receipt after := by
  have ended : endsWith (applySignedTransaction { tableHost [] with overflowChecks := false } 3
      lastPayer { payment 1000 2 0x0a with nonce := u64Max }) (failsAt 0x01 0) = true := by
    decide +kernel
  obtain ⟨receipt, after, applied, failed, nonce⟩ := receipt_of_failsAt ended
  refine ⟨receipt, after, applied, failed, nonce, fun costs => ?_⟩
  -- The account that was paid for would have a higher nonce.
  have accounts := congrArg (fun fork => (fork.getAccount 0x01).nonce) costs.state
  simp only [nonce] at accounts
  simp [StateFork.getAccount, paidAccount, payment] at accounts

end Failures

end MiniEvm
