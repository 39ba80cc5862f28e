import MiniEvm.Proofs.Vm.Runs
import MiniEvm.Vm.Runner

/-! A transaction in its parts: the checks, the run of its frame, and the settlement. -/

namespace MiniEvm

open Frames

variable {host : Host} {fuel : Nat} {state : StateFork} {tx : SignedTransaction}

/-- The error with which a transaction is turned down before anything happens. -/
def rejection (state : StateFork) (tx : SignedTransaction) : Option ExecutionError :=
  let currentNonce := (state.getAccount tx.sender).nonce
  if currentNonce ≠ tx.nonce then some (.nonceMismatch currentNonce tx.nonce)
  else if state.getBalance tx.sender < tx.value + tx.maxGasCost then some .insufficientBalance
  else none

/-- The receipt of a transaction whose frame has ended. -/
def receiptOf (tx : SignedTransaction) (result : ExecutionResult) (vm : Evm) :
    TxExecutionReceipt where
  txHash := tx.hash
  status := if result.isSuccess then 1 else 0
  gasUsed := tx.gasLimit - vm.gasLeft
  logs := if result.isSuccess then vm.logs else []

/-- The state a transaction leaves: that of its frame if it succeeded, with the gas refunded. -/
def settledState (charged : StateFork) (tx : SignedTransaction) (result : ExecutionResult)
    (vm : Evm) : StateFork :=
  let state := if result.isSuccess then vm.state else charged
  let unusedGas := tx.gasLimit - (tx.gasLimit - vm.gasLeft)
  state.setBalance tx.sender
    (state.getBalance tx.sender + BitVec.ofNat 256 unusedGas * tx.maxFeePerGas)

/-- A transaction that is not turned down has the nonce of its sender. -/
theorem nonce_of_accepted (accepted : rejection state tx = none) :
    tx.nonce = (state.getAccount tx.sender).nonce := by
  by_contra mismatch
  simp only [rejection, if_pos (Ne.symm mismatch)] at accepted
  cases accepted

/-- A transaction that is turned down leaves the state as it is. -/
theorem applySignedTransaction_of_rejection {error : ExecutionError}
    (rejected : rejection state tx = some error) :
    applySignedTransaction host fuel state tx = .value (.error error, state) := by
  simp only [rejection] at rejected
  simp only [applySignedTransaction]
  -- The two checks come in the same order.
  split at rejected
  · rename_i mismatch
    obtain rfl := Option.some.inj rejected
    exact if_pos mismatch
  · rename_i matches_
    split at rejected
    · rename_i poor
      obtain rfl := Option.some.inj rejected
      rw [if_neg matches_, if_pos poor]
      rfl
    · cases rejected

/-- A transaction that passes both checks is charged, run and settled. -/
theorem applySignedTransaction_of_accepted (accepted : rejection state tx = none) :
    applySignedTransaction host fuel state tx = (do
      let bumped ← bumpNonce host tx.nonce
      let charged := chargeSender state tx bumped
      let (result, vm) ← run host fuel (transactionVm charged tx)
      return (.ok (receiptOf tx result vm), settledState charged tx result vm)) := by
  simp only [rejection] at accepted
  simp only [applySignedTransaction]
  split at accepted
  · cases accepted
  · rename_i matches_
    split at accepted
    · cases accepted
    · rename_i funded
      -- From here on the expected nonce is the one in the state.
      have nonce : tx.nonce = (state.getAccount tx.sender).nonce :=
        (Decidable.of_not_not matches_).symm
      rw [if_neg matches_, if_neg funded, nonce]
      rfl

/-- Everything a finished transaction can have come to. -/
theorem applySignedTransaction_cases {answer : Except ExecutionError TxExecutionReceipt}
    {after : StateFork} (applied : applySignedTransaction host fuel state tx =
      .value (answer, after)) :
    (∃ error, rejection state tx = some error ∧ answer = .error error ∧ after = state) ∨
      (rejection state tx = none ∧ ∃ bumped result vm, bumpNonce host tx.nonce = .value bumped ∧
        run host fuel (transactionVm (chargeSender state tx bumped) tx) = .value (result, vm) ∧
        answer = .ok (receiptOf tx result vm) ∧
        after = settledState (chargeSender state tx bumped) tx result vm) := by
  cases checked : rejection state tx with
  | some error =>
    rw [applySignedTransaction_of_rejection checked] at applied
    cases applied
    exact .inl ⟨error, rfl, rfl, rfl⟩
  | none =>
    -- Each part that finished is taken off the front.
    rw [applySignedTransaction_of_accepted checked] at applied
    obtain ⟨bumped, bumps, rest⟩ := Outcome.bind_eq_value applied
    obtain ⟨⟨result, vm⟩, ran, rest⟩ := Outcome.bind_eq_value rest
    simp only [Outcome.pure_eq, Outcome.value.injEq, Prod.mk.injEq] at rest
    exact .inr ⟨rfl, bumped, result, vm, bumps, ran, rest.1.symm, rest.2.symm⟩

/-- Only a transaction that passes both checks can abort. -/
theorem accepted_of_fault {cause : Fault}
    (aborted : applySignedTransaction host fuel state tx = .fault cause) :
    rejection state tx = none := by
  cases checked : rejection state tx with
  | none => rfl
  | some error =>
    rw [applySignedTransaction_of_rejection checked] at aborted
    cases aborted

/-- Raising a nonce comes to a value, or it aborts. -/
theorem bumpNonce_cases (host : Host) (nonce : Nat) :
    (∃ bumped, bumpNonce host nonce = .value bumped) ∨
      ∃ cause, bumpNonce host nonce = .fault cause := by
  unfold bumpNonce
  split
  · exact .inl ⟨_, rfl⟩
  · split
    · exact .inr ⟨_, rfl⟩
    · exact .inl ⟨_, rfl⟩

/-- An aborting transaction leaves its sender charged, with the nonce raised or not. -/
theorem abortedState_cases (host : Host) (state : StateFork) (tx : SignedTransaction) :
    (∃ bumped, bumpNonce host (state.getAccount tx.sender).nonce = .value bumped ∧
      abortedState host state tx = chargeSender state tx bumped) ∨
    ∃ cause, bumpNonce host (state.getAccount tx.sender).nonce = .fault cause ∧
      abortedState host state tx =
        state.setBalance tx.sender (state.getBalance tx.sender - tx.maxGasCost) := by
  unfold abortedState
  rcases bumpNonce_cases host (state.getAccount tx.sender).nonce with
    ⟨bumped, bumps⟩ | ⟨cause, aborts⟩
  · exact .inl ⟨bumped, bumps, by rw [bumps]⟩
  · exact .inr ⟨cause, aborts, by rw [aborts]⟩

/-- The frame that a transaction runs, if it gets that far. -/
def executedFrame (host : Host) (state : StateFork) (tx : SignedTransaction) : Option Evm :=
  match rejection state tx, bumpNonce host tx.nonce with
  | none, .value bumped => some (transactionVm (chargeSender state tx bumped) tx)
  -- Turned down, or aborted at the nonce.
  | _, _ => none

/-- It is always the frame of the charged state. -/
theorem executedFrame_eq_some {vm : Evm} (executed : executedFrame host state tx = some vm) :
    ∃ bumped, vm = transactionVm (chargeSender state tx bumped) tx := by
  unfold executedFrame at executed
  split at executed
  · exact ⟨_, (Option.some.inj executed).symm⟩
  · cases executed

/-- A transaction that passes both checks and is charged runs its frame. -/
theorem executedFrame_of_accepted {bumped : Nat} (accepted : rejection state tx = none)
    (bumps : bumpNonce host tx.nonce = .value bumped) :
    executedFrame host state tx = some (transactionVm (chargeSender state tx bumped) tx) := by
  simp only [executedFrame, accepted, bumps]

end MiniEvm
