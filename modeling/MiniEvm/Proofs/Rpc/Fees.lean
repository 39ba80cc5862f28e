import MiniEvm.Proofs.Rpc.Journal
import MiniEvm.Proofs.Vm.Charges
import MiniEvm.Proofs.Vm.Deployments
import MiniEvm.Proofs.Vm.Ether

/-! The ether on the chain: what executed transactions pay by their receipts is burnt. -/

namespace MiniEvm

open Frames RpcState

section Payments

variable {host : Host} {fuel : Nat} {state after : StateFork} {tx : SignedTransaction}

/-- The price of a transaction fits a word, and its creations go by the right balances. -/
structure PaysInFull (host : Host) (state : StateFork) (tx : SignedTransaction) : Prop where
  range : tx.value.toNat + tx.gasCost < 2 ^ 256
  sound : ∀ vm, executedFrame host state tx = some vm → ∀ visited reached,
    (machine host).Reaches (syncLegacyStateIntoFork vm) visited reached →
      CreationsSound host reached

/-- The upfront deduction takes the price of all the gas. -/
theorem totalBalance_deducted (accepted : rejection state tx = none)
    (range : tx.value.toNat + tx.gasCost < 2 ^ 256) :
    (state.setBalance tx.sender (state.getBalance tx.sender - tx.maxGasCost)).totalBalance +
      tx.gasCost = state.totalBalance := by
  -- The price fits the balance, so that the subtraction does not wrap.
  have deducted := (exact_of_range accepted range 0).2
  rw [getBalance_chargeSender] at deducted
  have written := StateFork.totalBalance_setBalance state tx.sender
    (state.getBalance tx.sender - tx.maxGasCost)
  omega

/-- So does charging, as the nonce is no part of the sum. -/
theorem totalBalance_chargeSender (accepted : rejection state tx = none)
    (range : tx.value.toNat + tx.gasCost < 2 ^ 256) (bumped : Nat) :
    (chargeSender state tx bumped).totalBalance + tx.gasCost = state.totalBalance := by
  have unbumped : (chargeSender state tx bumped).totalBalance =
      (state.setBalance tx.sender (state.getBalance tx.sender - tx.maxGasCost)).totalBalance :=
    StateFork.totalBalance_congr fun account => StateFork.getBalance_setNonce _ _ _ _
  rw [unbumped]
  exact totalBalance_deducted accepted range

/-- An abort keeps the price of all the gas, whether or not the nonce was raised. -/
theorem totalBalance_abortedState (host : Host) (accepted : rejection state tx = none)
    (range : tx.value.toNat + tx.gasCost < 2 ^ 256) :
    (abortedState host state tx).totalBalance + tx.gasCost = state.totalBalance := by
  -- The nonce makes no difference to a sum of balances.
  rcases abortedState_cases host state tx with ⟨bumped, _, same⟩ | ⟨_, _, same⟩
  · rw [same]
    exact totalBalance_chargeSender accepted range bumped
  · rw [same]
    exact totalBalance_deducted accepted range

/-- Settling gives back the price of the gas that is left, which the sum has room for. -/
theorem totalBalance_settledState {charged : StateFork} {result : ExecutionResult} {vm : Evm}
    (ran : run host fuel (transactionVm charged tx) = .value (result, vm))
    (room : (leftState charged result vm).totalBalance +
      vm.gasLeft * tx.maxFeePerGas.toNat < 2 ^ 256) :
    (settledState charged tx result vm).totalBalance =
      (leftState charged result vm).totalBalance + vm.gasLeft * tx.maxFeePerGas.toNat := by
  -- The sender holds a part of the sum, so that a refund within the sum does not wrap.
  have held := StateFork.getBalance_le_totalBalance (leftState charged result vm) tx.sender
  have refunded := getBalance_settledState ran
  rw [Nat.mod_eq_of_lt (by omega)] at refunded
  have written := StateFork.totalBalance_setBalance (leftState charged result vm) tx.sender
    ((settledState charged tx result vm).getBalance tx.sender)
  have same : (settledState charged tx result vm).totalBalance =
      ((leftState charged result vm).setBalance tx.sender
        ((settledState charged tx result vm).getBalance tx.sender)).totalBalance := by
    simp only [settledState, StateFork.getBalance_setBalance, if_true]
    rfl
  rw [same]
  omega

/-- A transaction costs the sum its fee and what its self-destructions burned. -/
theorem totalBalance_applied {receipt : TxExecutionReceipt} (indexed : state.SnapshotsIndexed)
    (bounded : state.totalBalance < 2 ^ 256) (pays : PaysInFull host state tx)
    (applied : applySignedTransaction host fuel state tx = .value (.ok receipt, after)) :
    after.totalBalance + receipt.gasUsed * tx.maxFeePerGas.toNat +
      burned (transactionHistory host fuel state tx) = state.totalBalance := by
  rcases applySignedTransaction_cases applied with ⟨_, _, error, _⟩ |
    ⟨accepted, bumped, result, vm, bumps, ran, answer, rfl⟩
  · cases error
  · cases answer
    have executed := executedFrame_of_accepted accepted bumps
    have charged := totalBalance_chargeSender accepted pays.range bumped
    have limit := gasLeft_of_run ran
    -- The gas that is paid for is used or left.
    have price : tx.gasCost = (tx.gasLimit - vm.gasLeft) * tx.maxFeePerGas.toNat +
        vm.gasLeft * tx.maxFeePerGas.toNat := by
      rw [← Nat.add_mul, Nat.sub_add_cancel limit]
      rfl
    -- What a successful run leaves is the charged sum less what was burned.
    have left_ : (leftState (chargeSender state tx bumped) result vm).totalBalance +
        burned (transactionHistory host fuel state tx) =
          (chargeSender state tx bumped).totalBalance := by
      obtain ⟨history, last, traced, rfl⟩ := run_eq_value ran
      simp only [transactionHistory, executed, traced, leftState]
      split
      · have conserves := conserves_of_trace (indexed_of_executed indexed)
          (pays.sound _ executed) traced
        have small : (syncLegacyStateIntoFork (transactionVm (chargeSender state tx bumped)
            tx)).state.totalBalance < 2 ^ 256 := by
          show (chargeSender state tx bumped).totalBalance < 2 ^ 256
          omega
        exact conserves.total small
      · rfl
    rw [totalBalance_settledState ran (by omega)]
    show _ + (tx.gasLimit - vm.gasLeft) * tx.maxFeePerGas.toNat + _ = _
    omega

end Payments

section Runs

variable {host : Host} {iteration : NodeOrder} {fuel : Nat} {stateFree : Bool}
  {node node' : RpcState} {phase : Phase} {progress : Progress} {journal : Journal}
  {start : StateFork}

/-- A move whose transaction, should it execute one, pays in full. -/
def MovePays (host : Host) (node : RpcState) (_ : List Phase) : Phase → Prop
  | .executing _ (transaction :: _) => PaysInFull host node.state transaction.tx
  | _ => True

/-- A move in which no account destroys itself in its own favour. -/
def BurnsNothing (host : Host) (node : RpcState) (_ : List Phase) : Phase → Prop
  | .executing _ (transaction :: _) =>
    ∀ fuel, burned (transactionHistory host fuel node.state transaction.tx) = 0
  | _ => True

/-- What is on the chain and what was paid is what there was at the start, less what burned. -/
structure Solvent (start : StateFork) (burnt : Nat) (node : RpcState) (journal : Journal) :
    Prop where
  indexed : node.state.SnapshotsIndexed
  receipted : journal.executed.length = journal.receipts.length
  total : node.state.totalBalance + journal.fees + journal.forfeits + burnt = start.totalBalance

/-- One more receipt is one more fee. -/
theorem fees_append {entry : SignedTransaction × Bytes} {receipt : TxExecutionReceipt}
    (receipted : journal.executed.length = journal.receipts.length)
    (spent : List (SignedTransaction × Bytes)) :
    Journal.fees { journal with
      executed := journal.executed ++ [entry]
      receipts := journal.receipts ++ [receipt]
      spent } = journal.fees + receipt.gasUsed * entry.1.maxFeePerGas.toNat := by
  unfold Journal.fees
  -- Receipts and transactions are lists of one length.
  rw [List.zip_append receipted]
  simp

/-- One more abort is one more deposit. -/
theorem forfeits_append {entry : SignedTransaction × Bytes}
    (spent dropped : List (SignedTransaction × Bytes)) :
    Journal.forfeits { journal with aborted := journal.aborted ++ [entry], spent, dropped } =
      journal.forfeits + entry.1.gasCost := by
  unfold Journal.forfeits SignedTransaction.gasCost
  rw [List.map_append, List.sum_append, List.map_singleton, List.sum_singleton]

/-- Every move keeps the sum, up to what it burns. -/
theorem Solvent.advance {burnt : Nat} {others : List Phase}
    (solvent : Solvent start burnt node journal) (bounded : start.totalBalance < 2 ^ 256)
    (pays : MovePays host node others phase)
    (advanced : advance host iteration fuel stateFree node phase = some (node', progress)) :
    ∃ more, Solvent start (burnt + more) node' (journal.enter host fuel node phase) ∧
      (BurnsNothing host node others phase → more = 0) := by
  cases chainMove_of_advance journal advanced with
  | still state _ entered =>
    refine ⟨0, ⟨?_, ?_, ?_⟩, fun _ => rfl⟩
    · rw [state]
      exact solvent.indexed
    · rw [entered]
      exact solvent.receipted
    · rw [state, entered]
      exact solvent.total
  | @aborted reply transaction rest cause applied entered =>
    have total := solvent.total
    have paid := totalBalance_abortedState host (accepted_of_fault applied) pays.range
    refine ⟨0, ⟨indexed_abortedState solvent.indexed, ?_, ?_⟩, fun _ => rfl⟩
    · rw [entered]
      exact solvent.receipted
    · -- What was paid in advance is forfeited.
      rw [entered, forfeits_append]
      show (abortedState host node.state transaction.tx).totalBalance + journal.fees +
        (journal.forfeits + transaction.tx.gasCost) + _ = _
      omega
  | @executed reply transaction rest receipt state applied entered =>
    have total := solvent.total
    have paid := totalBalance_applied solvent.indexed (by omega) pays applied
    refine ⟨burned (transactionHistory host fuel node.state transaction.tx), ⟨?_, ?_, ?_⟩,
      fun nothing => nothing fuel⟩
    · exact (indexed_of_applied solvent.indexed applied).of_snapshots rfl
    · rw [entered]
      simp only [List.length_append, List.length_singleton, solvent.receipted]
    · rw [entered, fees_append solvent.receipted]
      show state.totalBalance + (journal.fees + receipt.gasUsed *
        transaction.tx.maxFeePerGas.toNat) + journal.forfeits + _ = _
      omega

section Checks

variable {tx : SignedTransaction} {visited : History Evm ExecutionResult} {reached vm : Evm}
  {state : StateFork}

end Checks

end Runs

end MiniEvm
