import MiniEvm.Vm.Interpreter

/-! Execution of one signed transaction on the chain state. -/

namespace MiniEvm

open Frames

/-- The envelope a transaction came in. -/
inductive TxType where
  | legacy
  | eip2930
  | eip1559
  deriving DecidableEq

/-- A decoded transaction with its recovered sender. -/
structure SignedTransaction where
  hash : Word
  txType : TxType
  chainId : Option Nat
  nonce : Nat
  gasLimit : Nat
  maxFeePerGas : Word
  maxPriorityFeePerGas : Word
  to_ : Option Address
  value : Word
  data : Bytes
  sender : Address
  deriving DecidableEq

structure TxExecutionReceipt where
  txHash : Word
  status : Nat
  gasUsed : Nat
  logs : List LogRecord

inductive ExecutionError where
  | nonceMismatch (expected got : Nat)
  | insufficientBalance
  deriving DecidableEq

/-- The most gas a transaction may cost, as a wrapping product. -/
def SignedTransaction.maxGasCost (tx : SignedTransaction) : Word :=
  BitVec.ofNat 256 tx.gasLimit * tx.maxFeePerGas

/-- The state after the upfront deduction and the nonce bump. -/
def chargeSender (state : StateFork) (tx : SignedTransaction) (bumped : Nat) : StateFork :=
  (state.setBalance tx.sender (state.getBalance tx.sender - tx.maxGasCost)).setNonce
    tx.sender bumped

/-- The frame a transaction runs; without a target it has no code and the zero address. -/
def transactionVm (state : StateFork) (tx : SignedTransaction) : Evm :=
  -- The value is named in the context but moved by nobody.
  { Evm.newWithGas ((tx.to_.map state.getCode).getD []) tx.gasLimit with
    state
    context := {
      caller := tx.sender
      address := tx.to_.getD 0
      value := toU128Saturating tx.value
      calldata := tx.data }
    storageAddress := tx.to_.getD 0 }

/-- The successor of a nonce, which aborts or wraps at the end of the range. -/
def bumpNonce (host : Host) (nonce : Nat) : Outcome Fault Nat :=
  if nonce + 1 ≤ u64Max then .value (nonce + 1)
  else if host.overflowChecks then .fault .arithmeticOverflow
  else .value ((nonce + 1) % 2 ^ 64)

/-- Applies a transaction and yields its receipt or an error, with the state it leaves. -/
def applySignedTransaction (host : Host) (fuel : Nat) (state : StateFork)
    (tx : SignedTransaction) :
    Outcome Fault (Except ExecutionError TxExecutionReceipt × StateFork) :=
  let currentNonce := (state.getAccount tx.sender).nonce
  if currentNonce ≠ tx.nonce then
    pure (.error (.nonceMismatch currentNonce tx.nonce), state)
  -- Both the product and the sum may wrap.
  else if state.getBalance tx.sender < tx.value + tx.maxGasCost then
    pure (.error .insufficientBalance, state)
  else do
    let bumped ← bumpNonce host currentNonce
    let state := chargeSender state tx bumped
    let (result, vm) ← run host fuel (transactionVm state tx)
    -- A failed run leaves the charged state, nonce bump included.
    let state := if result.isSuccess then vm.state else state
    -- The frame never has more gas left than it was given.
    let gasUsed := tx.gasLimit - vm.gasLeft
    let unusedGas := tx.gasLimit - gasUsed
    let refundAmount := BitVec.ofNat 256 unusedGas * tx.maxFeePerGas
    let state := state.setBalance tx.sender (state.getBalance tx.sender + refundAmount)
    return (.ok {
      txHash := tx.hash
      status := if result.isSuccess then 1 else 0
      gasUsed
      logs := if result.isSuccess then vm.logs else [] }, state)

/--
The state that a transaction leaves when its execution aborts.

The frame works on a copy, so what is left is the upfront deduction, with the nonce raised unless
raising it is what aborts.
-/
def abortedState (host : Host) (state : StateFork) (tx : SignedTransaction) : StateFork :=
  match bumpNonce host (state.getAccount tx.sender).nonce with
  | .value bumped => chargeSender state tx bumped
  | _ => state.setBalance tx.sender (state.getBalance tx.sender - tx.maxGasCost)

end MiniEvm
