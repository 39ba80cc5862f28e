import MiniEvm.Vm.Simulation

/-! Gas estimation: the intrinsic cost of a transaction, and a search over simulated calls. -/

namespace MiniEvm

open Frames

/-- What a transaction costs before it runs anything: a base and a price for each byte of input. -/
def calculateIntrinsicGas (input : Bytes) (isContractCreation : Bool) : Nat :=
  input.foldl (fun gas byte => saturatingAdd gas (if byte = 0 then 4 else 16))
    (if isContractCreation then 53000 else 21000)

/-- A call as a client asks for it, with every field optional. -/
structure CallRequest where
  from_ : Option Address := none
  to_ : Option Address := none
  gas : Option Word := none
  gasPrice : Option Word := none
  value : Option Word := none
  data : Option Bytes := none

/-- An error as a client receives it. -/
structure JsonRpcError where
  code : Int
  message : String
  deriving DecidableEq

def estimationError (message : String) : JsonRpcError where
  code := -32000
  message := message

/-- The gas that is left for execution once the intrinsic cost is paid. -/
def executionGas (intrinsic totalGas : Nat) : Nat := totalGas - intrinsic

/-- Narrows the range down to the last limit that was seen to work, halving it in each round. -/
def estimateTransactionGas.search (succeeds : Nat → Outcome Fault Bool) :
    (rounds low high : Nat) → Outcome Fault Nat
  | 0, _, high => pure high
  | rounds + 1, low, high =>
    if low < high then do
      -- The middle is rounded down, and so stays below the upper end.
      let mid := low + (high - low) / 2
      if ← succeeds mid then search succeeds rounds low mid
      else search succeeds rounds (saturatingAdd mid 1) high
    else pure high

/-- The gas limit to suggest for a call, or the reason why there is none. -/
def estimateTransactionGas (host : Host) (fuel : Nat) (state : StateFork) (request : CallRequest)
    (blockGasLimit : Nat) : Outcome Fault (Except JsonRpcError Nat) :=
  let input := request.data.getD []
  let intrinsic := calculateIntrinsicGas input request.to_.isNone
  let limit := match request.gas with
    | some gas => toU64 gas
    | none => some blockGasLimit
  match limit with
  | none => pure (.error (estimationError "gas exceeds u64"))
  | some high =>
    if high < intrinsic then pure (.error (estimationError "intrinsic gas exceeds gas limit"))
    else match request.to_ with
      | none => pure (.error (estimationError "eth_estimateGas requires a to address"))
      | some target => do
        let succeeds := fun totalGas => do
          let result ← simulateTx host fuel state (request.from_.getD 0) target
            (request.value.getD 0) input (executionGas intrinsic totalGas)
          return result.success
        -- The limit is tried first, so that the upper end always works.
        if ← succeeds high then do
          -- Every round makes the range smaller, so its size bounds the rounds.
          let gas ← estimateTransactionGas.search succeeds (high - intrinsic) intrinsic high
          return .ok gas
        else return .error (estimationError "execution reverted during gas estimation")

end MiniEvm
