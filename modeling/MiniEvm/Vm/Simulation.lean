import MiniEvm.Vm.Interpreter

/-! Speculative execution of one call on a copy of the state. -/

namespace MiniEvm

open Frames

/-- What a simulated call came to. -/
structure SimulationResult where
  success : Bool
  gasUsed : Nat
  returnData : Bytes
  stateDiff : HashMap Address AccountState
  logs : List LogRecord

/-- The frame a simulation runs, after the snapshot and before the value moves. -/
def simulationFrame (state : StateFork) (caller target : Address) (value : Word) (input : Bytes)
    (gasLimit : Nat) : Evm :=
  { Evm.newWithGas (state.getCode target) gasLimit with
    state := state.snapshot.2
    context := { caller, address := target, value := toU128Saturating value, calldata := input }
    storageAddress := target }

/-- The frame a simulation runs, with the value moved from the caller to the target. -/
def simulationVm (state : StateFork) (caller target : Address) (value : Word) (input : Bytes)
    (gasLimit : Nat) : Evm :=
  let vm := simulationFrame state caller target value input gasLimit
  -- The target's balance is read after the debit, so a call to oneself moves nothing.
  let debited := vm.state.setBalance caller (vm.state.getBalance caller - value)
  { vm with state := debited.setBalance target (debited.getBalance target + value) }

def simulateTx (host : Host) (fuel : Nat) (state : StateFork) (caller target : Address)
    (value : Word) (input : Bytes) (gasLimit : Nat) : Outcome Fault SimulationResult :=
  -- Too little balance is reported without running anything.
  if state.getBalance caller < value then
    pure { success := false, gasUsed := 0, returnData := [], stateDiff := ∅, logs := [] }
  else do
    let (result, vm) ← run host fuel (simulationVm state caller target value input gasLimit)
    let final := if result.isSuccess then vm.state
      else vm.state.revertToSnapshot state.snapshots.length
    return {
      success := result.isSuccess
      gasUsed := gasLimit - vm.gasLeft
      returnData := match result with
        | .return_ data => data
        | .revert data => data
        | _ => vm.returnData
      stateDiff := final.dirtyState
      logs := vm.logs }

/-- One account entered among the modified ones. -/
def insertDirty (fork : StateFork) (address : Address) (account : AccountState) : StateFork :=
  { fork with dirtyState := fork.dirtyState.insert address account }

/-- What a route does between two hops: every entry of a diff is entered, in some order. -/
def insertDiff (fork : StateFork) (entries : List (Sigma fun _ : Address => AccountState)) :
    StateFork :=
  entries.foldl (fun fork entry => insertDirty fork entry.1 entry.2) fork

end MiniEvm
