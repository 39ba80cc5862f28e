import MiniEvm.Bytes.Hex
import MiniEvm.Frames.Parallel
import MiniEvm.Vm.Interpreter

/-! Fuzzing: code is run on many generated inputs at once, until one of the runs goes wrong. -/

namespace MiniEvm

open Frames

def maxIterations : Nat := 10000000

def maxBytecode : Nat := 1 <<< 20

structure FuzzRequest where
  bytecodeHex : String
  iterations : Nat
  gasLimit : Nat := 3000000

structure FuzzReport where
  status : String
  iterationsExecuted : Nat
  violationFound : Bool
  payloadHex : Option String
  errorLog : Option String
  deriving DecidableEq

/-- The input of one iteration: a selector and two words made of one hash. -/
def mutate (host : Host) (iteration : Nat) : Bytes :=
  -- The number of the iteration is hashed with its lowest byte first.
  let hash := toBeBytes (host.keccak256 (beBytes 8 iteration).reverse)
  hash.take 4 ++ slice hash 4 32 ++ hash.take 28

/-- The code of a request, unless the request is refused. -/
def FuzzRequest.bytecode (request : FuzzRequest) : Except String Bytes :=
  if request.iterations > maxIterations ∨ request.gasLimit = 0 then .error "invalid fuzz limits"
  else do
    let bytecode ← (Hex.decode ((Hex.stripPrefix "0x" request.bytecodeHex).getD
      request.bytecodeHex)).mapError Hex.FromHexError.text
    -- Limits come first, digits second, and the size of the code last.
    if bytecode.length > maxBytecode then throw "bytecode exceeds 1 MiB"
    return bytecode

/-- The frame of one iteration. -/
def fuzzVm (bytecode : Bytes) (gasLimit : Nat) (baseState : StateFork) (payload : Bytes) : Evm :=
  { Evm.newWithGas bytecode gasLimit with
    state := baseState
    -- The caller and the value are those of an empty context.
    context := { address := 0x4242424242424242424242424242424242424242, calldata := payload } }

def VmError.debug : VmError → String
  | .overflow => "Overflow"
  | .outOfBoundsReturnData => "OutOfBoundsReturnData"
  | .staticCallViolation => "StaticCallViolation"
  | .outOfGas => "OutOfGas"
  | .invalidPrecompile => "InvalidPrecompile"

/-- What is logged of a result that counts as going wrong. -/
def ExecutionResult.violation : ExecutionResult → Option String
  -- No message has a character that would have to be escaped.
  | .error message => some ("execution failure: Error(\"" ++ message ++ "\")")
  | .vmError kind => some ("execution failure: VmError(" ++ kind.debug ++ ")")
  | _ => none

/-- One iteration, with its payload and the error if it went wrong. -/
def FuzzRequest.examine (host : Host) (fuel : Nat) (request : FuzzRequest) (baseState : StateFork)
    (bytecode : Bytes) (iteration : Nat) : Outcome Fault (Option (Nat × Bytes × String)) := do
  let payload := mutate host iteration
  let (result, _) ← run host fuel (fuzzVm bytecode request.gasLimit baseState payload)
  return result.violation.map fun error => (iteration, payload, error)

def FuzzRequest.report (request : FuzzRequest) : Option (Nat × Bytes × String) → FuzzReport
  | some (iteration, payload, error) => {
    status := "INVARIANT_BREACH"
    iterationsExecuted := iteration + 1
    violationFound := true
    payloadHex := some (Hex.encode payload)
    errorLog := some error }
  | none => {
    status := "CLEAN"
    iterationsExecuted := request.iterations
    violationFound := false
    payloadHex := none
    errorLog := none }

/-- What a request may come to, depending on how its threads are scheduled. -/
inductive FuzzRequest.Runs (host : Host) (fuel : Nat) (request : FuzzRequest)
    (baseState : StateFork) : Outcome Fault (Except String FuzzReport) → Prop
  | refused {message : String} (refused : request.bytecode = .error message) :
    Runs host fuel request baseState (.value (.error message))
  | searched {bytecode : Bytes} {first : Outcome Fault (Option (Nat × Bytes × String))}
    (accepted : request.bytecode = .ok bytecode)
    (search : FindsAny (request.examine host fuel baseState bytecode)
      (List.range request.iterations) first) :
    Runs host fuel request baseState (first >>= fun found => pure (.ok (request.report found)))

end MiniEvm
