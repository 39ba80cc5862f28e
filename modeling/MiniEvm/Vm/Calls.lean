import MiniEvm.Vm.Precompiles
import MiniEvm.Vm.Storage

/-! Handlers that open child frames or remove accounts: calls, creations, and self-destruction. -/

namespace MiniEvm

open EvmM Frames.Program

/-- A frame's result counts as a success when it halted or returned. -/
def ExecutionResult.isSuccess : ExecutionResult → Bool
  | halt => true
  | return_ _ => true
  | _ => false

/-- The message a call sends. -/
structure CallFrame where
  gasLimit : Nat
  target : Address
  isStatic : Bool
  value : Word
  input : Bytes

/-- The identities a called frame runs under. -/
structure CallContext where
  caller : Address
  codeAddress : Address
  storageAddress : Address
  value : Word
  isStatic : Bool

/-- The base cost of a call, which also marks its target as accessed. -/
def calcCallBaseGas (target : Address) (value : Word)
    (argsOffset argsSize retOffset retSize : Nat) : EvmM Nat := do
  let evm ← get
  let memoryCost ← orVmError
    (memoryExpansionCost evm.memory.length [(argsOffset, argsSize), (retOffset, retSize)])
  markAccessed target
  -- Whether the target is new is decided by the old contract map, not by the fork.
  let valueCost :=
    if value > 0 then 9000 + if target ∈ evm.contracts then 0 else 25000 else 0
  match checkedAdd (700 + accessCost evm target + valueCost) memoryCost with
  | some cost => pure cost
  | none => exit (.vmError .overflow)

def calcStaticCallBaseGas (target : Address)
    (argsOffset argsSize retOffset retSize : Nat) : EvmM Nat := do
  let normal ← calcCallBaseGas target 0 argsOffset argsSize retOffset retSize
  -- What is left of the base is forty, beside the access and the memory.
  if 660 ≤ normal then pure (normal - 660) else exit (.vmError .overflow)

/-- The value operand, which only a plain call has. -/
def popCallValue (forceStatic delegate : Bool) : EvmM Word :=
  if forceStatic || delegate then pure 0 else pop (.error "Stack Underflow on CALL")

/-- The base cost by the kind of call. -/
def callBaseGas (forceStatic : Bool) (target : Address) (value : Word)
    (argsOffset argsSize retOffset retSize : Nat) : EvmM Nat :=
  if forceStatic then calcStaticCallBaseGas target argsOffset argsSize retOffset retSize
  else calcCallBaseGas target value argsOffset argsSize retOffset retSize

/-- What a call has settled before it runs anything: its message and its return window. -/
structure CallSetup where
  frame : CallFrame
  retOffset : Nat
  retSize : Nat

/-- The first part of a call: operands, base cost, memory, input, and the gas handed over. -/
def prepareCall (forceStatic delegate : Bool) : EvmM CallSetup := do
  let underflow := ExecutionResult.error "Stack Underflow on CALL"
  let gasWord ← pop underflow
  let addressWord ← pop underflow
  let value ← popCallValue forceStatic delegate
  let argsOffsetWord ← pop underflow
  let argsSizeWord ← pop underflow
  let retOffsetWord ← pop underflow
  let retSizeWord ← pop underflow
  let argsOffset ← toUsize argsOffsetWord
  let argsSize ← toUsize argsSizeWord
  let retOffset ← toUsize retOffsetWord
  let retSize ← toUsize retSizeWord
  let target := accountAddress addressWord
  let baseGas ← callBaseGas forceStatic target value argsOffset argsSize retOffset retSize
  charge baseGas
  expandMemoryWithoutCharge [(argsOffset, argsSize), (retOffset, retSize)]
  let input ← readMemory argsOffset (argsOffset + argsSize)
  let evm ← get
  -- The gas is handed over before anything is known about the target.
  let callGas := calcEip150CallGas evm.gasLeft gasWord
  modify fun evm => { evm with gasLeft := evm.gasLeft - callGas }
  return {
    frame := {
      gasLimit := callGas
      target
      -- A frame that may not write can only open frames that may not either.
      isStatic := evm.isStatic || forceStatic
      value
      input }
    retOffset
    retSize }

/-- Zeroes the return window and copies what fits of the output into it. -/
def writeOutput (retOffset retSize : Nat) (output : Bytes) : EvmM Unit := do
  writeMemory retOffset (List.replicate retSize 0)
  writeMemory retOffset (output.take (min output.length retSize))

/-- A call to a precompiled contract, whose errors end the calling frame. -/
def callPrecompile (host : Host) (setup : CallSetup) : EvmM Unit := do
  let callGas := setup.frame.gasLimit
  match executePrecompile host setup.frame.target setup.frame.input callGas with
  -- The gas that was set aside is lost with the frame.
  | .error .outOfGas => exit .outOfGas
  | .error error => exit (.vmError error)
  | .ok (gasUsed, output) => do
    modify fun evm => { evm with
      gasLeft := saturatingAdd evm.gasLeft (callGas - gasUsed)
      returnData := output }
    writeOutput setup.retOffset setup.retSize output
    push 1 (.error "Stack Overflow on CALL")

/-- The identities of the frame a call opens. -/
def callContext (evm : Evm) (delegate : Bool) (frame : CallFrame) : CallContext where
  -- A call names the account of the running code, which a delegated frame does not act as.
  caller := if delegate then evm.context.caller else evm.context.address
  codeAddress := frame.target
  storageAddress := if delegate then evm.selfAddress else frame.target
  value := if delegate then evm.context.value.setWidth 256 else frame.value
  isStatic := frame.isStatic

/-- The frame with a snapshot taken of its fork, and the id of that snapshot. -/
def Evm.takeSnapshot (evm : Evm) : Nat × Evm :=
  let (snapshot, state) := evm.state.snapshot
  (snapshot, { evm with state })

/-- The frame a call opens, on a copy of the caller's fork. -/
def callChild (evm : Evm) (delegate : Bool) (frame : CallFrame) : Evm :=
  let context := callContext evm delegate frame
  -- Balances and nonces start empty, unlike in the frame of a creation.
  { Evm.newWithGas (evm.state.getCode frame.target) frame.gasLimit with
    env := evm.env
    context := {
      caller := context.caller
      address := frame.target
      value := toU128Saturating context.value
      calldata := frame.input }
    storageAddress := context.storageAddress
    transientStorageAddress := some context.storageAddress
    state := evm.state
    -- The one storage map has no owner, and is handed on as it is.
    storage := evm.storage
    contracts := evm.contracts
    createdInTransaction := evm.createdInTransaction
    isStatic := frame.isStatic }

/-- What a finished frame hands back as output. -/
def ExecutionResult.output : ExecutionResult → Bytes
  | return_ data => data
  | revert data => data
  | _ => []

/-- The caller after its callee has finished: gas and output, and the callee's state or a revert. -/
def mergeCall (evm : Evm) (snapshot : Nat) (result : ExecutionResult) (child : Evm) : Evm :=
  let evm := { evm with
    gasLeft := saturatingAdd evm.gasLeft child.gasLeft
    returnData := result.output }
  -- The contract map of the callee is not taken over.
  if result.isSuccess then
    { evm with
      state := child.state
      storage := child.storage
      createdInTransaction := child.createdInTransaction
      logs := evm.logs ++ child.logs }
  else { evm with state := evm.state.revertToSnapshot snapshot }

/-- The last part of a call: the merge, the return window, and the success flag. -/
def finishCall (host : Host) (setup : CallSetup) (snapshot : Nat) (result : ExecutionResult)
    (child : Evm) : EvmM Unit := do
  modify fun evm => mergeCall evm snapshot result child
  -- The window was covered before the call, so this costs nothing.
  touchMemory host setup.retOffset setup.retSize
  writeOutput setup.retOffset setup.retSize result.output
  push (if result.isSuccess then 1 else 0) (.error "Stack Overflow on CALL")

/-- A call to a contract: it opens a child frame and merges it back. -/
def callContract (host : Host) (delegate : Bool) (setup : CallSetup) : EvmM Unit := do
  let evm ← get
  let (snapshot, evm) := evm.takeSnapshot
  modify fun _ => evm
  let (result, child) ← enter (callChild evm delegate setup.frame) fun result _ =>
    result.isSuccess
  finishCall host setup snapshot result child

def executeCall (host : Host) (forceStatic delegate : Bool) : EvmM Unit := do
  let setup ← prepareCall forceStatic delegate
  if isPrecompile setup.frame.target then callPrecompile host setup
  else callContract host delegate setup

def opCall (host : Host) : EvmM Unit := executeCall host false false
def opDelegatecall (host : Host) : EvmM Unit := executeCall host false true
def opStaticcall (host : Host) : EvmM Unit := executeCall host true false

/-- What a creation has settled before its init code runs. -/
structure Deployment where
  newAddr : Address
  value : Word
  sender : Address
  senderBalance : Word
  targetBalance : Word
  snapshot : Nat

/-- Takes the snapshot and moves the value, in the old balance map and in the fork alike. -/
def fundDeploy (evm : Evm) (newAddr : Address) (value senderBalance : Word) : Deployment × Evm :=
  let sender := evm.selfAddress
  let (snapshot, evm) := evm.takeSnapshot
  let balances := evm.balances.insert sender (senderBalance - value)
  -- Read after the debit, which matters when an account creates onto itself.
  let targetBalance := (balances.lookup newAddr).getD 0
  ({ newAddr, value, sender, senderBalance, targetBalance, snapshot },
    { evm with
      balances := balances.insert newAddr (targetBalance + value)
      state := (evm.state.setBalance sender (senderBalance - value)).setBalance newAddr
        (targetBalance + value) })

/-- The frame a creation opens. -/
def deployChild (evm : Evm) (deployment : Deployment) (initCode : Bytes) (gasLimit : Nat) : Evm :=
  -- All four old maps are handed on, with the moved value among the balances.
  { Evm.newWithGas initCode gasLimit with
    env := evm.env
    context := {
      caller := evm.context.address
      address := deployment.newAddr
      value := toU128Saturating deployment.value }
    storageAddress := deployment.newAddr
    transientStorageAddress := some deployment.newAddr
    state := evm.state
    storage := evm.storage
    balances := evm.balances
    nonces := evm.nonces
    contracts := evm.contracts
    createdInTransaction := evm.createdInTransaction
    isStatic := false }

/-- The code a finished constructor leaves, when it succeeded. -/
def ExecutionResult.runtimeCode : ExecutionResult → Option Bytes
  | halt => some []
  | return_ code => some code
  | _ => none

/-- Puts back the two balances and the fork as they were before the value was moved. -/
def abandonDeploy (evm : Evm) (deployment : Deployment) : Evm :=
  { evm with
    balances := (evm.balances.insert deployment.sender deployment.senderBalance).insert
      deployment.newAddr deployment.targetBalance
    state := evm.state.revertToSnapshot deployment.snapshot }

/-- Takes over what the constructor did and installs the code. -/
def commitDeploy (evm : Evm) (newAddr : Address) (runtimeCode : Bytes) (child : Evm) : Evm :=
  { evm with
    contracts := evm.contracts.insert newAddr runtimeCode
    createdInTransaction := insert newAddr evm.createdInTransaction
    state := child.state.setCode newAddr runtimeCode
    storage := child.storage
    balances := child.balances
    nonces := child.nonces }

/-- Whether a creation succeeds: code of an allowed size whose deposit can be paid. -/
def deploySucceeds (keptGas : Nat) (result : ExecutionResult) (child : Evm) : Bool :=
  match result.runtimeCode with
  | some code =>
    code.length ≤ 24576 && code.length * 200 ≤ saturatingAdd keptGas child.gasLeft
  | none => false

/-- What a creator takes over from any constructor: its gas, its set of accounts, its output. -/
def joinDeploy (evm : Evm) (result : ExecutionResult) (child : Evm) : Evm :=
  { evm with
    gasLeft := saturatingAdd evm.gasLeft child.gasLeft
    createdInTransaction := evm.createdInTransaction ∪ child.createdInTransaction
    -- A constructor that just halted leaves the return data alone.
    returnData := if result = .halt then evm.returnData else result.output }

/-- The creator after the constructor has finished, and what the creation came to. -/
def mergeDeploy (evm : Evm) (deployment : Deployment) (result : ExecutionResult) (child : Evm) :
    Except VmError Word × Evm :=
  -- The set of created accounts is joined before the outcome is known.
  let evm := joinDeploy evm result child
  match result.runtimeCode with
  | none => (.ok 0, abandonDeploy evm deployment)
  | some runtimeCode =>
    if runtimeCode.length > 24576 then (.ok 0, abandonDeploy evm deployment)
    else match checkedMul runtimeCode.length 200 with
      | none => (.error .overflow, abandonDeploy evm deployment)
      | some deposit =>
        if evm.gasLeft < deposit then (.ok 0, abandonDeploy evm deployment)
        else (.ok (deployment.newAddr.setWidth 256),
          commitDeploy { evm with gasLeft := evm.gasLeft - deposit } deployment.newAddr runtimeCode
            child)

def executeDeploy (newAddr : Address) (value : Word) (initCode : Bytes) (gasLimit : Nat) :
    EvmM (Except VmError Word) := do
  let evm ← get
  if evm.isStatic then return .error .staticCallViolation
  else
    -- The balance comes from the old map, which may say something else than the fork.
    let senderBalance := (evm.balances.lookup evm.selfAddress).getD 0
    -- Too little balance fails the creation only, with the child's gas already set aside.
    if senderBalance < value then return .ok 0
    else do
      let (deployment, evm) := fundDeploy evm newAddr value senderBalance
      modify fun _ => evm
      let (result, child) ← enter (deployChild evm deployment initCode gasLimit)
        (deploySucceeds evm.gasLeft)
      let (outcome, evm) := mergeDeploy evm deployment result child
      modify fun _ => evm
      return outcome

/-- The hashing surcharge of a salted creation. -/
def create2HashGas (sizeWord : Word) (salt : Option Word) : Except VmError Nat :=
  match salt with
  | none => .ok 0
  | some _ => match calcCopyGas sizeWord with
    | .error error => .error error
    -- Three for each word doubles to the price of hashing it.
    | .ok words => match checkedMul words 2 with
      | some cost => .ok cost
      | none => .error .overflow

/-- The part of a creation that only prices it and reads the init code. -/
def prepareInitCode (offsetWord sizeWord : Word) (salt : Option Word) : EvmM Bytes := do
  let offset ← toUsize offsetWord
  let size ← toUsize sizeWord
  let evm ← get
  let expansion ← orVmError (memoryExpansionCost evm.memory.length [(offset, size)])
  let hashGas ← orVmError (create2HashGas sizeWord salt)
  chargeSum 32000 expansion hashGas
  expandMemoryWithoutCharge [(offset, size)]
  readMemory offset (offset + size)

/-- The nonce of an account in the old nonce map. -/
def Evm.legacyNonce (evm : Evm) (address : Address) : Nat := (evm.nonces.lookup address).getD 0

/-- Bumps the creator's nonce and sets the child's gas aside. -/
def reserveCreate (evm : Evm) : Nat × Evm :=
  let childGas := calcEip150CallGas evm.gasLeft (BitVec.ofNat 256 evm.gasLeft)
  (childGas, { evm with
    nonces := evm.nonces.insert evm.selfAddress
      (saturatingAdd (evm.legacyNonce evm.selfAddress) 1)
    gasLeft := evm.gasLeft - childGas })

/-- The address a creation is going to use. -/
def createAddress (host : Host) (evm : Evm) (salt : Option Word) (initCode : Bytes) : Address :=
  match salt with
  | none => deriveCreateAddress host evm.selfAddress (evm.legacyNonce evm.selfAddress)
  | some salt => deriveCreate2Address host evm.selfAddress salt initCode

/-- Pushes the new address, or zero for a creation that failed. -/
def finishCreate (outcome : Except VmError Word) : EvmM Unit :=
  match outcome with
  | .ok address => push address (.error "Stack Overflow on CREATE")
  | .error .staticCallViolation => exit (.vmError .staticCallViolation)
  | .error _ => push 0 (.error "Stack Overflow on CREATE")

def executeCreate (host : Host) (value offsetWord sizeWord : Word) (salt : Option Word) :
    EvmM Unit := do
  let initCode ← prepareInitCode offsetWord sizeWord salt
  let evm ← get
  -- The address uses the nonce from before the bump.
  let newAddr := createAddress host evm salt initCode
  let (childGas, evm) := reserveCreate evm
  modify fun _ => evm
  let outcome ← executeDeploy newAddr value initCode childGas
  finishCreate outcome

def opCreate (host : Host) : EvmM Unit := do
  requireMutable
  let value ← pop (.error "Stack Underflow on CREATE")
  let offset ← pop (.error "Stack Underflow on CREATE")
  let size ← pop (.error "Stack Underflow on CREATE")
  executeCreate host value offset size none

def opCreate2 (host : Host) : EvmM Unit := do
  requireMutable
  let value ← pop (.error "Stack Underflow on CREATE2")
  let offset ← pop (.error "Stack Underflow on CREATE2")
  let size ← pop (.error "Stack Underflow on CREATE2")
  let salt ← pop (.error "Stack Underflow on CREATE2")
  executeCreate host value offset size (some salt)

/-- Moves the whole balance of one account to another. -/
def sweepBalance (state : StateFork) (account beneficiary : Address) : StateFork :=
  if account = beneficiary then state
  else
    let balance := state.getBalance account
    (state.setBalance beneficiary (state.getBalance beneficiary + balance)).setBalance account 0

/-- Takes an account out of both layers of the fork and out of the old maps. -/
def removeAccount (evm : Evm) (account : Address) : Evm :=
  { evm with
    state := { evm.state with
      dirtyState := evm.state.dirtyState.erase account
      baseState := evm.state.baseState.erase account }
    contracts := evm.contracts.erase account
    balances := evm.balances.erase account
    nonces := evm.nonces.erase account
    -- The raw storage address is compared, so an unset one never clears the map.
    storage := if evm.storageAddress = account then ∅ else evm.storage }

/-- Moves the whole balance, and removes the account if this transaction created it. -/
def destroyAccount (evm : Evm) (beneficiary : Address) : Evm :=
  let account := evm.selfAddress
  -- An account that names itself keeps its balance here, and loses it only by being removed.
  let swept := { evm with state := sweepBalance evm.state account beneficiary }
  if account ∈ evm.createdInTransaction then removeAccount swept account else swept

def opSelfdestruct : EvmM Unit := do
  requireMutable
  let word ← pop (.error "Stack Underflow")
  let beneficiary := accountAddress word
  let evm ← get
  markAccessed beneficiary
  charge (5000 + accessCost evm beneficiary)
  modify fun evm => destroyAccount evm beneficiary

end MiniEvm
