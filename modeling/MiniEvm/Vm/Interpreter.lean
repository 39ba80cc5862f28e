import MiniEvm.Vm.Calls

/-! The interpreter: dispatch, one step, the loop of a frame, and the copies around it. -/

namespace MiniEvm

open EvmM Frames Frames.Program

def opInvalid : EvmM Unit := exit (.error "Invalid Opcode")

def opInvalidOpcode : EvmM Unit := do
  -- The opcode 0xfe takes all gas that is left; any other byte without a handler takes none.
  modify fun evm => { evm with gasLeft := 0 }
  exit (.invalidOpcode 0xFE)

/-- Nothing but the result that every completed handler gives, on which the loop goes on. -/
def opStop : EvmM Unit := pure ()

def opJumpdest : EvmM Unit := pure ()

/-- The handler of each opcode. -/
def dispatch (host : Host) : Opcode → EvmM Unit
  | .stop => opStop
  | .add => opAdd
  | .mul => opMul
  | .sub => opSub
  | .div => opDiv
  | .sdiv => opSdiv
  | .mod => opMod
  | .smod => opSmod
  | .addmod => opAddmod
  | .mulmod => opMulmod
  | .exp => opExp
  | .signextend => opSignextend
  | .lt => opLt
  | .gt => opGt
  | .eq => opEq
  | .iszero => opIszero
  | .and => opAnd
  | .or => opOr
  | .xor => opXor
  | .not => opNot
  | .byte => opByte
  | .shl => opShl
  | .shr => opShr
  | .sar => opSar
  | .keccak256 => opKeccak256 host
  | .address => opAddress
  | .balance => opBalance
  | .origin => opOrigin
  | .caller => opCaller
  | .callvalue => opCallvalue
  | .calldataload => opCalldataload
  | .calldatasize => opCalldatasize
  | .calldatacopy => opCalldatacopy host
  | .codesize => opCodesize
  | .codecopy => opCodecopy host
  | .gasprice => opGasprice
  | .extcodesize => opExtcodesize
  | .extcodecopy => opExtcodecopy
  | .returndatasize => opReturndatasize
  | .returndatacopy => opReturndatacopy host
  | .extcodehash => opExtcodehash host
  | .blockhash => opBlockhash
  | .coinbase => opCoinbase
  | .timestamp => opTimestamp
  | .number => opNumber
  | .prevrandao => opPrevrandao
  | .gaslimit => opGaslimit
  | .chainid => opChainid
  | .selfbalance => opSelfbalance
  | .basefee => opBasefee
  | .blobhash => opBlobhash
  | .blobbasefee => opBlobbasefee
  | .mload => opMload host
  | .mstore => opMstore host
  | .mstore8 => opMstore8 host
  | .sload => opSload
  | .sstore => opSstore
  | .jump => opJump
  | .jumpi => opJumpi
  | .msize => opMsize
  | .gas => opGas
  | .jumpdest => opJumpdest
  | .tload => opTload
  | .tstore => opTstore
  | .mcopy => opMcopy
  | .push1 => opPush1
  | .push2 => opPush2
  | .push size => executePushN size
  | .dup depth => opDup depth
  | .swap depth => opSwap depth
  | .log topics => opLog host topics
  | .create => opCreate host
  | .call => opCall host
  | .return_ => opReturn host
  | .delegatecall => opDelegatecall host
  | .create2 => opCreate2 host
  | .staticcall => opStaticcall host
  | .revert => opRevert host
  | .invalid => opInvalidOpcode
  | .selfdestruct => opSelfdestruct
  | .undefined => opInvalid

/-- One step: the static charge, the move past the opcode, and the handler. -/
def step (host : Host) : EvmM Unit := do
  let evm ← get
  match evm.opcode with
  | none => pure ()
  | some op => do
    -- A frame that cannot pay the static cost stays at the opcode.
    charge op.gasTable
    modify fun evm => { evm with pc := evm.pc + 1 }
    dispatch host op

/-- Writes the old maps into the fork, the storage map under the frame's own account. -/
def syncLegacyStateIntoFork (evm : Evm) : Evm :=
  -- The storage map is that of one account, and does not name it.
  let state := evm.storage.entries.foldl
    (fun state entry => state.setStorage evm.selfAddress entry.1 entry.2) evm.state
  -- The other three maps name the account of each entry.
  let state := evm.balances.entries.foldl
    (fun state entry => state.setBalance entry.1 entry.2) state
  let state := evm.nonces.entries.foldl (fun state entry => state.setNonce entry.1 entry.2) state
  let state := evm.contracts.entries.foldl
    (fun state entry => state.setCode entry.1 entry.2) state
  { evm with state }

/-- Reads one modified account back; any account with storage replaces the one storage map. -/
def readBackAccount (evm : Evm) (entry : Sigma fun _ : Address => AccountState) : Evm :=
  let account := entry.2
  { evm with
    -- Whichever account comes last in the iteration decides what the map holds.
    storage := if account.storage.entries.isEmpty then evm.storage else account.storage
    balances := evm.balances.insert entry.1 account.balance
    nonces := evm.nonces.insert entry.1 account.nonce
    contracts :=
      if account.code.isEmpty then evm.contracts else evm.contracts.insert entry.1 account.code }

/-- Reads every modified account back, in the order in which the map is iterated. -/
def syncForkIntoLegacyState (host : Host) (evm : Evm) : Evm :=
  (host.order evm).foldl readBackAccount evm

/-- Frames as a machine: a child frame is copied into its fork before and out of it after. -/
def machine (host : Host) : Machine Evm ExecutionResult Fault where
  running := fun evm => evm.pc < evm.code.length
  step := step host
  halt := .halt
  opening := syncLegacyStateIntoFork
  closing := syncForkIntoLegacyState host

/-- One step together with the frames it opens, each bounded by the fuel. -/
def stepFrame (host : Host) (fuel : Nat) (evm : Evm) : Outcome Fault (ExecutionResult × Evm) := do
  -- What the frames below did in detail is dropped.
  let (_, result, after) ←
    (step host evm).resolve .halt ((machine host).nested ((machine host).trace fuel))
  return (result, after)

/-- The loop of a frame: steps until the code ends or a step gives anything but a halt. -/
def runWithoutSync (host : Host) (fuel : Nat) (evm : Evm) :
    Outcome Fault (ExecutionResult × Evm) :=
  (machine host).loop fuel evm

def runChild (host : Host) (fuel : Nat) (child : Evm) :
    Outcome Fault (ExecutionResult × Evm) := do
  let (result, child) ← runWithoutSync host fuel (syncLegacyStateIntoFork child)
  return (result, syncForkIntoLegacyState host child)

def run (host : Host) (fuel : Nat) (evm : Evm) : Outcome Fault (ExecutionResult × Evm) := do
  let (result, evm) ← runWithoutSync host fuel (syncLegacyStateIntoFork evm)
  -- Only the outermost frame drops the transient slots, after the copy.
  let evm := syncForkIntoLegacyState host evm
  return (result, { evm with state := evm.state.clearTransientStorage })

end MiniEvm
