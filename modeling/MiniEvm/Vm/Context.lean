import MiniEvm.Vm.Arithmetic

/-! Handlers that move words on the stack, jump, or read the call, the block and the accounts. -/

namespace MiniEvm

open EvmM Frames.Program

/-- Pushes a word read from the frame. -/
def pushRead (overflow : String) (read : Evm → Word) : EvmM Unit := do
  let evm ← get
  push (read evm) (.error overflow)

def opPush1 : EvmM Unit := do
  let evm ← get
  -- The step has moved past the opcode, so this is the immediate byte.
  match evm.code[evm.pc]? with
  | none => exit (.error "Unexpected EOF on PUSH1")
  | some val => do
    modify fun evm => { evm with pc := evm.pc + 1 }
    push (BitVec.ofNat 256 val.toNat) (.error "Stack Overflow on PUSH1")

def opPush2 : EvmM Unit := do
  let evm ← get
  match evm.code[evm.pc]?, evm.code[evm.pc + 1]? with
  | some high, some low => do
    modify fun evm => { evm with pc := evm.pc + 2 }
    push (BitVec.ofNat 256 (high.toNat * 256 + low.toNat)) (.error "Stack Overflow on PUSH2")
  -- Unlike the longer pushes, the two short ones do not fill in missing bytes.
  | _, _ => exit (.error "Unexpected EOF on PUSH2")

/-- The immediate of a push, with the bytes past the end of code read as zero. -/
def pushImmediate (code : Bytes) (pc n : Nat) : Bytes :=
  let available := min (code.length - pc) n
  List.replicate (32 - n) 0 ++ slice code pc (pc + available) ++ List.replicate (n - available) 0

def executePushN (n : Nat) : EvmM Unit := do
  let evm ← get
  -- The addition saturates at 64 bits, which the end of a byte vector stays far away from.
  modify fun evm => { evm with pc := evm.pc + n }
  push (fromBeBytes (pushImmediate evm.code evm.pc n)) (.error "Stack Overflow on PUSH")

def opDup (n : Nat) : EvmM Unit := do
  let evm ← get
  match evm.stack.peek n with
  | .ok val => push val (.error ("Stack Overflow on DUP" ++ toString n))
  | .error message => exit (.error message)

def opSwap (n : Nat) : EvmM Unit := do
  let evm ← get
  match evm.stack.swap n with
  | .ok stack => modify fun evm => { evm with stack }
  | .error message => exit (.error message)

/-- Moves to a destination that the analysis of the code marked. -/
def jumpTo (dest : Nat) (invalid : String) : EvmM Unit := do
  let evm ← get
  -- A destination past the end of code is as invalid as an unmarked one.
  if evm.validJumpdests[dest]?.getD false then modify fun evm => { evm with pc := dest }
  else exit (.error invalid)

def opJump : EvmM Unit := do
  let dest ← pop (.error "Stack Underflow on JUMP")
  jumpTo (asUsize dest) "Invalid JUMP destination"

def opJumpi : EvmM Unit := do
  let dest ← pop (.error "Stack Underflow on JUMPI")
  let cond ← pop (.error "Stack Underflow on JUMPI")
  -- The destination is not looked at when the jump is not taken.
  if cond ≠ 0 then jumpTo (asUsize dest) "Invalid JUMPI destination" else pure ()

/-- A byte, or zero past the end; the position saturates as the copy loops make it. -/
def byteOrZero (bytes : Bytes) (offset i : Nat) : UInt8 :=
  bytes[saturatingAdd offset i]?.getD 0

def opCalldataload : EvmM Unit :=
  unary "Stack Underflow on CALLDATALOAD" "Stack Overflow" fun evm offset =>
    let offset := asUsize offset
    let calldata := evm.context.calldata
    let available := min (calldata.length - offset) 32
    fromBeBytes (slice calldata offset (offset + available) ++ List.replicate (32 - available) 0)

def opCalldatasize : EvmM Unit :=
  pushRead "Stack Overflow" fun evm => BitVec.ofNat 256 evm.context.calldata.length

/-- Pushes an address, zero-extended. -/
def pushAddress (read : Evm → Address) : EvmM Unit :=
  pushRead "Stack Overflow on context opcode" fun evm => (read evm).setWidth 256

def opAddress : EvmM Unit := pushAddress fun evm => evm.selfAddress
def opCaller : EvmM Unit := pushAddress fun evm => evm.context.caller
def opOrigin : EvmM Unit := pushAddress fun evm => evm.env.origin
def opCoinbase : EvmM Unit := pushAddress fun evm => evm.env.coinbase

/-- The value passes through a 64-bit conversion. -/
def opCallvalue : EvmM Unit :=
  pushRead "Stack Overflow" fun evm => BitVec.ofNat 256 (evm.context.value.toNat % 2 ^ 64)

def opCodesize : EvmM Unit :=
  pushRead "Stack Overflow on CODESIZE" fun evm => BitVec.ofNat 256 evm.code.length

def opGasprice : EvmM Unit := pushRead "Stack Overflow on GASPRICE" fun evm => evm.env.gasPrice
def opTimestamp : EvmM Unit := pushRead "Stack Overflow on TIMESTAMP" fun evm => evm.env.timestamp
def opNumber : EvmM Unit := pushRead "Stack Overflow on NUMBER" fun evm => evm.env.number

def opPrevrandao : EvmM Unit :=
  pushRead "Stack Overflow on PREVRANDAO" fun evm => evm.env.prevrandao

def opGaslimit : EvmM Unit := pushRead "Stack Overflow on GASLIMIT" fun evm => evm.env.gasLimit
def opChainid : EvmM Unit := pushRead "Stack Overflow on CHAINID" fun evm => evm.env.chainId
def opBasefee : EvmM Unit := pushRead "Stack Overflow on BASEFEE" fun evm => evm.env.baseFee

def opBlobbasefee : EvmM Unit :=
  pushRead "Stack Overflow on BLOBBASEFEE" fun evm => evm.env.blobBaseFee

def opGas : EvmM Unit :=
  pushRead "Stack Overflow on GAS" fun evm => BitVec.ofNat 256 evm.gasLeft

def opReturndatasize : EvmM Unit :=
  pushRead "Stack Overflow on RETURNDATASIZE" fun evm => BitVec.ofNat 256 evm.returnData.length

def opMsize : EvmM Unit :=
  pushRead "Stack Overflow on MSIZE" fun evm => BitVec.ofNat 256 evm.memory.length

def opSelfbalance : EvmM Unit :=
  pushRead "Stack Overflow on SELFBALANCE" fun evm => evm.state.getBalance evm.selfAddress

def opBlobhash : EvmM Unit :=
  unary "Stack Underflow" "Stack Overflow on BLOBHASH" fun evm index =>
    match toU64 index with
    | some index => evm.context.blobVersionedHashes[index]?.getD 0
    | none => 0

/-- The hash of one of the last 256 blocks, from the table or else from the block-hash function. -/
def blockHashOf (env : Environment) (requested : Word) : Word :=
  match toU64 env.number, toU64 requested with
  | some current, some number =>
    -- Only past blocks count, and of these the last 256.
    if number < current ∧ current - number ≤ 256 then
      (env.blockHashes.lookup number).getD (env.blockHash number)
    else 0
  | _, _ => 0

def opBlockhash : EvmM Unit :=
  unary "Stack Underflow" "Stack Overflow on block context opcode" fun evm requested =>
    blockHashOf evm.env requested

/-- The cost of touching an account, which is lower from the second time on. -/
def accessCost (evm : Evm) (address : Address) : Nat :=
  if address ∈ evm.accessedAddresses then 100 else 2600

/-- Remembers that an account was touched. -/
def markAccessed (address : Address) : EvmM Unit :=
  modify fun evm => { evm with accessedAddresses := insert address evm.accessedAddresses }

def chargeAccountAccess (address : Address) : EvmM Unit := do
  let evm ← get
  -- The account stays marked even when the charge fails.
  markAccessed address
  charge (accessCost evm address)

/-- Pops an address, charges for the access, and pushes something about the account. -/
def accountQuery (overflow : String) (read : Evm → Address → Word) : EvmM Unit := do
  let word ← pop (.error "Stack Underflow")
  let address := accountAddress word
  chargeAccountAccess address
  let evm ← get
  push (read evm address) (.error overflow)

def opBalance : EvmM Unit :=
  accountQuery "Stack Overflow on BALANCE" fun evm address => evm.state.getBalance address

def opExtcodesize : EvmM Unit :=
  accountQuery "Stack Overflow on EXTCODESIZE" fun evm address =>
    BitVec.ofNat 256 (evm.state.getCode address).length

def opExtcodehash (host : Host) : EvmM Unit :=
  accountQuery "Stack Overflow on EXTCODEHASH" fun evm address =>
    let code := evm.state.getCode address
    if code.isEmpty then 0 else host.keccak256 code

end MiniEvm
