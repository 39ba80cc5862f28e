import MiniEvm.Vm.Evm

/-! Precompiled contracts, creation addresses, and the share of gas a child frame may get. -/

namespace MiniEvm

/-- A child frame gets what was asked for, and at most all but one 64th of what is there. -/
def calcEip150CallGas (availableGas : Nat) (requestedGas : Word) : Nat :=
  let maxCallGas := availableGas - availableGas / 64
  -- A request past the 64-bit range asks for everything.
  min ((toU64 requestedGas).getD u64Max) maxCallGas

def encodeNonce (nonce : Nat) : Bytes :=
  if nonce = 0 then [0x80]
  else
    -- Leading zeros are dropped, and a single small byte stands for itself.
    let value := (beBytes 8 nonce).dropWhile (· = 0)
    if value.length = 1 ∧ value.all (· < 0x80) then value
    else UInt8.ofNat (0x80 + value.length) :: value

def rlpEncodeCreate (sender : Address) (nonce : Nat) : Bytes :=
  let payload := 0x94 :: beBytes 20 sender.toNat ++ encodeNonce nonce
  UInt8.ofNat (0xc0 + payload.length) :: payload

def deriveCreateAddress (host : Host) (sender : Address) (nonce : Nat) : Address :=
  accountAddress (host.keccak256 (rlpEncodeCreate sender nonce))

def deriveCreate2Address (host : Host) (sender : Address) (salt : Word) (initCode : Bytes) :
    Address :=
  let initCodeHash := host.keccak256 initCode
  accountAddress (host.keccak256
    (0xff :: beBytes 20 sender.toNat ++ toBeBytes salt ++ toBeBytes initCodeHash))

/-- Addresses one to four. -/
def isPrecompile (addr : Address) : Bool := 1 ≤ addr.toNat && addr.toNat ≤ 4

def wordCount (len : Nat) : Except VmError Nat :=
  match checkedAdd len 31 with
  | some rounded => .ok (rounded / 32)
  | none => .error .overflow

/-- A base fee and a fee for each started word of input. -/
def linearGas (base perWord len : Nat) : Except VmError Nat := do
  let words ← wordCount len
  match (checkedMul words perWord).bind fun fee => checkedAdd base fee with
  | some gas => .ok gas
  | none => .error .overflow

/-- The recovered address behind zeros, or only zeros; the byte at 31 is taken for the id. -/
def precompileEcrecover (host : Host) (input : Bytes) : Except VmError (Nat × Bytes) :=
  let padded := resize input 128
  let id := padded[31]?.getD 0
  let empty := List.replicate 32 0
  if id = 27 ∨ id = 28 then
    match host.recoverKey (slice padded 0 32) (slice padded 64 128) (id.toNat - 27) with
    | some key => .ok (3000, List.replicate 12 0 ++ slice (toBeBytes (host.keccak256 key)) 12 32)
    | none => .ok (3000, empty)
  else .ok (3000, empty)

def precompileSha256 (host : Host) (input : Bytes) : Except VmError (Nat × Bytes) := do
  let gas ← linearGas 60 12 input.length
  return (gas, toBeBytes (host.sha256 input))

def precompileRipemd160 (host : Host) (input : Bytes) : Except VmError (Nat × Bytes) := do
  let gas ← linearGas 600 120 input.length
  return (gas, List.replicate 12 0 ++ beBytes 20 (host.ripemd160 input).toNat)

def precompileIdentity (input : Bytes) : Except VmError (Nat × Bytes) := do
  let gas ← linearGas 15 3 input.length
  return (gas, input)

def executePrecompile (host : Host) (addr : Address) (input : Bytes) (gasLimit : Nat) :
    Except VmError (Nat × Bytes) := do
  let result ← match addr.toNat % 256 with
    | 1 => precompileEcrecover host input
    | 2 => precompileSha256 host input
    | 3 => precompileRipemd160 host input
    | 4 => precompileIdentity input
    | _ => .error .invalidPrecompile
  -- The output is computed first and thrown away when it cannot be paid.
  if result.1 > gasLimit then .error .outOfGas else return result

end MiniEvm
