import Mathlib.Data.Finset.Basic
import MiniEvm.Frames.Machine
import MiniEvm.State.Fork
import MiniEvm.Vm.Opcode

/-! The state of one interpreter frame, its results, and the host it runs on. -/

namespace MiniEvm

/-- The operand stack, top first, which never outgrows its capacity. -/
structure Stack (capacity : Nat) where
  data : List Word
  bounded : data.length ≤ capacity

namespace Stack

variable {capacity : Nat}

/-- The stack a frame starts with. -/
def new : Stack capacity := ⟨[], Nat.zero_le capacity⟩

/-- Pushing fails on a full stack. -/
def push (stack : Stack capacity) (val : Word) : Except String (Stack capacity) :=
  -- The bound that was just tested is what keeps the new stack inside its capacity.
  if full : stack.data.length ≥ capacity then .error "Stack Overflow"
  else .ok ⟨val :: stack.data, Nat.lt_of_not_le full⟩

/-- Popping fails on an empty stack. -/
def pop (stack : Stack capacity) : Except String (Word × Stack capacity) :=
  match stack with
  | ⟨[], _⟩ => .error "Stack Underflow"
  | ⟨top :: rest, bounded⟩ => .ok (top, ⟨rest, Nat.le_of_succ_le bounded⟩)

/-- The value at a depth counted from one. -/
def peek (stack : Stack capacity) (depth : Nat) : Except String Word :=
  if depth = 0 then .error "Stack Underflow on Peek"
  else match stack.data[depth - 1]? with
    | some val => .ok val
    | none => .error "Stack Underflow on Peek"

/-- Exchanges the top with the value that many places below it. -/
def swap (stack : Stack capacity) (depth : Nat) : Except String (Stack capacity) :=
  if depth = 0 then .error "Stack Underflow on Swap"
  else match stack.data[0]?, stack.data[depth]? with
    | some top, some target =>
      .ok ⟨(stack.data.set 0 target).set depth top, by
        simpa only [List.length_set] using stack.bounded⟩
    | _, _ => .error "Stack Underflow on Swap"

end Stack

/-- The errors that handlers report by kind. -/
inductive VmError where
  | overflow
  | outOfBoundsReturnData
  | staticCallViolation
  | outOfGas
  | invalidPrecompile
  deriving DecidableEq

/-- What a step, and a whole frame, comes to. -/
inductive ExecutionResult where
  | halt
  | return_ (data : Bytes)
  | revert (data : Bytes)
  | error (message : String)
  | vmError (error : VmError)
  | outOfGas
  | stackUnderflow
  | stackOverflow
  | invalidOpcode (op : UInt8)
  deriving DecidableEq

/-- The ways in which a handler takes the whole process down. -/
inductive Fault where
  -- A slice or an index out of range.
  | indexOutOfRange
  -- An unchecked 64-bit operation left its range in a build that checks for it.
  | arithmeticOverflow
  deriving DecidableEq

/-- One emitted log. -/
structure LogRecord where
  address : Address
  topics : List Word
  data : Bytes
  deriving DecidableEq

/-- The block a transaction runs in. -/
structure Environment where
  chainId : Word := 1
  origin : Address := 0
  gasPrice : Word := 0
  coinbase : Address := 0
  timestamp : Word := 0
  number : Word := 0
  prevrandao : Word := 0
  gasLimit : Word := 30000000
  baseFee : Word := 0
  blobBaseFee : Word := 0
  blockHash : Nat → Word := fun _ => 0
  blockHashes : HashMap Nat Word := ∅

/-- The call a frame answers. -/
structure TxContext where
  caller : Address := 0
  address : Address := 0
  value : BitVec 128 := 0
  calldata : Bytes := []
  blobVersionedHashes : List Word := []

/--
One interpreter frame.

Beside the fork it carries maps from before there was one.
They are copied into the fork when a run starts and out of it when a run ends.
-/
structure Evm where
  code : Bytes
  pc : Nat
  stack : Stack 1024
  memory : Bytes
  storage : HashMap Word Word
  balances : HashMap Address Word
  nonces : HashMap Address Nat
  contracts : HashMap Address Bytes
  accessedAddresses : Finset Address
  accessedSlots : Finset Word
  context : TxContext
  storageAddress : Address
  transientStorageAddress : Option Address
  env : Environment
  returnData : Bytes
  logs : List LogRecord
  isStatic : Bool
  validJumpdests : List Bool
  gasLeft : Nat
  state : StateFork
  createdInTransaction : Finset Address

/-- What the interpreter takes from outside: hashes, signatures, and the build it runs as. -/
structure Host where
  keccak256 : Bytes → Word
  sha256 : Bytes → Word
  ripemd160 : Bytes → Address
  -- The public key behind a prehash, a signature and a recovery id, without its format byte.
  recoverKey : Bytes → Bytes → Nat → Option Bytes
  -- Whether unchecked 64-bit operations abort on overflow, as in debug builds, or wrap.
  overflowChecks : Bool
  -- The order in which a hash map of modified accounts happens to be iterated.
  order : Evm → List (Sigma fun _ : Address => AccountState)
  order_perm : ∀ evm, (order evm).Perm evm.state.dirtyState.entries

/-- The bytes of code that are jump destinations and not part of a push. -/
def analyzeJumpdests.walk (code : Bytes) : (fuel i : Nat) → List Bool → List Bool
  | 0, _, valid => valid
  | fuel + 1, i, valid =>
    match code[i]? with
    | none => valid
    | some op =>
      -- A push skips its immediate bytes, whatever they hold, even past the end of the code.
      if op = 0x5B then walk code fuel (i + 1) (valid.set i true)
      else if 0x60 ≤ op ∧ op ≤ 0x7F then walk code fuel (i + (op.toNat - 0x60 + 1) + 1) valid
      else walk code fuel (i + 1) valid

/-- Marks the jump destinations; every round moves on, so the code's length bounds the rounds. -/
def analyzeJumpdests (code : Bytes) : List Bool :=
  analyzeJumpdests.walk code code.length 0 (List.replicate code.length false)

namespace Evm

/-- A fresh frame for some code with a gas limit. -/
def newWithGas (code : Bytes) (gasLimit : Nat) : Evm where
  code := code
  pc := 0
  stack := .new
  memory := []
  storage := ∅
  balances := ∅
  nonces := ∅
  contracts := ∅
  accessedAddresses := ∅
  accessedSlots := ∅
  context := {}
  storageAddress := 0
  transientStorageAddress := none
  env := {}
  returnData := []
  logs := []
  isStatic := false
  validJumpdests := analyzeJumpdests code
  gasLeft := gasLimit
  state := {}
  createdInTransaction := ∅

/-- The account a frame acts as: its storage address, or its own where that is unset. -/
def selfAddress (evm : Evm) : Address :=
  -- Zero stands for unset, so a frame that acts as account zero is taken for one that is not.
  if evm.storageAddress = 0 then evm.context.address else evm.storageAddress

/-- The account whose transient slots a frame uses. -/
def transientAddress (evm : Evm) : Address :=
  evm.transientStorageAddress.getD evm.selfAddress

/-- The opcode the next step executes, if the frame is still running. -/
def opcode (evm : Evm) : Option Opcode := evm.code[evm.pc]?.map Opcode.ofByte

end Evm

/-- A handler: it changes the frame and may return early, abort, or run a child frame. -/
abbrev EvmM := Frames.Program Evm ExecutionResult Fault

namespace EvmM

open Frames.Program

/-- Takes the top of the stack, or ends the frame with the given result. -/
def pop (underflow : ExecutionResult) : EvmM Word := do
  let evm ← get
  match evm.stack.pop with
  | .ok (val, stack) => do
    modify fun evm => { evm with stack }
    return val
  | .error _ => exit underflow

/-- Puts a value on the stack, or ends the frame with the given result. -/
def push (val : Word) (overflow : ExecutionResult) : EvmM Unit := do
  let evm ← get
  match evm.stack.push val with
  | .ok stack => modify fun evm => { evm with stack }
  | .error _ => exit overflow

/-- Deducts gas, or ends the frame when there is too little. -/
def charge (cost : Nat) : EvmM Unit := do
  let evm ← get
  -- A frame that cannot pay keeps the gas it has.
  if evm.gasLeft < cost then exit .outOfGas
  else modify fun evm => { evm with gasLeft := evm.gasLeft - cost }

/-- Goes on with a value, or ends the frame with the error. -/
def orVmError (attempt : Except VmError Nat) : EvmM Nat :=
  match attempt with
  | .ok value => pure value
  | .error error => exit (.vmError error)

/-- A word as a size, or an overflow. -/
def toUsize (word : Word) : EvmM Nat :=
  match toU64 word with
  | some value => pure value
  | none => exit (.vmError .overflow)

/-- The memory bytes of a range, which must lie inside. -/
def readMemory (start stop : Nat) : EvmM Bytes := do
  let evm ← get
  -- Both ends are checked, so even an empty range past the end aborts.
  if start ≤ stop ∧ stop ≤ evm.memory.length then return slice evm.memory start stop
  else fault .indexOutOfRange

/-- Replaces the memory bytes of a range, which must lie inside. -/
def writeMemory (offset : Nat) (source : Bytes) : EvmM Unit := do
  let evm ← get
  -- The same check guards a write.
  if offset + source.length ≤ evm.memory.length then
    modify fun evm => { evm with memory := overwrite evm.memory offset source }
  else fault .indexOutOfRange

/-- Writes byte after byte, so that an empty range touches nothing. -/
def copyToMemory (dest size : Nat) (source : Nat → UInt8) : EvmM Unit :=
  if size = 0 then pure () else writeMemory dest ((List.range size).map source)

end EvmM

end MiniEvm
