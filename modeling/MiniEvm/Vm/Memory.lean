import MiniEvm.Vm.Context

/-! Memory growth in its two forms, and the handlers that read and write memory. -/

namespace MiniEvm

open EvmM Frames.Program

/-- The gas for copying, three for each started word. -/
def calcCopyGas (sizeInBytes : Word) : Except VmError Nat :=
  if sizeInBytes.toNat + 31 < 2 ^ 256 then
    -- Rounding up happens in the full word, and only the result must fit 64 bits.
    let words := (sizeInBytes.toNat + 31) / 32
    if words ≤ u64Max then
      match checkedMul words 3 with
      | some cost => .ok cost
      | none => .error .overflow
    else .error .overflow
  else .error .overflow

/-- An unchecked 64-bit result, which aborts or wraps as the build has it. -/
def uncheckedU64 (host : Host) (result : Nat) : EvmM Nat :=
  if result ≤ u64Max then pure result
  else if host.overflowChecks then fault .arithmeticOverflow
  else pure (result % 2 ^ 64)

/-- An unchecked 64-bit difference, which aborts or wraps as the build has it. -/
def uncheckedSub (host : Host) (a b : Nat) : EvmM Nat :=
  if b ≤ a then pure (a - b)
  else if host.overflowChecks then fault .arithmeticOverflow
  else pure ((a + 2 ^ 64 - b) % 2 ^ 64)

def memoryCost (host : Host) (words : Nat) : EvmM Nat := do
  let linear ← uncheckedU64 host (3 * words)
  -- The square leaves the 64-bit range from 2^32 words on.
  let square ← uncheckedU64 host (words * words)
  uncheckedU64 host (linear + square / 512)

/-- Grows memory to cover a range and charges for it; an empty range covers nothing. -/
def touchMemory (host : Host) (offset size : Nat) : EvmM Unit :=
  if size = 0 then pure ()
  else match checkedAdd offset size with
    -- A range past the 64-bit range is priced out, not reported as an overflow.
    | none => exit .outOfGas
    | some endBytes => match checkedAdd endBytes 31 with
      | none => exit .outOfGas
      | some roundedEnd => do
        -- Memory grows by whole words.
        let newWords := roundedEnd / 32
        let evm ← get
        let currentWords := evm.memory.length / 32
        if newWords > currentWords then do
          let costNew ← memoryCost host newWords
          let costOld ← memoryCost host currentWords
          let expansionCost ← uncheckedSub host costNew costOld
          charge expansionCost
          modify fun evm => { evm with memory := resize evm.memory (newWords * 32) }
        else pure ()

/-- The furthest end among memory and the ranges; here an empty range counts too. -/
def requiredEnd (length : Nat) : List (Nat × Nat) → Option Nat
  | [] => some length
  | (offset, size) :: ranges =>
    match checkedAdd offset size with
    | some stop => requiredEnd (max length stop) ranges
    | none => none

/-- The checked form of the memory cost. -/
def checkedMemoryCost (words : Nat) : Option Nat := do
  let linear ← checkedMul words 3
  let square ← checkedMul words words
  checkedAdd linear (square / 512)

/-- The gas that growing memory over all ranges takes, without charging it. -/
def memoryExpansionCost (length : Nat) (ranges : List (Nat × Nat)) : Except VmError Nat :=
  match requiredEnd length ranges with
  -- Here a range past the 64-bit range is an error of its own.
  | none => .error .overflow
  | some required =>
    if required = 0 then .ok 0
    else match checkedAdd required 31 with
      | none => .error .overflow
      | some rounded =>
        match checkedMemoryCost (rounded / 32), checkedMemoryCost (length / 32) with
        | some newCost, some oldCost =>
          if oldCost ≤ newCost then .ok (newCost - oldCost) else .error .overflow
        | _, _ => .error .overflow

/-- Grows memory over all ranges. -/
def expandMemoryWithoutCharge (ranges : List (Nat × Nat)) : EvmM Unit := do
  let evm ← get
  match requiredEnd evm.memory.length ranges with
  | none => exit (.vmError .overflow)
  | some required => match checkedAdd required 31 with
    | none => exit (.vmError .overflow)
    | some rounded =>
      if rounded / 32 * 32 > evm.memory.length then
        modify fun evm => { evm with memory := resize evm.memory (rounded / 32 * 32) }
      else pure ()

def opMstore (host : Host) : EvmM Unit := do
  let offset ← pop (.error "Stack Underflow on MSTORE")
  let val ← pop (.error "Stack Underflow on MSTORE")
  touchMemory host (asUsize offset) 32
  -- The first 24 bytes are cleared before all 32 are written over.
  writeMemory (asUsize offset) (List.replicate 24 0)
  writeMemory (asUsize offset) (toBeBytes val)

def opMstore8 (host : Host) : EvmM Unit := do
  let offset ← pop (.error "Stack Underflow on MSTORE8")
  let val ← pop (.error "Stack Underflow on MSTORE8")
  touchMemory host (asUsize offset) 1
  writeMemory (asUsize offset) [UInt8.ofNat val.toNat]

def opMload (host : Host) : EvmM Unit := do
  let offset ← pop (.error "Stack Underflow on MLOAD")
  touchMemory host (asUsize offset) 32
  let bytes ← readMemory (asUsize offset) (asUsize offset + 32)
  push (fromBeBytes bytes) (.error "Stack Overflow on MLOAD")

/-- Charges a sum of costs that must stay in the 64-bit range. -/
def chargeSum (first second third : Nat) : EvmM Unit :=
  match (checkedAdd first second).bind fun cost => checkedAdd cost third with
  | some totalCost => charge totalCost
  | none => exit (.vmError .overflow)

def opMcopy : EvmM Unit := do
  let destWord ← pop (.error "Stack Underflow on MCOPY")
  let sourceWord ← pop (.error "Stack Underflow on MCOPY")
  let sizeWord ← pop (.error "Stack Underflow on MCOPY")
  let size ← toUsize sizeWord
  let copyCost ← orVmError (calcCopyGas sizeWord)
  -- An empty copy looks at neither offset.
  if size = 0 then chargeSum 3 copyCost 0
  else do
    let dest ← toUsize destWord
    let source ← toUsize sourceWord
    let evm ← get
    let memoryCost ← orVmError
      (memoryExpansionCost evm.memory.length [(dest, size), (source, size)])
    chargeSum 3 copyCost memoryCost
    expandMemoryWithoutCharge [(dest, size), (source, size)]
    -- Reading the whole source first is what makes overlapping ranges safe.
    let bytes ← readMemory source (source + size)
    writeMemory dest bytes

/-- Charges for a copy of the given size; a cost out of range counts as too little gas. -/
def chargeCopy (sizeWord : Word) : EvmM Unit :=
  match calcCopyGas sizeWord with
  | .ok copyCost => charge copyCost
  | .error _ => exit .outOfGas

/-- Copies from a byte string to memory, with zeros past its end. -/
def copyOpcode (host : Host) (name : String) (source : Evm → Bytes) : EvmM Unit := do
  let dest ← pop (.error ("Stack Underflow on " ++ name))
  let offset ← pop (.error ("Stack Underflow on " ++ name))
  let sizeWord ← pop (.error ("Stack Underflow on " ++ name))
  -- Only the lowest limb decides that nothing is copied, and then nothing is charged.
  if asUsize sizeWord = 0 then pure ()
  else do
    chargeCopy sizeWord
    touchMemory host (asUsize dest) (asUsize sizeWord)
    let evm ← get
    copyToMemory (asUsize dest) (asUsize sizeWord) (byteOrZero (source evm) (asUsize offset))

def opCalldatacopy (host : Host) : EvmM Unit :=
  copyOpcode host "CALLDATACOPY" fun evm => evm.context.calldata

def opCodecopy (host : Host) : EvmM Unit := copyOpcode host "CODECOPY" fun evm => evm.code

def opExtcodecopy : EvmM Unit := do
  let addressWord ← pop (.error "Stack Underflow")
  let address := accountAddress addressWord
  let destWord ← pop (.error "Stack Underflow on EXTCODECOPY")
  let offsetWord ← pop (.error "Stack Underflow on EXTCODECOPY")
  let sizeWord ← pop (.error "Stack Underflow on EXTCODECOPY")
  let dest ← toUsize destWord
  let offset ← toUsize offsetWord
  let size ← toUsize sizeWord
  match calcCopyGas sizeWord with
  | .error _ => exit .outOfGas
  | .ok copyCost => do
    let evm ← get
    -- The account is marked before the cost is known to be payable.
    markAccessed address
    let memoryCost ← orVmError (memoryExpansionCost evm.memory.length [(dest, size)])
    chargeSum (accessCost evm address) copyCost memoryCost
    expandMemoryWithoutCharge [(dest, size)]
    copyToMemory dest size (byteOrZero (evm.state.getCode address) offset)

def opReturndatacopy (host : Host) : EvmM Unit := do
  let dest ← pop (.error "Stack Underflow on RETURNDATACOPY")
  let offset ← pop (.error "Stack Underflow on RETURNDATACOPY")
  let sizeWord ← pop (.error "Stack Underflow on RETURNDATACOPY")
  let evm ← get
  -- Reading past the return data is an error even for an empty range.
  match checkedAdd (asUsize offset) (asUsize sizeWord) with
  | none => exit (.vmError .outOfBoundsReturnData)
  | some stop =>
    if stop ≤ evm.returnData.length then do
      chargeCopy sizeWord
      touchMemory host (asUsize dest) (asUsize sizeWord)
      -- An empty range leaves memory as it is, and the write then checks its offset all the same.
      writeMemory (asUsize dest) (slice evm.returnData (asUsize offset) stop)
    else exit (.vmError .outOfBoundsReturnData)

def opKeccak256 (host : Host) : EvmM Unit := do
  let offset ← pop (.error "Stack Underflow on KECCAK256")
  let sizeWord ← pop (.error "Stack Underflow on KECCAK256")
  chargeCopy sizeWord
  touchMemory host (asUsize offset) (asUsize sizeWord)
  -- The same holds for the read of an empty range.
  let bytes ← readMemory (asUsize offset) (asUsize offset + asUsize sizeWord)
  push (host.keccak256 bytes) (.error "Stack Overflow on KECCAK256")

/-- Ends the frame with a range of memory, cut at the end of memory. -/
def finishWith (host : Host) (finish : Bytes → ExecutionResult) : EvmM Unit := do
  let offset ← pop .stackUnderflow
  let size ← pop .stackUnderflow
  touchMemory host (asUsize offset) (asUsize size)
  let evm ← get
  -- Both ends are cut at the end of memory, so an empty range is never out of range.
  let bytes ← readMemory (min (asUsize offset) evm.memory.length)
    (min (saturatingAdd (asUsize offset) (asUsize size)) evm.memory.length)
  exit (finish bytes)

def opReturn (host : Host) : EvmM Unit := finishWith host .return_
def opRevert (host : Host) : EvmM Unit := finishWith host .revert

end MiniEvm
