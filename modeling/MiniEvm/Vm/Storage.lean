import MiniEvm.Vm.Memory

/-! Handlers for persistent storage, transient storage, and logs. -/

namespace MiniEvm

open EvmM Frames.Program

/-- Ends a frame that may not modify anything. -/
def requireMutable : EvmM Unit := do
  let evm ← get
  if evm.isStatic then exit (.vmError .staticCallViolation) else pure ()

/-- Remembers that a slot was touched. -/
def markSlotWarm (key : Word) : EvmM Unit :=
  modify fun evm => { evm with accessedSlots := insert key evm.accessedSlots }

def opSload : EvmM Unit := do
  let key ← pop (.error "Stack Underflow")
  let evm ← get
  -- Slots are warm by their key alone, whatever account they belong to.
  markSlotWarm key
  charge (if key ∈ evm.accessedSlots then 100 else 2100)
  push (evm.state.getStorage evm.selfAddress key) (.error "Stack Overflow on SLOAD")

def opSstore : EvmM Unit := do
  requireMutable
  let key ← pop (.error "Stack Underflow on SSTORE")
  let val ← pop (.error "Stack Underflow on SSTORE")
  let evm ← get
  markSlotWarm key
  let coldSurcharge := if key ∈ evm.accessedSlots then 0 else 2100
  let currentVal := evm.state.getStorage evm.selfAddress key
  -- The price compares with the value now in the fork, and pays no refund.
  let baseCost := if currentVal = val then 100 else if currentVal = 0 then 20000 else 2900
  charge (baseCost + coldSurcharge)
  modify fun evm => { evm with state := evm.state.setStorage evm.selfAddress key val }

def opTload : EvmM Unit :=
  unary "Stack Underflow" "Stack Overflow on TLOAD" fun evm key =>
    evm.state.tload evm.transientAddress key

def opTstore : EvmM Unit := do
  requireMutable
  let key ← pop (.error "Stack Underflow")
  let value ← pop (.error "Stack Underflow")
  modify fun evm => { evm with state := evm.state.tstore evm.transientAddress key value }

/-- Pops the topics of a log, the first one first. -/
def popTopics : Nat → EvmM (List Word)
  | 0 => pure []
  | count + 1 => do
    let topic ← pop (.error "Stack Underflow on LOG")
    let topics ← popTopics count
    return topic :: topics

/-- The gas of a log: a base, a fee for each topic, and a fee for each byte. -/
def logGas (topicCount size : Nat) : Option Nat := do
  let dataGas ← checkedMul size 8
  let base ← checkedAdd 375 (min (375 * topicCount) u64Max)
  checkedAdd base dataGas

def opLog (host : Host) (topicCount : Nat) : EvmM Unit := do
  requireMutable
  let offset ← pop (.error "Stack Underflow on LOG")
  let sizeWord ← pop (.error "Stack Underflow on LOG")
  let topics ← popTopics topicCount
  match logGas topicCount (asUsize sizeWord) with
  | none => exit .outOfGas
  | some baseGas => do
    charge baseGas
    touchMemory host (asUsize offset) (asUsize sizeWord)
    -- An empty range was not touched, and this read still checks its offset.
    let data ← readMemory (asUsize offset) (asUsize offset + asUsize sizeWord)
    modify fun evm => { evm with
      logs := evm.logs ++ [{ address := evm.selfAddress, topics, data }] }

end MiniEvm
