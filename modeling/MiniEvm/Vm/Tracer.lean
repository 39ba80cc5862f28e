import MiniEvm.Bytes.Hex
import MiniEvm.Vm.Disassembler
import MiniEvm.Vm.Interpreter

/-! Traced runs: what a tracer is shown of each step, and what the command line prints of that. -/

namespace MiniEvm

open Frames

/-- The values from the bottom of the stack up. -/
def Stack.values {capacity : Nat} (stack : Stack capacity) : List Word := stack.data.reverse

/-- What a tracer is shown of one step. -/
structure StepFrame where
  pc : Nat
  op : UInt8
  mnemonic : String
  gasLeft : Nat
  gasCost : Nat
  stack : List Word
  memory : Bytes
  deriving DecidableEq

/-- What a tracer is shown before a step charges for its opcode, if the frame can pay for it. -/
def tracedFrame (evm : Evm) : Option StepFrame :=
  match evm.code[evm.pc]? with
  | none => none
  | some op =>
    let gasCost := (Opcode.ofByte op).gasTable
    -- A step that cannot pay ends the frame before the tracer is called.
    if evm.gasLeft < gasCost then none
    else some {
      pc := evm.pc
      op
      mnemonic := opcodeMnemonic op
      gasLeft := evm.gasLeft
      gasCost
      stack := evm.stack.values
      memory := evm.memory }

/--
The loop of a traced frame, with what its tracer is shown, in order.

The frames below it are fresh ones, which carry no tracer.
-/
def tracedRunWithoutSync (host : Host) :
    (fuel : Nat) → Evm → List StepFrame × Outcome Fault (ExecutionResult × Evm)
  | 0, _ => ([], .outOfFuel)
  | fuel + 1, evm =>
    if evm.pc < evm.code.length then
      let shown := (tracedFrame evm).toList
      match stepFrame host fuel evm with
      | .value (result, after) =>
        if result = .halt then
          let (later, outcome) := tracedRunWithoutSync host fuel after
          (shown ++ later, outcome)
        else (shown, .value (result, after))
      -- What was shown before an abort has been printed.
      | .fault cause => (shown, .fault cause)
      | .outOfFuel => (shown, .outOfFuel)
    else ([], .value (.halt, evm))

/-- A run of a frame with a tracer. -/
def tracedRun (host : Host) (fuel : Nat) (evm : Evm) :
    List StepFrame × Outcome Fault (ExecutionResult × Evm) :=
  let (shown, outcome) := tracedRunWithoutSync host fuel (syncLegacyStateIntoFork evm)
  (shown, do
    let (result, evm) ← outcome
    let evm := syncForkIntoLegacyState host evm
    return (result, { evm with state := evm.state.clearTransientStorage }))

namespace Cli

/-- A word as its shortest row of whole bytes. -/
def formatU256 (value : Word) : String :=
  let bytes := toBeBytes value
  let first := (bytes.findIdx? (· ≠ 0)).getD 31
  "0x" ++ Hex.encode (bytes.drop first)

/-- A number in four digits, or in as many as it needs. -/
def paddedHex (n : Nat) : String :=
  let digits := Nat.toDigits 16 n
  String.ofList (List.replicate (4 - digits.length) '0' ++ digits)

/-- The line of a listed instruction. -/
def formatInstruction (instruction : Instruction) : String :=
  let immediate := (instruction.pushBytes.map fun bytes => " 0x" ++ Hex.encode bytes).getD ""
  paddedHex instruction.pc ++ " | " ++ instruction.mnemonic ++ immediate

/-- A traced opcode with its immediate, which the tracer is not shown but the code still has. -/
def traceMnemonic (frame : StepFrame) (code : Bytes) : String :=
  if 0x60 ≤ frame.op ∧ frame.op ≤ 0x7F then
    let size := (frame.op - 0x5F).toNat
    let available := min (code.length - (frame.pc + 1)) size
    frame.mnemonic ++ " 0x" ++
      Hex.encode (slice code (frame.pc + 1) (frame.pc + 1 + available))
  else frame.mnemonic

/-- The line of a traced step, without its colours. -/
def printTrace (frame : StepFrame) (code : Bytes) : String :=
  let mnemonic := traceMnemonic frame code
  let padding := String.ofList (List.replicate (14 - mnemonic.length) ' ')
  "[PC: " ++ paddedHex frame.pc ++ "] | OP: " ++ mnemonic ++ padding ++ " | GAS: " ++
    toString frame.gasLeft ++ " (-" ++ toString frame.gasCost ++ ") | STACK: [" ++
    ", ".intercalate (frame.stack.map formatU256) ++ "]"

end Cli

end MiniEvm
