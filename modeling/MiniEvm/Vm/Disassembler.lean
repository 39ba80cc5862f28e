import MiniEvm.Data.Word

/-! The disassembler: one listed instruction after the other, with names and immediates. -/

namespace MiniEvm

/-- One listed instruction. -/
structure Instruction where
  pc : Nat
  opcode : UInt8
  mnemonic : String
  pushBytes : Option Bytes
  deriving DecidableEq

/-- The printed name of a byte; several opcodes that the interpreter knows have none here. -/
def opcodeMnemonic (opcode : UInt8) : String :=
  match opcode.toNat with
  | 0x00 => "STOP"
  | 0x01 => "ADD"
  | 0x02 => "MUL"
  | 0x03 => "SUB"
  | 0x04 => "DIV"
  | 0x05 => "SDIV"
  | 0x06 => "MOD"
  | 0x07 => "SMOD"
  | 0x08 => "ADDMOD"
  | 0x09 => "MULMOD"
  | 0x0A => "EXP"
  | 0x0B => "SIGNEXTEND"
  | 0x10 => "LT"
  | 0x11 => "GT"
  | 0x14 => "EQ"
  | 0x15 => "ISZERO"
  | 0x16 => "AND"
  | 0x17 => "OR"
  | 0x18 => "XOR"
  | 0x19 => "NOT"
  | 0x1A => "BYTE"
  | 0x1B => "SHL"
  | 0x1C => "SHR"
  | 0x1D => "SAR"
  | 0x20 => "KECCAK256"
  | 0x30 => "ADDRESS"
  | 0x32 => "ORIGIN"
  | 0x33 => "CALLER"
  | 0x34 => "CALLVALUE"
  | 0x35 => "CALLDATALOAD"
  | 0x36 => "CALLDATASIZE"
  | 0x37 => "CALLDATACOPY"
  | 0x38 => "CODESIZE"
  | 0x39 => "CODECOPY"
  | 0x3A => "GASPRICE"
  | 0x3D => "RETURNDATASIZE"
  | 0x3E => "RETURNDATACOPY"
  | 0x41 => "COINBASE"
  | 0x42 => "TIMESTAMP"
  | 0x43 => "NUMBER"
  | 0x44 => "PREVRANDAO"
  | 0x45 => "GASLIMIT"
  | 0x46 => "CHAINID"
  | 0x48 => "BASEFEE"
  | 0x49 => "BLOBHASH"
  | 0x4A => "BLOBBASEFEE"
  | 0x51 => "MLOAD"
  | 0x52 => "MSTORE"
  | 0x53 => "MSTORE8"
  | 0x54 => "SLOAD"
  | 0x55 => "SSTORE"
  | 0x56 => "JUMP"
  | 0x57 => "JUMPI"
  | 0x59 => "MSIZE"
  | 0x5A => "GAS"
  | 0x5B => "JUMPDEST"
  | 0x5E => "MCOPY"
  | 0xF0 => "CREATE"
  | 0xF1 => "CALL"
  | 0xF3 => "RETURN"
  | 0xF4 => "DELEGATECALL"
  | 0xF5 => "CREATE2"
  | 0xFA => "STATICCALL"
  | 0xFD => "REVERT"
  | value =>
    if 0x80 ≤ value ∧ value ≤ 0x8F then "DUP" ++ toString (value - 0x7F)
    else if 0x90 ≤ value ∧ value ≤ 0x9F then "SWAP" ++ toString (value - 0x8F)
    else if 0xA0 ≤ value ∧ value ≤ 0xA4 then "LOG" ++ toString (value - 0xA0)
    else if 0x60 ≤ value ∧ value ≤ 0x7F then "PUSH" ++ toString (value - 0x5F)
    else "INVALID"

/-- The bytes behind a push, as far as the code has them. -/
def pushBytesAt (code : Bytes) (pc : Nat) (opcode : UInt8) : Option Bytes :=
  if 0x60 ≤ opcode ∧ opcode ≤ 0x7F then
    let size := opcode.toNat - 0x60 + 1
    -- Missing bytes are left out, not filled in.
    let available := min (code.length - (pc + 1)) size
    some (slice code (pc + 1) (pc + 1 + available))
  else none

/-- Lists from one position on, and stops at a push that the end of code cuts short. -/
def disassemble.walk (code : Bytes) : (fuel pc : Nat) → List Instruction
  | 0, _ => []
  | fuel + 1, pc =>
    match code[pc]? with
    | none => []
    | some opcode =>
      let pushBytes := pushBytesAt code pc opcode
      let immediateLen := (pushBytes.map List.length).getD 0
      { pc, opcode, mnemonic := opcodeMnemonic opcode, pushBytes } ::
        -- There is no whole instruction behind a push that is cut short.
        if (0x60 ≤ opcode ∧ opcode ≤ 0x7F) ∧ immediateLen < opcode.toNat - 0x60 + 1 then []
        else walk code fuel (pc + (1 + immediateLen))

/-- Lists the whole code; every round moves on, so the code's length bounds the rounds. -/
def disassemble (code : Bytes) : List Instruction := disassemble.walk code code.length 0

end MiniEvm
