import MiniEvm.Data.Word

/-! The opcodes the interpreter knows and their static gas costs. -/

namespace MiniEvm

/-- An opcode with a handler of its own, or the one shared by all other bytes. -/
inductive Opcode where
  | stop | add | mul | sub | div | sdiv | mod | smod | addmod | mulmod | exp | signextend
  | lt | gt | eq | iszero | and | or | xor | not | byte | shl | shr | sar
  | keccak256
  | address | balance | origin | caller | callvalue | calldataload | calldatasize
  | calldatacopy | codesize | codecopy | gasprice | extcodesize | extcodecopy
  | returndatasize | returndatacopy | extcodehash
  | blockhash | coinbase | timestamp | number | prevrandao | gaslimit | chainid
  | selfbalance | basefee | blobhash | blobbasefee
  | mload | mstore | mstore8 | sload | sstore | jump | jumpi | msize | gas | jumpdest
  | tload | tstore | mcopy
  -- The two shortest pushes have handlers apart from the generic one.
  | push1 | push2 | push (size : Nat)
  | dup (depth : Nat) | swap (depth : Nat) | log (topics : Nat)
  | create | call | return_ | delegatecall | create2 | staticcall | revert | invalid
  | selfdestruct
  -- Every byte without a handler, such as 0x50 or 0x5f.
  | undefined
  deriving DecidableEq

namespace Opcode

/-- The opcode a byte of code stands for. -/
def ofByte (op : UInt8) : Opcode :=
  match op.toNat with
  | 0x00 => stop
  | 0x01 => add
  | 0x02 => mul
  | 0x03 => sub
  | 0x04 => div
  | 0x05 => sdiv
  | 0x06 => mod
  | 0x07 => smod
  | 0x08 => addmod
  | 0x09 => mulmod
  | 0x0A => exp
  | 0x0B => signextend
  | 0x10 => lt
  | 0x11 => gt
  | 0x14 => eq
  | 0x15 => iszero
  | 0x16 => and
  | 0x17 => or
  | 0x18 => xor
  | 0x19 => not
  | 0x1A => byte
  | 0x1B => shl
  | 0x1C => shr
  | 0x1D => sar
  | 0x20 => keccak256
  | 0x30 => address
  | 0x31 => balance
  | 0x32 => origin
  | 0x33 => caller
  | 0x34 => callvalue
  | 0x35 => calldataload
  | 0x36 => calldatasize
  | 0x37 => calldatacopy
  | 0x38 => codesize
  | 0x39 => codecopy
  | 0x3A => gasprice
  | 0x3B => extcodesize
  | 0x3C => extcodecopy
  | 0x3D => returndatasize
  | 0x3E => returndatacopy
  | 0x3F => extcodehash
  | 0x40 => blockhash
  | 0x41 => coinbase
  | 0x42 => timestamp
  | 0x43 => number
  | 0x44 => prevrandao
  | 0x45 => gaslimit
  | 0x46 => chainid
  | 0x47 => selfbalance
  | 0x48 => basefee
  | 0x49 => blobhash
  | 0x4A => blobbasefee
  | 0x51 => mload
  | 0x52 => mstore
  | 0x53 => mstore8
  | 0x54 => sload
  | 0x55 => sstore
  | 0x56 => jump
  | 0x57 => jumpi
  | 0x59 => msize
  | 0x5A => gas
  | 0x5B => jumpdest
  | 0x5C => tload
  | 0x5D => tstore
  | 0x5E => mcopy
  | 0x60 => push1
  | 0x61 => push2
  | 0xF0 => create
  | 0xF1 => call
  | 0xF3 => return_
  | 0xF4 => delegatecall
  | 0xF5 => create2
  | 0xFA => staticcall
  | 0xFD => revert
  | 0xFE => invalid
  | 0xFF => selfdestruct
  | value =>
    if 0x62 ≤ value ∧ value ≤ 0x7F then push (value - 0x5F)
    else if 0x80 ≤ value ∧ value ≤ 0x8F then dup (value - 0x7F)
    else if 0x90 ≤ value ∧ value ≤ 0x9F then swap (value - 0x8F)
    else if 0xA0 ≤ value ∧ value ≤ 0xA4 then log (value - 0xA0)
    else undefined

/-- The gas charged before the handler runs, zero where the handler charges by itself. -/
def gasTable : Opcode → Nat
  | add | sub | lt | gt | eq | iszero | and | or | xor | not | byte | shl | shr | sar => 3
  | mul | div | sdiv | mod | smod | signextend => 5
  | addmod | mulmod => 8
  | exp => 10
  | keccak256 => 30
  | address | caller | callvalue | calldatasize | codesize | gasprice | origin | coinbase
  | timestamp | number | prevrandao | gaslimit | chainid | basefee | blobbasefee | gas
  | returndatasize | msize => 2
  | blockhash => 20
  | selfbalance => 5
  | calldataload | calldatacopy | codecopy | blobhash | returndatacopy => 3
  | mload | mstore | mstore8 | push1 | push2 | push _ | dup _ | swap _ => 3
  | jumpdest => 1
  | jump => 8
  | jumpi => 10
  | tload | tstore => 100
  | stop | balance | extcodesize | extcodecopy | extcodehash | sload | sstore | mcopy | log _
  | create | call | return_ | delegatecall | create2 | staticcall | revert | invalid
  | selfdestruct | undefined => 0

end Opcode

end MiniEvm
