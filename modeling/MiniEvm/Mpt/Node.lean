import Mathlib.Data.List.OfFn
import MiniEvm.Vm.Evm

/-! Nodes of the hexary trie, their paths in nibbles, and their encoding. -/

namespace MiniEvm

/-- Half a byte, which is how far one branch leads. -/
abbrev Nibble := Fin 16

/-- A path through the trie. -/
abbrev Nibbles := List Nibble

/-- A trie: nothing, one entry, a shared run of nibbles, or a sixteen-way branch. -/
inductive Node where
  | null
  | leaf (keyPath : Nibbles) (value : Bytes)
  | extension (keyPath : Nibbles) (child : Node)
  -- The value belongs to the path that ends at the branch itself.
  | branch (children : Nibble → Node) (value : Option Bytes)

/-- The two halves of a byte, the high one first. -/
def byteNibbles (byte : UInt8) : Nibbles :=
  [Fin.ofNat 16 (byte >>> 4).toNat, Fin.ofNat 16 (byte &&& 0x0f).toNat]

def bytesToNibbles (bytes : Bytes) : Nibbles := bytes.flatMap byteNibbles

/-- A nibble as a byte of its own. -/
def Nibble.toByte (nibble : Nibble) : UInt8 := UInt8.ofNat nibble.val

/-- Packs nibbles two to a byte; an odd one out at the end would read past the path. -/
def compactEncode.pack : Nibbles → Bytes
  | high :: low :: rest => ((high.toByte <<< 4) ||| low.toByte) :: pack rest
  -- The path handed over has an even length, so at most nothing is left.
  | _ => []

/-- The hex-prefix form of a path: a flag nibble, a padding or the odd nibble, then pairs. -/
def compactEncode (path : Nibbles) (leaf : Bool) : Bytes :=
  let odd := path.length % 2 == 1
  let flags : UInt8 := (if leaf then 2 else 0) + (if odd then 1 else 0)
  match odd, path with
  | true, first :: rest => ((flags <<< 4) ||| first.toByte) :: compactEncode.pack rest
  | _, path => (flags <<< 4) :: compactEncode.pack path

/-- Reads a path and its flag back from the hex-prefix form. -/
def compactDecode : Bytes → Nibbles × Bool
  | [] => ([], false)
  | first :: rest =>
    let flags := first >>> 4
    let odd := flags &&& 1 == 1
    let leaf := flags &&& 2 == 2
    ((if odd then [Fin.ofNat 16 (first &&& 0x0f).toNat] else []) ++ rest.flatMap byteNibbles, leaf)

/-- A length in as few big-endian bytes as it needs. -/
def lengthBytes (length : Nat) : Bytes := (beBytes 8 length).dropWhile (· = 0)

/-- The encoding of one byte string. -/
def rlpBytes (bytes : Bytes) : Bytes :=
  -- A single small byte stands for itself.
  if bytes.length = 1 ∧ bytes.all (· < 0x80) then bytes
  else if bytes.length ≤ 55 then UInt8.ofNat (0x80 + bytes.length) :: bytes
  else
    let length := lengthBytes bytes.length
    UInt8.ofNat (0xb7 + length.length) :: (length ++ bytes)

/-- The encoding of a list whose items are encoded already. -/
def rlpList (items : List Bytes) : Bytes :=
  let payload := items.flatten
  if payload.length ≤ 55 then UInt8.ofNat (0xc0 + payload.length) :: payload
  else
    let length := lengthBytes payload.length
    UInt8.ofNat (0xf7 + length.length) :: (length ++ payload)

/-- How a parent names an encoded child: by itself when short, else by its hash. -/
def reference (host : Host) (encoded : Bytes) : Bytes :=
  -- The bare hash is used, without the length byte that a string of its size would carry.
  if encoded.length ≥ 32 then toBeBytes (host.keccak256 encoded) else encoded

/-- The encoding of a node, with its children by reference. -/
def rlpEncode (host : Host) : Node → Bytes
  | .null => rlpBytes []
  | .leaf keyPath value => rlpList [rlpBytes (compactEncode keyPath true), rlpBytes value]
  | .extension keyPath child =>
    rlpList [rlpBytes (compactEncode keyPath false), reference host (rlpEncode host child)]
  | .branch children value =>
    rlpList ((List.ofFn fun nibble => reference host (rlpEncode host (children nibble))) ++
      [rlpBytes (value.getD [])])

def nodeReference (host : Host) (node : Node) : Bytes := reference host (rlpEncode host node)

end MiniEvm
