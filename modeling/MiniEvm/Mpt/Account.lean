import MiniEvm.Mpt.Node

/-! Accounts as the values of the state trie. -/

namespace MiniEvm

/-- What the state trie holds of one account. -/
structure StateAccount where
  nonce : Nat
  balance : Word
  storageRoot : Word
  codeHash : Word

namespace StateAccount

/-- The encoding of a string that is known to be short. -/
def rlpEncode.bytes (value : Bytes) : Bytes :=
  -- The fields are at most 32 bytes long, so no length of a length is ever written.
  if value.length = 1 ∧ value.all (· < 0x80) then value
  else UInt8.ofNat (0x80 + value.length) :: value

/-- The encoding of a 64-bit number without its leading zeros. -/
def rlpEncode.integer (value : Nat) : Bytes :=
  if value = 0 then rlpEncode.bytes [] else rlpEncode.bytes ((beBytes 8 value).dropWhile (· = 0))

/-- The four fields as one encoded list. -/
def rlpEncode (account : StateAccount) : Bytes :=
  let fields := [
    rlpEncode.integer account.nonce,
    rlpEncode.bytes ((toBeBytes account.balance).dropWhile (· = 0)),
    rlpEncode.bytes (toBeBytes account.storageRoot),
    rlpEncode.bytes (toBeBytes account.codeHash)]
  let payload := fields.flatten
  if payload.length ≤ 55 then UInt8.ofNat (0xc0 + payload.length) :: payload
  else
    let length := lengthBytes payload.length
    UInt8.ofNat (0xf7 + length.length) :: (length ++ payload)

end StateAccount

end MiniEvm
