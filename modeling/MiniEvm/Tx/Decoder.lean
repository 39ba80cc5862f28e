import MiniEvm.Tx.Rlp
import MiniEvm.Vm.Runner

/-! Decoding raw transactions, and recovering who signed them. -/

namespace MiniEvm

inductive TxDecodeError where
  | invalidRlp
  | unsupportedType
  | invalidSignature
  | recoveryFailed
  deriving DecidableEq

/-- The curve operations of the `secp256k1` crate. -/
structure Secp256k1 where
  -- Whether sixty-four bytes are two numbers that a signature can have.
  parseCompact : Bytes → Bool
  -- The two coordinates of the key behind a digest, a signature and a recovery id.
  recoverEcdsa : Word → Bytes → Nat → Option Bytes

section Conversions

variable {ε : Type}

/-- An address from exactly twenty bytes; any other number of them panics. -/
def Address.fromSlice (bytes : Bytes) : Except (Failure ε) Address :=
  if bytes.length = 20 then .ok (accountAddress (fromBeBytes bytes)) else .error .panic

/-- Copies into a range of equal length; any other length panics. -/
def copyFromSlice (size : Nat) (source : Bytes) : Except (Failure ε) Bytes :=
  if source.length = size then .ok source else .error .panic

end Conversions

/-- The last bytes of a slice, with zeros in front if there are too few. -/
def padZeroLeft (bytes : Bytes) (len : Nat) : Bytes :=
  if len ≤ bytes.length then bytes.drop (bytes.length - len)
  else List.replicate (len - bytes.length) 0 ++ bytes

/-- The address whose key signed a digest. -/
def recoverSender (host : Host) (curve : Secp256k1) (sighash : Word) (r s : Bytes) (recId : Nat) :
    Except (Failure TxDecodeError) Address := do
  let r ← copyFromSlice 32 (padZeroLeft r 32)
  let s ← copyFromSlice 32 (padZeroLeft s 32)
  -- Nothing is asked of s but what the parser asks, and it may be a high one.
  if 3 < recId then refuse .invalidSignature
  else if curve.parseCompact (r ++ s) = false then refuse .invalidSignature
  else
    match curve.recoverEcdsa sighash (r ++ s) recId with
    | none => refuse .recoveryFailed
    | some key =>
      -- The address is the end of the hash of the key.
      let pubHash ← bytesBetween (toBeBytes (host.keccak256 key)) 12 32
      Address.fromSlice pubHash

/-- The items of a signed transaction, as they are decoded. -/
structure TxFields where
  chainId : Option Nat
  nonce : Nat
  gasLimit : Nat
  maxFeePerGas : Word
  maxPriorityFeePerGas : Word
  to_ : Option Address
  value : Word
  data : Bytes
  r : Bytes
  s : Bytes
  recId : Nat
  deriving DecidableEq

/-- The question mark on a decoder error, whichever it is. -/
def orInvalidRlp {α : Type} : Decoded α → Except (Failure TxDecodeError) α
  | .ok result => .ok result
  | .error (.error _) => .error (.error .invalidRlp)
  | .error .panic => .error .panic

/-- Reads from a view, with the decoder's errors converted. -/
def Reading.orInvalid {α : Type} (reading : Reading DecoderError α) : Reading TxDecodeError α :=
  fun rlp => (orInvalidRlp (reading rlp).1, (reading rlp).2)

/-- A step that reads nothing. -/
def Reading.lift {ε α : Type} (result : Except (Failure ε) α) : Reading ε α :=
  fun rlp => (result, rlp)

/-- The receiver; no bytes mean that a contract is created. -/
def receiver {ε : Type} (toBytes : Bytes) : Except (Failure ε) (Option Address) :=
  if toBytes.isEmpty then .ok none else some <$> Address.fromSlice toBytes

/-- Refuses what is no list or has too few items; more items are ignored. -/
def requireItems (count : Nat) : Reading TxDecodeError Unit := fun rlp =>
  if rlp.isList then
    match Rlp.itemCount.orInvalid rlp with
    | (.ok found, next) => if found < count then (refuse .invalidRlp, next) else (.ok (), next)
    | (.error failure, next) => (.error failure, next)
  else (refuse .invalidRlp, rlp)

/-- Reads the twelve items of a dynamic fee transaction, all but the access list. -/
def readEip1559 : Reading TxDecodeError TxFields := do
  requireItems 12
  let chainId ← (Rlp.valAt decodeU64 0).orInvalid
  let nonce ← (Rlp.valAt decodeU64 1).orInvalid
  let maxPriorityFeePerGas ← (Rlp.valAt decodeU256 2).orInvalid
  let maxFeePerGas ← (Rlp.valAt decodeU256 3).orInvalid
  let gasLimit ← (Rlp.valAt decodeU64 4).orInvalid
  let toBytes ← (Rlp.valAt decodeBytes 5).orInvalid
  let to_ ← Reading.lift (receiver toBytes)
  let value ← (Rlp.valAt decodeU256 6).orInvalid
  let data ← (Rlp.valAt decodeBytes 7).orInvalid
  -- Item 8, the access list, is passed over.
  let yParity ← (Rlp.valAt decodeU8 9).orInvalid
  let r ← (Rlp.valAt decodeBytes 10).orInvalid
  let s ← (Rlp.valAt decodeBytes 11).orInvalid
  pure {
    chainId := some chainId, nonce, gasLimit, maxFeePerGas, maxPriorityFeePerGas, to_, value, data,
    r, s, recId := yParity }

/-- The chain and the recovery id that the last number of a signature stands for. -/
def signatureParity (v : Nat) : Except (Failure TxDecodeError) (Option Nat × Nat) :=
  -- From 35 on the number tells the chain besides the parity, as EIP-155 has it.
  if 35 ≤ v then .ok (some ((v - 35) / 2), (v - 35) % 2)
  else if v = 27 ∨ v = 28 then .ok (none, v - 27)
  else refuse .invalidSignature

/-- Reads the nine items of a legacy transaction, whose gas price is both fees. -/
def readLegacy : Reading TxDecodeError TxFields := do
  requireItems 9
  let nonce ← (Rlp.valAt decodeU64 0).orInvalid
  let gasPrice ← (Rlp.valAt decodeU256 1).orInvalid
  let gasLimit ← (Rlp.valAt decodeU64 2).orInvalid
  let toBytes ← (Rlp.valAt decodeBytes 3).orInvalid
  let to_ ← Reading.lift (receiver toBytes)
  let value ← (Rlp.valAt decodeU256 4).orInvalid
  let data ← (Rlp.valAt decodeBytes 5).orInvalid
  let v ← (Rlp.valAt decodeU64 6).orInvalid
  let r ← (Rlp.valAt decodeBytes 7).orInvalid
  let s ← (Rlp.valAt decodeBytes 8).orInvalid
  let parity ← Reading.lift (signatureParity v)
  pure {
    chainId := parity.1, nonce, gasLimit, maxFeePerGas := gasPrice,
    maxPriorityFeePerGas := gasPrice, to_, value, data, r, s, recId := parity.2 }

section Unsigned

variable {ε : Type}

/-- The bytes that stand for the receiver. -/
def receiverBytes : Option Address → Bytes
  | some address => beBytes 20 address.toNat
  | none => []

/-- What the signer of a dynamic fee transaction should have hashed, with no access list. -/
def TxFields.unsignedEip1559 (fields : TxFields) : Except (Failure ε) Bytes := do
  let stream ← RlpStream.beginList 9 {}
  let stream ← stream.append (u64Bytes (fields.chainId.getD 0))
  let stream ← stream.append (u64Bytes fields.nonce)
  let stream ← stream.append (u256Bytes fields.maxPriorityFeePerGas)
  let stream ← stream.append (u256Bytes fields.maxFeePerGas)
  let stream ← stream.append (u64Bytes fields.gasLimit)
  let stream ← stream.append (receiverBytes fields.to_)
  let stream ← stream.append (u256Bytes fields.value)
  let stream ← stream.append fields.data
  -- Whatever list was received, an empty one is hashed.
  let stream ← stream.appendList []
  let out ← stream.out
  pure (0x02 :: out)

/-- What the signer of a legacy transaction should have hashed. -/
def TxFields.unsignedLegacy (fields : TxFields) : Except (Failure ε) Bytes := do
  let stream ← RlpStream.beginList (if fields.chainId.isSome then 9 else 6) {}
  let stream ← stream.append (u64Bytes fields.nonce)
  let stream ← stream.append (u256Bytes fields.maxFeePerGas)
  let stream ← stream.append (u64Bytes fields.gasLimit)
  let stream ← stream.append (receiverBytes fields.to_)
  let stream ← stream.append (u256Bytes fields.value)
  let stream ← stream.append fields.data
  match fields.chainId with
  | none => stream.out
  -- With a chain, EIP-155 has it signed along with two empty items.
  | some cid =>
    let stream ← stream.append (u64Bytes cid)
    let stream ← stream.appendEmptyData
    let stream ← stream.appendEmptyData
    stream.out

end Unsigned

/-- Recovers the sender of what was read. -/
def TxFields.signed (host : Host) (curve : Secp256k1) (txHash : Word) (txType : TxType)
    (fields : TxFields) (unsigned : Bytes) : Except (Failure TxDecodeError) SignedTransaction := do
  let sender ← recoverSender host curve (host.keccak256 unsigned) fields.r fields.s fields.recId
  pure {
    hash := txHash, txType, chainId := fields.chainId, nonce := fields.nonce,
    gasLimit := fields.gasLimit, maxFeePerGas := fields.maxFeePerGas,
    maxPriorityFeePerGas := fields.maxPriorityFeePerGas, to_ := fields.to_, value := fields.value,
    data := fields.data, sender }

def decodeEip1559 (host : Host) (curve : Secp256k1) (payload : Bytes) (txHash : Word) :
    Except (Failure TxDecodeError) SignedTransaction := do
  let fields ← (readEip1559 (Rlp.new payload)).1
  let unsigned ← fields.unsignedEip1559
  fields.signed host curve txHash .eip1559 unsigned

def decodeLegacy (host : Host) (curve : Secp256k1) (rawBytes : Bytes) (txHash : Word) :
    Except (Failure TxDecodeError) SignedTransaction := do
  let fields ← (readLegacy (Rlp.new rawBytes)).1
  let unsigned ← fields.unsignedLegacy
  fields.signed host curve txHash .legacy unsigned

/-- Decodes a raw transaction, whose first byte tells its type. -/
def decodeRawTx (host : Host) (curve : Secp256k1) (rawBytes : Bytes) :
    Except (Failure TxDecodeError) SignedTransaction :=
  match rawBytes with
  | [] => refuse .invalidRlp
  | first :: rest =>
    -- The hash is that of all bytes, those that are ignored included.
    let txHash := host.keccak256 rawBytes
    if first = 0x02 then decodeEip1559 host curve rest txHash
    else if 0xc0 ≤ first then decodeLegacy host curve (first :: rest) txHash
    else refuse .unsupportedType

end MiniEvm
