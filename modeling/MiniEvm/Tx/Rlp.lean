import MiniEvm.Data.Word

/-! The vendored `rlp` crate as far as transactions use it: views of items, and output streams. -/

namespace MiniEvm

/-- How a call ends without a value: with an error, or in a panic of the thread. -/
inductive Failure (ε : Type) where
  | error (cause : ε)
  | panic
  deriving DecidableEq

section Memory

variable {ε : Type}

/-- A range of a slice; one that does not lie inside panics. -/
def bytesBetween (bytes : Bytes) (start stop : Nat) : Except (Failure ε) Bytes :=
  if start ≤ stop ∧ stop ≤ bytes.length then .ok (slice bytes start stop) else .error .panic

/-- One byte of a slice; an index past its end panics. -/
def indexed (bytes : Bytes) (index : Nat) : Except (Failure ε) UInt8 :=
  match bytes[index]? with
  | some byte => .ok byte
  | none => .error .panic

/-- Sets the byte before a position. -/
def setBefore (buffer : Bytes) (position : Nat) (byte : UInt8) : Except (Failure ε) Bytes :=
  if 0 < position ∧ position ≤ buffer.length then .ok (buffer.set (position - 1) byte)
  else .error .panic

end Memory

inductive DecoderError where
  | rlpIsTooBig
  | rlpIsTooShort
  | rlpExpectedToBeList
  | rlpExpectedToBeData
  | rlpDataLenWithZeroPrefix
  | rlpInvalidIndirection
  | rlpInconsistentLengthAndData
  deriving DecidableEq

/-- What decoding gives. -/
abbrev Decoded (α : Type) := Except (Failure DecoderError) α

/-- An error value, as opposed to a panic. -/
def refuse {ε α : Type} (cause : ε) : Except (Failure ε) α := .error (.error cause)

section Items

/-- The sum of all bytes, each shifted to its place. -/
def shiftedSum (bytes : Bytes) : Nat :=
  (bytes.mapIdx fun i byte => byte.toNat <<< ((bytes.length - 1 - i) * 8)).foldr (· + ·) 0

def decodeUsize (bytes : Bytes) : Decoded Nat :=
  if bytes.length ≤ 8 then do
    let first ← indexed bytes 0
    if first = 0 then refuse .rlpInvalidIndirection else pure (shiftedSum bytes)
  else refuse .rlpIsTooBig

/-- How many bytes come before the payload of an item, and how many it has. -/
structure PayloadInfo where
  headerLen : Nat
  valueLen : Nat
  deriving DecidableEq

def PayloadInfo.total (info : PayloadInfo) : Nat := info.headerLen + info.valueLen

/-- The header of a long item, whose length is written out. -/
def calculatePayloadInfo (headerBytes : Bytes) (lenOfLen : Nat) : Decoded PayloadInfo :=
  match headerBytes[1]? with
  | none => refuse .rlpIsTooShort
  | some byte =>
    if byte = 0 then refuse .rlpDataLenWithZeroPrefix
    else if headerBytes.length < 1 + lenOfLen then refuse .rlpIsTooShort
    else do
      let lenBytes ← bytesBetween headerBytes 1 (1 + lenOfLen)
      let valueLen ← decodeUsize lenBytes
      if valueLen ≤ 55 then refuse .rlpInvalidIndirection else pure ⟨1 + lenOfLen, valueLen⟩

def PayloadInfo.from_ : Bytes → Decoded PayloadInfo
  | [] => refuse .rlpIsTooShort
  | l :: rest =>
    if l ≤ 0x7f then pure ⟨0, 1⟩
    else if l ≤ 0xb7 then pure ⟨1, l.toNat - 0x80⟩
    else if l ≤ 0xbf then calculatePayloadInfo (l :: rest) (l.toNat - 0xb7)
    else if l ≤ 0xf7 then pure ⟨1, l.toNat - 0xc0⟩
    else calculatePayloadInfo (l :: rest) (l.toNat - 0xf7)

/-- The header of the first item, if the slice holds all of that item. -/
def payloadInfo (bytes : Bytes) : Decoded PayloadInfo := do
  let item ← PayloadInfo.from_ bytes
  -- A sum for which the checked addition fails is longer than any slice, and refused as well.
  if item.total ≤ bytes.length then pure item else refuse .rlpIsTooShort

/-- Hands the payload of an item that is a string to a function. -/
def decodeValue {α : Type} (f : Bytes → Decoded α) : Bytes → Decoded α
  | [] => refuse .rlpIsTooShort
  | l :: rest =>
    if l ≤ 0x7f then f [l]
    else if l ≤ 0xb7 then
      if (l :: rest).length < 1 + (l.toNat - 0x80) then refuse .rlpInconsistentLengthAndData
      else do
        let d ← bytesBetween (l :: rest) 1 (1 + (l.toNat - 0x80))
        if l = 0x81 then
          let first ← indexed d 0
          if first < 0x80 then refuse .rlpInvalidIndirection else f d
        else f d
    else if l ≤ 0xbf then
      let beginOfValue := 1 + (l.toNat - 0xb7)
      if (l :: rest).length < beginOfValue then refuse .rlpInconsistentLengthAndData
      else do
        let lenBytes ← bytesBetween (l :: rest) 1 beginOfValue
        let len ← decodeUsize lenBytes
        if (l :: rest).length < beginOfValue + len then refuse .rlpInconsistentLengthAndData
        else
          let d ← bytesBetween (l :: rest) beginOfValue (beginOfValue + len)
          f d
    else refuse .rlpExpectedToBeData

def decodeU8 : Bytes → Decoded Nat :=
  decodeValue fun
    | [] => pure 0
    | [byte] => if byte ≠ 0 then pure byte.toNat else refuse .rlpInvalidIndirection
    | _ => refuse .rlpIsTooBig

def decodeU64 (item : Bytes) : Decoded Nat :=
  decodeValue (fun bytes =>
    -- At most one byte is left to the decoder of bytes, which reads the item again.
    if bytes.length ≤ 1 then decodeU8 item
    else if bytes.length ≤ 8 then do
      let first ← indexed bytes 0
      if first = 0 then refuse .rlpInvalidIndirection else pure (shiftedSum bytes)
    else refuse .rlpIsTooBig) item

def decodeU256 : Bytes → Decoded Word :=
  decodeValue fun bytes =>
    if bytes.head? = some 0 then refuse .rlpInvalidIndirection
    else if bytes.length ≤ 32 then pure (fromBeBytes bytes)
    else refuse .rlpIsTooBig

def decodeBytes : Bytes → Decoded Bytes := decodeValue pure

end Items

/-- Where the item of an index begins. -/
structure OffsetCache where
  index : Nat
  offset : Nat
  deriving DecidableEq

/-- A view of encoded bytes, which remembers the last item it found and how many there are. -/
structure Rlp where
  bytes : Bytes
  offsetCache : Option OffsetCache := none
  countCache : Option Nat := none

/-- A computation that reads from a view, and moves its caches even when it fails. -/
def Reading (ε α : Type) := Rlp → Except (Failure ε) α × Rlp

instance {ε : Type} : Monad (Reading ε) where
  pure result := fun rlp => (.ok result, rlp)
  bind reading rest := fun rlp =>
    match reading rlp with
    | (.ok result, next) => rest result next
    | (.error failure, next) => (.error failure, next)

namespace Rlp

def new (bytes : Bytes) : Rlp := { bytes }

def isList (rlp : Rlp) : Bool := rlp.bytes.head?.any (0xc0 ≤ ·)

/-- Leaves a number of bytes behind. -/
def consume (bytes : Bytes) (len : Nat) : Decoded Bytes :=
  if len ≤ bytes.length then pure (bytes.drop len) else refuse .rlpIsTooShort

/-- Leaves a number of items behind, and adds up their lengths. -/
def consumeItems : (items : Nat) → (result : Bytes) → (consumed : Nat) → Decoded (Bytes × Nat)
  | 0, result, consumed => pure (result, consumed)
  | items + 1, result, consumed => do
    let i ← payloadInfo result
    let rest ← consume result i.total
    consumeItems items rest (consumed + i.total)

/-- The payload of a list, and where it begins. -/
def consumeListPayload (rlp : Rlp) : Decoded (Bytes × Nat) := do
  let item ← payloadInfo rlp.bytes
  if rlp.bytes.length < item.total then refuse .rlpIsTooShort
  else
    let payload ← bytesBetween rlp.bytes item.headerLen item.total
    pure (payload, item.headerLen)

/-- Finds the bytes that begin with an item, and where they begin. -/
def seek (rlp : Rlp) (index : Nat) : Decoded (Bytes × Nat) :=
  let fromStart : Decoded (Bytes × Nat) := do
    let (bytes, before) ← rlp.consumeListPayload
    let (bytes, consumed) ← consumeItems index bytes 0
    pure (bytes, before + consumed)
  match rlp.offsetCache with
  | none => fromStart
  | some cache =>
    if cache.index ≤ index then do
      -- From here on nothing stops at the end of the list.
      let bytes ← consume rlp.bytes cache.offset
      let (bytes, consumed) ← consumeItems (index - cache.index) bytes 0
      pure (bytes, cache.offset + consumed)
    else fromStart

def atWithOffset (index : Nat) : Reading DecoderError (Rlp × Nat) := fun rlp =>
  if rlp.isList then
    match rlp.seek index with
    | .error failure => (.error failure, rlp)
    | .ok (bytes, offset) =>
      let found : Decoded (Rlp × Nat) := do
        let found ← payloadInfo bytes
        let item ← bytesBetween bytes 0 found.total
        pure (new item, offset)
      -- The cache moves before it is known whether an item is there.
      (found, { rlp with offsetCache := some ⟨index, offset⟩ })
  else (refuse .rlpExpectedToBeList, rlp)

def at_ (index : Nat) : Reading DecoderError Rlp := do
  let found ← atWithOffset index
  pure found.1

/-- Counts items by asking for one after the other until one is refused. -/
def itemCount.count : (fuel : Nat) → (index : Nat) → Reading DecoderError Nat
  | 0, index => pure index
  | fuel + 1, index => fun rlp =>
    match at_ index rlp with
    | (.ok _, next) => count fuel (index + 1) next
    | (.error (.error _), next) => (.ok index, next)
    | (.error .panic, next) => (.error .panic, next)

def itemCount : Reading DecoderError Nat := fun rlp =>
  if rlp.isList then
    match rlp.countCache with
    | some c => (.ok c, rlp)
    | none =>
      -- Every item takes a byte, so there are no more of them than bytes.
      match itemCount.count (rlp.bytes.length + 1) 0 rlp with
      | (.ok c, next) => (.ok c, { next with countCache := some c })
      | (.error failure, next) => (.error failure, next)
  else (refuse .rlpExpectedToBeList, rlp)

/-- Decodes the item of an index. -/
def valAt {α : Type} (decode : Bytes → Decoded α) (index : Nat) : Reading DecoderError α :=
  fun rlp =>
    match at_ index rlp with
    | (.ok item, next) => (decode item.bytes, next)
    | (.error failure, next) => (.error failure, next)

end Rlp

section Encodings

/-- How many bits a number needs. -/
def bitLength (number : Nat) : Nat := if number = 0 then 0 else number.log2 + 1

def leadingZeros (width number : Nat) : Nat := width - bitLength number

/-- The bytes that a 64-bit number is encoded as. -/
def u64Bytes (number : Nat) : Bytes := (beBytes 8 number).drop (leadingZeros 64 number / 8)

/-- The bytes that a word is encoded as. -/
def u256Bytes (word : Word) : Bytes :=
  (toBeBytes word).drop (32 - (bitLength word.toNat + 7) / 8)

/-- A list that is being written, and the number of its items so far and at the end. -/
structure ListInfo where
  position : Nat
  current : Nat
  max : Nat

structure RlpStream where
  -- The innermost list comes first.
  unfinishedLists : List ListInfo := []
  buffer : Bytes := []

namespace RlpStream

variable {ε : Type}

/-- Puts a size into the buffer, of which only 32 bits are kept. -/
def insertSize (buffer : Bytes) (size position : Nat) : Except (Failure ε) (Bytes × Nat) :=
  let size := size % 2 ^ 32
  let leadingEmptyBytes := leadingZeros 32 size / 8
  if position ≤ buffer.length then
    .ok (buffer.take position ++ (beBytes 4 size).drop leadingEmptyBytes ++ buffer.drop position,
      4 - leadingEmptyBytes)
  else .error .panic

/-- Completes the header of a list, for which one byte was left free. -/
def insertListPayload (buffer : Bytes) (len pos : Nat) : Except (Failure ε) Bytes :=
  if len ≤ 55 then setBefore buffer pos (UInt8.ofNat (0xc0 + len))
  else do
    let (buffer, insertedBytes) ← insertSize buffer len pos
    setBefore buffer pos (UInt8.ofNat (0xf7 + insertedBytes))

/-- Writes a string behind the buffer. -/
def encodeValue (buffer value : Bytes) : Except (Failure ε) Bytes :=
  match value with
  | [] => .ok (buffer ++ [0x80])
  | first :: rest =>
    let len := (first :: rest).length
    if len ≤ 55 then
      if len = 1 ∧ first < 0x80 then .ok (buffer ++ [first])
      else .ok (buffer ++ [UInt8.ofNat (0x80 + len)] ++ (first :: rest))
    else do
      let position := (buffer ++ [0]).length
      let (buffer, insertedBytes) ← insertSize (buffer ++ [0]) len position
      let buffer ← setBefore buffer position (UInt8.ofNat (0xb7 + insertedBytes))
      .ok (buffer ++ (first :: rest))

/-- Counts what was appended, and completes the lists that are full now. -/
def noteAppended (insertedItems : Nat) :
    (unfinishedLists : List ListInfo) → (buffer : Bytes) → Except (Failure ε) RlpStream
  | [], buffer => .ok ⟨[], buffer⟩
  | x :: outer, buffer =>
    if x.max < x.current + insertedItems then .error .panic
    else if x.current + insertedItems = x.max then do
      let buffer ← insertListPayload buffer (buffer.length - x.position) x.position
      noteAppended 1 outer buffer
    else .ok ⟨{ x with current := x.current + insertedItems } :: outer, buffer⟩

def beginList (len : Nat) (stream : RlpStream) : Except (Failure ε) RlpStream :=
  if len = 0 then noteAppended 1 stream.unfinishedLists (stream.buffer ++ [0xc0])
  else
    -- One byte is left free for the header.
    .ok ⟨⟨stream.buffer.length + 1, 0, len⟩ :: stream.unfinishedLists, stream.buffer ++ [0]⟩

/-- Appends a value that is encoded as a string. -/
def append (value : Bytes) (stream : RlpStream) : Except (Failure ε) RlpStream := do
  let buffer ← encodeValue stream.buffer value
  noteAppended 1 stream.unfinishedLists buffer

def appendEmptyData (stream : RlpStream) : Except (Failure ε) RlpStream :=
  noteAppended 1 stream.unfinishedLists (stream.buffer ++ [0x80])

def appendList (values : List Bytes) (stream : RlpStream) : Except (Failure ε) RlpStream := do
  let stream ← beginList values.length stream
  values.foldlM (fun stream value => append value stream) stream

/-- The encoded bytes; a list that still lacks items panics. -/
def out (stream : RlpStream) : Except (Failure ε) Bytes :=
  match stream.unfinishedLists with
  | [] => .ok stream.buffer
  | _ :: _ => .error .panic

end RlpStream

end Encodings

end MiniEvm
