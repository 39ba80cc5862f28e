import MiniEvm.Proofs.Tx.Rlp
import MiniEvm.Tx.Decoder

/-! What streams write: the standard encoding, as long as lengths fit into 32 bits. -/

namespace MiniEvm

open BigEndian RlpFormat

section Writing

variable {ε : Type}

/-- The header of a long string or list, of whose length only 32 bits are kept. -/
def lossyHeader (base length : Nat) : Bytes :=
  UInt8.ofNat (base + (digits (length % 2 ^ 32)).length) :: digits (length % 2 ^ 32)

/-- The string as a stream encodes it. -/
def lossyString (bytes : Bytes) : Bytes :=
  if bytes.length = 1 ∧ bytes.all (· < 0x80) then bytes
  else if bytes.length ≤ 55 then UInt8.ofNat (0x80 + bytes.length) :: bytes
  else lossyHeader 0xb7 bytes.length ++ bytes

/-- The list as a stream encodes it. -/
def lossyList (items : List Bytes) : Bytes :=
  if items.flatten.length ≤ 55 then UInt8.ofNat (0xc0 + items.flatten.length) :: items.flatten
  else lossyHeader 0xf7 items.flatten.length ++ items.flatten

/-- A length of 32 bits is written in full. -/
theorem lossyHeader_eq {base length : Nat} (small : length < 2 ^ 32) :
    lossyHeader base length = UInt8.ofNat (base + (digits length).length) :: digits length := by
  rw [lossyHeader, Nat.mod_eq_of_lt small]

/-- A string that short is written as the standard asks for. -/
theorem lossyString_eq {bytes : Bytes} (small : bytes.length < 2 ^ 32) :
    lossyString bytes = encodeString bytes := by
  rw [lossyString, encodeString, lossyHeader_eq small, List.cons_append]

/-- A list with less than 2^32 bytes in it is written as the standard asks for. -/
theorem lossyList_eq {items : List Bytes} (small : items.flatten.length < 2 ^ 32) :
    lossyList items = encodeList items := by
  rw [lossyList, encodeList, lossyHeader_eq small, List.cons_append]

/-- The header of a list too long for 32 bits is none that a stream writes. -/
theorem lossyList_ne {items items' : List Bytes} (large : 2 ^ 32 ≤ items'.flatten.length)
    (small : items'.flatten.length < 2 ^ 64) : lossyList items ≠ encodeList items' := by
  intro same
  -- The standard length takes more than four bytes, and a stream writes four at most.
  have many : 4 < (digits items'.flatten.length).length := by
    by_contra few
    have bound := lt_of_length_digits (Nat.not_lt.mp few)
    omega
  have few : (digits items'.flatten.length).length ≤ 8 := length_digits_le small
  -- The first byte tells how many bytes the length takes.
  have heads := congrArg List.head? same
  rw [encodeList, if_neg (by omega), List.head?_cons, lossyList] at heads
  split at heads
  · have first := congrArg UInt8.toNat (Option.some.inj heads)
    rw [UInt8.toNat_ofNat', UInt8.toNat_ofNat'] at first
    omega
  · have first := congrArg UInt8.toNat (Option.some.inj heads)
    -- A stream writes its size in four bytes at most, so the first bytes differ.
    have four : (digits (items.flatten.length % 2 ^ 32)).length ≤ 4 :=
      length_digits_le (Nat.mod_lt _ (by decide))
    rw [UInt8.toNat_ofNat', UInt8.toNat_ofNat'] at first
    omega

/-- A size goes behind the byte that was left free for its header. -/
theorem insertSize_eq (before after : Bytes) (size : Nat) :
    (RlpStream.insertSize (before ++ 0 :: after) size (before.length + 1) :
      Except (Failure ε) (Bytes × Nat)) =
        .ok (before ++ 0 :: (digits (size % 2 ^ 32) ++ after), (digits (size % 2 ^ 32)).length) := by
  have small : size % 2 ^ 32 < 2 ^ (8 * 4) := Nat.mod_lt _ (by decide)
  obtain ⟨bytes, length⟩ := drop_leadingZeros small
  -- The size goes between the free byte and what was written behind it.
  have taken : (before ++ 0 :: after).take (before.length + 1) = before ++ [0] := by
    simp [List.take_append]
  have dropped : (before ++ 0 :: after).drop (before.length + 1) = after := by
    simp [List.drop_append]
  simp only [RlpStream.insertSize]
  rw [if_pos (by simp), show 32 = 8 * 4 from rfl, bytes, length, taken, dropped]
  simp

/-- The byte that was left free in front of what follows is set. -/
theorem setBefore_eq (before after : Bytes) (free byte : UInt8) :
    (setBefore (before ++ free :: after) (before.length + 1) byte : Except (Failure ε) Bytes) =
      .ok (before ++ byte :: after) := by
  rw [setBefore, if_pos ⟨by omega, by simp⟩, Nat.add_sub_cancel, List.set_append_right _ _ (Nat.le_refl _),
    Nat.sub_self, List.set_cons_zero]

/-- A value is put behind the buffer in its encoding. -/
theorem encodeValue_eq (buffer value : Bytes) :
    (RlpStream.encodeValue buffer value : Except (Failure ε) Bytes) =
      .ok (buffer ++ lossyString value) := by
  unfold RlpStream.encodeValue lossyString
  cases value with
  | nil => rfl
  | cons first rest =>
    simp only
    -- A single small byte goes as it is, the others behind a header of one byte.
    by_cases short : (first :: rest).length ≤ 55
    · rw [if_pos short, if_pos short]
      by_cases single : (first :: rest).length = 1 ∧ first < 0x80
      · obtain rfl : rest = [] := List.eq_nil_of_length_eq_zero (by simpa using single.1)
        rw [if_pos single, if_pos (by simpa using single.2)]
      · rw [if_neg single, if_neg]
        · simp
        · rintro ⟨one, small⟩
          obtain rfl : rest = [] := List.eq_nil_of_length_eq_zero (by simpa using one)
          exact single ⟨one, by simpa using small⟩
    · rw [if_neg short, if_neg (by omega), if_neg short]
      -- A long value is written as a free byte, the value, and then its size in between.
      have sized := @insertSize_eq ε buffer [] (first :: rest).length
      simp only [List.length_append, List.length_singleton, sized, bind, Except.bind, setBefore_eq,
        lossyHeader]
      simp

/-- The header of a list is completed where a byte was left free for it. -/
theorem insertListPayload_eq (items : List Bytes) :
    (RlpStream.insertListPayload (0 :: items.flatten) items.flatten.length 1 :
      Except (Failure ε) Bytes) = .ok (lossyList items) := by
  unfold RlpStream.insertListPayload lossyList
  by_cases short : items.flatten.length ≤ 55
  · rw [if_pos short, if_pos short]
    exact setBefore_eq [] items.flatten 0 _
  · rw [if_neg short, if_neg short]
    -- The size is inserted behind the free byte, which then tells how long the size is.
    have sized := @insertSize_eq ε [] items.flatten items.flatten.length
    have completed := @setBefore_eq ε []
    simp only [List.nil_append, List.length_nil, Nat.zero_add] at sized completed
    simp only [sized, bind, Except.bind, completed, lossyHeader, List.cons_append]

/-- A stream with some items of a list, and complete once it has all. -/
def written (count : Nat) (items : List Bytes) : RlpStream :=
  if items.length < count then ⟨[⟨1, items.length, count⟩], 0 :: items.flatten⟩
  else ⟨[], lossyList items⟩

/-- A list that is begun has none of its items yet. -/
theorem beginList_eq {count : Nat} (some_ : 0 < count) :
    (RlpStream.beginList count {} : Except (Failure ε) RlpStream) = .ok (written count []) := by
  -- A byte is left free for the header.
  rw [RlpStream.beginList, if_neg (by omega), written, if_pos (by simpa using some_)]
  rfl

/-- One more item, in whatever way it was put behind the buffer. -/
theorem noteAppended_eq {count : Nat} {items : List Bytes} (room : items.length < count)
    (item : Bytes) :
    (RlpStream.noteAppended 1 (written count items).unfinishedLists
      ((written count items).buffer ++ item) : Except (Failure ε) RlpStream) =
        .ok (written count (items ++ [item])) := by
  have payload : (items ++ [item]).flatten = items.flatten ++ item := by simp
  have more : (items ++ [item]).length = items.length + 1 := by simp
  rw [written, if_pos room]
  simp only [RlpStream.noteAppended, written, more]
  rw [if_neg (by omega)]
  -- The last item completes the list; its length is that of all items so far.
  by_cases full : items.length + 1 = count
  · have position : (0 :: items.flatten ++ item).length - 1 = (items ++ [item]).flatten.length := by
      rw [payload]
      simp
    rw [if_pos full, if_neg (by omega), position, List.cons_append, ← payload,
      insertListPayload_eq]
    rfl
  · rw [if_neg full, if_pos (by omega), payload]
    rfl

/-- A value is appended as one more item. -/
theorem append_eq {count : Nat} {items : List Bytes} (room : items.length < count)
    (value : Bytes) :
    (RlpStream.append value (written count items) : Except (Failure ε) RlpStream) =
      .ok (written count (items ++ [lossyString value])) := by
  simp only [RlpStream.append, encodeValue_eq, bind, Except.bind, noteAppended_eq room]

/-- The empty string is appended as one more item. -/
theorem appendEmptyData_eq {count : Nat} {items : List Bytes} (room : items.length < count) :
    (RlpStream.appendEmptyData (written count items) : Except (Failure ε) RlpStream) =
      .ok (written count (items ++ [[0x80]])) :=
  noteAppended_eq room [0x80]

/-- The empty list is appended as one more item, which is complete at once. -/
theorem appendList_nil_eq {count : Nat} {items : List Bytes} (room : items.length < count) :
    (RlpStream.appendList [] (written count items) : Except (Failure ε) RlpStream) =
      .ok (written count (items ++ [[0xc0]])) := by
  -- Beginning an empty list already notes it as an item of the list around it.
  have begun : (RlpStream.beginList 0 (written count items) : Except (Failure ε) RlpStream) =
      .ok (written count (items ++ [[0xc0]])) := noteAppended_eq room [0xc0]
  simp only [RlpStream.appendList, List.length_nil, begun]
  rfl

/-- A list that has all its items is given out with its header. -/
theorem out_eq {count : Nat} {items : List Bytes} (full : items.length = count) :
    ((written count items).out : Except (Failure ε) Bytes) = .ok (lossyList items) := by
  rw [written, if_neg (by omega)]
  rfl

/-- The items that are signed in a dynamic fee transaction. -/
def TxFields.itemsEip1559 (fields : TxFields) : List Bytes :=
  [lossyString (u64Bytes (fields.chainId.getD 0)), lossyString (u64Bytes fields.nonce),
    lossyString (u256Bytes fields.maxPriorityFeePerGas),
    lossyString (u256Bytes fields.maxFeePerGas), lossyString (u64Bytes fields.gasLimit),
    lossyString (receiverBytes fields.to_), lossyString (u256Bytes fields.value),
    lossyString fields.data, [0xc0]]

/-- What is signed in a dynamic fee transaction is the list of these items behind its type. -/
theorem unsignedEip1559_eq (fields : TxFields) :
    (fields.unsignedEip1559 : Except (Failure ε) Bytes) =
      .ok (0x02 :: lossyList fields.itemsEip1559) := by
  -- Nine items are appended, one after the other.
  simp (disch := simp) only [TxFields.unsignedEip1559, beginList_eq, append_eq, appendList_nil_eq,
    out_eq, bind, Except.bind, List.nil_append, List.cons_append]
  rfl

/-- The items that are signed in a legacy transaction; a chain adds three of them. -/
def TxFields.itemsLegacy (fields : TxFields) : List Bytes :=
  [lossyString (u64Bytes fields.nonce), lossyString (u256Bytes fields.maxFeePerGas),
    lossyString (u64Bytes fields.gasLimit), lossyString (receiverBytes fields.to_),
    lossyString (u256Bytes fields.value), lossyString fields.data] ++
  match fields.chainId with
  | none => []
  | some cid => [lossyString (u64Bytes cid), [0x80], [0x80]]

/-- What is signed in a legacy one is the list alone. -/
theorem unsignedLegacy_eq (fields : TxFields) :
    (fields.unsignedLegacy : Except (Failure ε) Bytes) = .ok (lossyList fields.itemsLegacy) := by
  unfold TxFields.unsignedLegacy TxFields.itemsLegacy
  -- Without a chain there are six items, with one there are nine.
  cases fields.chainId with
  | none =>
    simp (disch := simp) only [Option.isSome_none, Bool.false_eq_true, if_false, beginList_eq,
      append_eq, out_eq, bind, Except.bind, List.nil_append, List.cons_append]
  | some cid =>
    simp (disch := simp) only [Option.isSome_some, if_true, beginList_eq, append_eq,
      appendEmptyData_eq, out_eq, bind, Except.bind, List.nil_append, List.cons_append]

end Writing

end MiniEvm
