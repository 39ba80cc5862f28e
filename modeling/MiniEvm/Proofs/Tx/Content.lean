import MiniEvm.Proofs.Tx.Decoder

/-! Which bytes a transaction was decoded from, and which bytes its signer is taken to have
signed. -/

namespace MiniEvm

open BigEndian RlpFormat

section Lists

/-- Items that follow each other are the only ones that do. -/
theorem Consecutive.unique {bytes : Bytes} {items items' : List Bytes}
    (consecutive : Consecutive bytes items) (consecutive' : Consecutive bytes items') :
    items = items' := by
  induction consecutive generalizing items' with
  | nil none_ =>
    cases consecutive' with
    | nil _ => rfl
    | cons holds _ => exact absurd holds (none_ _)
  | @cons bytes found items holds later ih =>
    cases consecutive' with
    | nil none_ => exact absurd holds (none_ found)
    | @cons _ other rest holds' later' =>
      -- The first bytes have one header only.
      have same := (header_eq_some_iff.mpr holds.1).symm.trans (header_eq_some_iff.mpr holds'.1)
      obtain rfl := Option.some.inj same
      rw [ih later']

/-- What splits off as an item begins with it. -/
theorem whole_of_isItem {item : Bytes} (isItem : IsItem item) : ∃ found, Whole item found := by
  unfold IsItem takeItem at isItem
  -- An item is split off at the length that its header tells.
  cases read : header item with
  | none => simp [read] at isItem
  | some found =>
    simp only [read] at isItem
    split at isItem
    · rename_i passes
      have lengths := congrArg List.length (Prod.mk.inj (Option.some.inj isItem)).1
      rw [List.length_take] at lengths
      exact ⟨found, header_eq_some_iff.mp read, by omega⟩
    · cases isItem

/-- Items that are put together stand one behind the other. -/
theorem consecutive_flatten {items : List Bytes} (all : ∀ item ∈ items, IsItem item) :
    Consecutive items.flatten items := by
  induction items with
  | nil => exact .nil fun found holds => nomatch holds.1
  | cons item rest ih =>
    obtain ⟨found, reads, length⟩ := whole_of_isItem (all item List.mem_cons_self)
    have holds : Holds (item ++ rest.flatten) found :=
      Holds.append ⟨reads, Nat.le_of_eq length⟩ rest.flatten
    -- Behind the first item the rest are put together in the same way.
    have later := ih fun other member => all other (List.mem_cons_of_mem _ member)
    rw [List.flatten_cons]
    have step := @Consecutive.cons (item ++ rest.flatten) found rest holds
    rw [length, List.drop_left, List.take_left] at step
    exact step later

/-- A view of an encoded list finds its items. -/
theorem listItems_encodeList {items : List Bytes} (some_ : items ≠ [])
    (all : ∀ item ∈ items, IsItem item) (small : items.flatten.length < 2 ^ 64) :
    listItems (encodeList items) = items := by
  obtain ⟨found, reads, isList, length, whole, payload⟩ := reads_encodeList small
  have holds : Holds (encodeList items) found := ⟨reads, Nat.le_of_eq whole.symm⟩
  have list : (Rlp.new (encodeList items)).isList = true := by
    generalize encodeList items = bytes at reads
    cases reads with
    | single _ => cases isList
    | shortString _ _ => cases isList
    | longString _ _ _ => cases isList
    | shortList above _ =>
      simpa [Rlp.isList, Rlp.new, UInt8.le_iff_toNat_le] using above
    | longList above _ =>
      have larger : 0xc0 ≤ UInt8.toNat _ := Nat.le_trans (by decide : 0xc0 ≤ 0xf8) above
      simpa [Rlp.isList, Rlp.new, UInt8.le_iff_toNat_le] using larger
  -- The first item holds inside of the payload, which is what the view checks for.
  have consecutive := consecutive_flatten all
  have first : ∃ inner, Holds items.flatten inner := by
    cases items with
    | nil => exact absurd rfl some_
    | cons item rest =>
      obtain ⟨inner, holds, _⟩ := consecutive.head
      exact ⟨inner, holds⟩
  obtain ⟨inner, inside⟩ := first
  -- The payload ends where the bytes do.
  have slice_ : slice (encodeList items) found.offset (found.offset + found.length) =
      items.flatten := by
    rw [slice, ← whole, List.take_length, payload]
  simp only [listItems, list, if_true, payloadInfo_of_holds holds, PayloadInfo.total, slice_,
    payloadInfo_of_holds inside, payload]
  apply (consecutive_itemsFrom _).unique consecutive
  omega

end Lists

section Fields

/-- The bytes that an address was read from. -/
theorem receiverBytes_of_receiver {ε : Type} {bytes : Bytes} {to_ : Option Address}
    (read : (receiver bytes : Except (Failure ε) (Option Address)) = .ok to_) :
    receiverBytes to_ = bytes := by
  unfold receiver Address.fromSlice at read
  cases bytes with
  | nil =>
    cases read
    rfl
  | cons first rest =>
    -- An address is the number of its twenty bytes, and no other length is one.
    by_cases twenty : (first :: rest).length = 20
    · simp only [List.isEmpty_cons, twenty, Bool.false_eq_true, if_false, if_true, Functor.map,
        Except.map, Except.ok.injEq] at read
      subst read
      have bound := value_lt (first :: rest)
      rw [twenty] at bound
      have number : (accountAddress (fromBeBytes (first :: rest))).toNat = value (first :: rest) := by
        rw [accountAddress, BitVec.toNat_setWidth, toNat_fromBeBytes (by omega)]
        exact Nat.mod_eq_of_lt bound
      simp only [receiverBytes, number]
      apply eq_of_value_eq
      · rw [length_beBytes, twenty]
      · rw [value_beBytes, Nat.mod_eq_of_lt bound]
    · rw [if_neg twenty] at read
      cases read

/-- A field that was read stands in its item in the standard encoding. -/
theorem fieldAt_ok {α : Type} {decode : Bytes → Decoded α} {bytesOf : α → Bytes}
    {good : α → Prop} {items : List Bytes} {index : Nat} {result : α}
    (decodes : Decodes decode bytesOf good (items.getD index []))
    (read : fieldAt decode items index = .ok result) :
    good result ∧ items.getD index [] = encodeString (bytesOf result) := by
  rcases fieldAt_cases decodes with ⟨other, read', holds, encoded⟩ | refused
  · rw [read] at read'
    cases read'
    exact ⟨holds, encoded⟩
  · rw [read] at refused
    cases refused

/-- A list is made of its first items, found by their index, and the rest. -/
theorem eq_map_getD {items : List Bytes} {count : Nat} (enough : count ≤ items.length) :
    items = (List.range count).map (items.getD · []) ++ items.drop count := by
  -- The items are read by their index, so the front is listed by index too.
  have front : (List.range count).map (items.getD · []) = items.take count := by
    apply List.ext_getElem
    · rw [List.length_map, List.length_range, List.length_take_of_le enough]
    · intro index inside _
      have within : index < items.length := by
        rw [List.length_map, List.length_range] at inside
        omega
      rw [List.getElem_map, List.getElem_range, List.getElem_take, List.getD_eq_getElem?_getD,
        List.getElem?_eq_getElem within, Option.getD_some]
  rw [front, List.take_append_drop]

/-- The items of a dynamic fee transaction up to its access list. -/
def TxFields.headEip1559 (fields : TxFields) : List Bytes :=
  [encodeNumber (fields.chainId.getD 0), encodeNumber fields.nonce,
    encodeNumber fields.maxPriorityFeePerGas.toNat, encodeNumber fields.maxFeePerGas.toNat,
    encodeNumber fields.gasLimit, encodeString (receiverBytes fields.to_),
    encodeNumber fields.value.toNat, encodeString fields.data]

/-- The items of a legacy transaction up to its signature. -/
def TxFields.headLegacy (fields : TxFields) : List Bytes :=
  [encodeNumber fields.nonce, encodeNumber fields.maxFeePerGas.toNat, encodeNumber fields.gasLimit,
    encodeString (receiverBytes fields.to_), encodeNumber fields.value.toNat,
    encodeString fields.data]

/-- The number in a legacy signature that stands for a chain and a recovery id. -/
def parityNumber : Option Nat → Nat → Nat
  | none, recId => 27 + recId
  | some chainId, recId => 35 + 2 * chainId + recId

def TxFields.parityNumber (fields : TxFields) : Nat :=
  MiniEvm.parityNumber fields.chainId fields.recId

/-- The number is put together again from what it was taken apart into. -/
theorem parityNumber_of_signatureParity {v : Nat} {parity : Option Nat × Nat}
    (parities : signatureParity v = .ok parity) :
    MiniEvm.parityNumber parity.1 parity.2 = v ∧ parity.1.getD 0 ≤ v ∧ parity.2 ≤ 1 := by
  unfold signatureParity at parities
  -- A number of at least 35 names a chain; of the smaller ones only two are left.
  by_cases chain : 35 ≤ v
  · rw [if_pos chain] at parities
    cases parities
    simp only [MiniEvm.parityNumber, Option.getD_some]
    omega
  · rw [if_neg chain] at parities
    by_cases plain : v = 27 ∨ v = 28
    · rw [if_pos plain] at parities
      cases parities
      simp only [MiniEvm.parityNumber, Option.getD_none]
      omega
    · rw [if_neg plain] at parities
      cases parities

/-- Fields that are as large as their types allow, and no larger. -/
structure TxFields.Typed (fields : TxFields) : Prop where
  chainId : fields.chainId.getD 0 < 2 ^ 64
  nonce : fields.nonce < 2 ^ 64
  gasLimit : fields.gasLimit < 2 ^ 64
  data : fields.data.length < 2 ^ 64
  r : fields.r.length < 2 ^ 64
  s : fields.s.length < 2 ^ 64

/-- The items that a dynamic fee transaction was read from; the access list may be anything. -/
theorem items_of_eip1559Fields {bytes : Bytes} {fields : TxFields}
    (enough : 12 ≤ (listItems bytes).length)
    (read : eip1559Fields (listItems bytes) = .ok fields) :
    fields.Typed ∧ fields.recId < 2 ^ 8 ∧ ∃ access more, listItems bytes =
      fields.headEip1559 ++ access :: encodeNumber fields.recId :: encodeString fields.r ::
        encodeString fields.s :: more := by
  have decodes : ∀ index < 12, DecodesTo ((listItems bytes).getD index []) :=
    fun index below => decodesTo_listItems (by omega)
  generalize listItems bytes = items at enough read decodes
  have whole := eq_map_getD enough
  unfold eip1559Fields at read
  -- Every step of the reading succeeded, with what its item encodes.
  obtain ⟨chainId, read0, read⟩ := ok_of_bind read
  obtain ⟨nonce, read1, read⟩ := ok_of_bind read
  obtain ⟨maxPriorityFeePerGas, read2, read⟩ := ok_of_bind read
  obtain ⟨maxFeePerGas, read3, read⟩ := ok_of_bind read
  obtain ⟨gasLimit, read4, read⟩ := ok_of_bind read
  obtain ⟨toBytes, read5, read⟩ := ok_of_bind read
  obtain ⟨to_, received, read⟩ := ok_of_bind read
  obtain ⟨value_, read6, read⟩ := ok_of_bind read
  obtain ⟨data, read7, read⟩ := ok_of_bind read
  obtain ⟨yParity, read9, read⟩ := ok_of_bind read
  obtain ⟨r, read10, read⟩ := ok_of_bind read
  obtain ⟨s, read11, read⟩ := ok_of_bind read
  cases read
  obtain ⟨chainSize, item0⟩ := fieldAt_ok (decodes_u64 (decodes 0 (by decide))) read0
  obtain ⟨nonceSize, item1⟩ := fieldAt_ok (decodes_u64 (decodes 1 (by decide))) read1
  obtain ⟨_, item2⟩ := fieldAt_ok (decodes_u256 (decodes 2 (by decide))) read2
  obtain ⟨_, item3⟩ := fieldAt_ok (decodes_u256 (decodes 3 (by decide))) read3
  obtain ⟨gasSize, item4⟩ := fieldAt_ok (decodes_u64 (decodes 4 (by decide))) read4
  obtain ⟨_, item5⟩ := fieldAt_ok (decodes_bytes (decodes 5 (by decide))) read5
  obtain ⟨_, item6⟩ := fieldAt_ok (decodes_u256 (decodes 6 (by decide))) read6
  obtain ⟨dataSize, item7⟩ := fieldAt_ok (decodes_bytes (decodes 7 (by decide))) read7
  obtain ⟨paritySize, item9⟩ := fieldAt_ok (decodes_u8 (decodes 9 (by decide))) read9
  obtain ⟨rSize, item10⟩ := fieldAt_ok (decodes_bytes (decodes 10 (by decide))) read10
  obtain ⟨sSize, item11⟩ := fieldAt_ok (decodes_bytes (decodes 11 (by decide))) read11
  refine ⟨⟨chainSize, nonceSize, gasSize, dataSize, rSize, sSize⟩, paritySize, items.getD 8 [],
    items.drop 12, ?_⟩
  simp only [List.range_succ, List.range_zero, List.nil_append, List.cons_append, List.map_cons,
    List.map_nil, item0, item1, item2, item3, item4, item5, item6, item7, item9, item10,
    item11, id] at whole
  rw [← receiverBytes_of_receiver received] at whole
  exact whole

/-- The items that a legacy transaction was read from. -/
theorem items_of_legacyFields {bytes : Bytes} {fields : TxFields}
    (enough : 9 ≤ (listItems bytes).length)
    (read : legacyFields (listItems bytes) = .ok fields) :
    fields.Typed ∧ fields.parityNumber < 2 ^ 64 ∧
    signatureParity fields.parityNumber = .ok (fields.chainId, fields.recId) ∧
    ∃ more, listItems bytes = fields.headLegacy ++ encodeNumber fields.parityNumber ::
      encodeString fields.r :: encodeString fields.s :: more := by
  have decodes : ∀ index < 9, DecodesTo ((listItems bytes).getD index []) :=
    fun index below => decodesTo_listItems (by omega)
  generalize listItems bytes = items at enough read decodes
  have whole := eq_map_getD enough
  unfold legacyFields at read
  obtain ⟨nonce, read0, read⟩ := ok_of_bind read
  obtain ⟨gasPrice, read1, read⟩ := ok_of_bind read
  obtain ⟨gasLimit, read2, read⟩ := ok_of_bind read
  obtain ⟨toBytes, read3, read⟩ := ok_of_bind read
  obtain ⟨to_, received, read⟩ := ok_of_bind read
  obtain ⟨value_, read4, read⟩ := ok_of_bind read
  obtain ⟨data, read5, read⟩ := ok_of_bind read
  obtain ⟨v, read6, read⟩ := ok_of_bind read
  obtain ⟨r, read7, read⟩ := ok_of_bind read
  obtain ⟨s, read8, read⟩ := ok_of_bind read
  obtain ⟨parity, parities, read⟩ := ok_of_bind read
  -- Behind the last step the fields are the results of the earlier ones.
  cases read
  obtain ⟨nonceSize, item0⟩ := fieldAt_ok (decodes_u64 (decodes 0 (by decide))) read0
  obtain ⟨_, item1⟩ := fieldAt_ok (decodes_u256 (decodes 1 (by decide))) read1
  obtain ⟨gasSize, item2⟩ := fieldAt_ok (decodes_u64 (decodes 2 (by decide))) read2
  obtain ⟨_, item3⟩ := fieldAt_ok (decodes_bytes (decodes 3 (by decide))) read3
  obtain ⟨_, item4⟩ := fieldAt_ok (decodes_u256 (decodes 4 (by decide))) read4
  obtain ⟨dataSize, item5⟩ := fieldAt_ok (decodes_bytes (decodes 5 (by decide))) read5
  obtain ⟨paritySize, item6⟩ := fieldAt_ok (decodes_u64 (decodes 6 (by decide))) read6
  obtain ⟨rSize, item7⟩ := fieldAt_ok (decodes_bytes (decodes 7 (by decide))) read7
  obtain ⟨sSize, item8⟩ := fieldAt_ok (decodes_bytes (decodes 8 (by decide))) read8
  obtain ⟨same, chainSize, _⟩ := parityNumber_of_signatureParity parities
  have number : TxFields.parityNumber {
      chainId := parity.1, nonce, gasLimit, maxFeePerGas := gasPrice,
      maxPriorityFeePerGas := gasPrice, to_, value := value_, data, r, s,
      recId := parity.2 } = v := same
  rw [number]
  refine ⟨⟨Nat.lt_of_le_of_lt chainSize paritySize, nonceSize, gasSize, dataSize, rSize, sSize⟩,
    paritySize, parities, items.drop 9, ?_⟩
  simp only [List.range_succ, List.range_zero, List.nil_append, List.cons_append, List.map_cons,
    List.map_nil, item0, item1, item2, item3, item4, item5, item6, item7, item8, id] at whole
  rw [← receiverBytes_of_receiver received] at whole
  exact whole

end Fields

section Signing

/-- Numbers of 64 bits are written as the standard asks for. -/
theorem lossyString_u64Bytes {number : Nat} (small : number < 2 ^ 64) :
    lossyString (u64Bytes number) = encodeNumber number := by
  rw [u64Bytes_eq small, lossyString_eq, encodeNumber]
  exact Nat.lt_of_le_of_lt (length_digits_le small : _ ≤ 8) (by decide)

/-- Words are written as the standard asks for. -/
theorem lossyString_u256Bytes (word : Word) :
    lossyString (u256Bytes word) = encodeNumber word.toNat := by
  rw [u256Bytes_eq, lossyString_eq, encodeNumber]
  exact Nat.lt_of_le_of_lt (length_digits_le word.isLt : _ ≤ 32) (by decide)

/-- Receivers are written as the standard asks for. -/
theorem lossyString_receiverBytes (to_ : Option Address) :
    lossyString (receiverBytes to_) = encodeString (receiverBytes to_) := by
  apply lossyString_eq
  cases to_ with
  | none => decide
  | some address =>
    rw [receiverBytes, length_beBytes]
    decide

/-- The items that go to the signer are the standard ones, as long as the data is. -/
theorem itemsEip1559_eq {fields : TxFields} (typed : fields.Typed)
    (short : fields.data.length < 2 ^ 32) :
    fields.itemsEip1559 = fields.headEip1559 ++ [[0xc0]] := by
  simp only [TxFields.itemsEip1559, TxFields.headEip1559, lossyString_u64Bytes typed.chainId,
    lossyString_u64Bytes typed.nonce, lossyString_u64Bytes typed.gasLimit, lossyString_u256Bytes,
    lossyString_receiverBytes, lossyString_eq short, List.cons_append, List.nil_append]

/-- What a legacy signer adds to the fields for a chain. -/
def chainItems (chainId : Option Nat) : List Bytes :=
  chainId.elim [] fun chainId => [encodeNumber chainId, [0x80], [0x80]]

/-- What is signed in a legacy transaction are its fields and its chain. -/
theorem itemsLegacy_eq {fields : TxFields} (typed : fields.Typed)
    (short : fields.data.length < 2 ^ 32) :
    fields.itemsLegacy = fields.headLegacy ++ chainItems fields.chainId := by
  have chainSize := typed.chainId
  simp only [TxFields.itemsLegacy, TxFields.headLegacy, lossyString_u64Bytes typed.nonce,
    lossyString_u64Bytes typed.gasLimit, lossyString_u256Bytes, lossyString_receiverBytes,
    lossyString_eq short]
  -- A transaction without a chain is signed without the three items of one.
  cases chain : fields.chainId with
  | none => rfl
  | some chainId =>
    rw [chain] at chainSize
    rw [Option.getD_some] at chainSize
    simp only [chainItems, Option.elim_some, lossyString_u64Bytes chainSize]

/-- What is part of an item is part of the payload. -/
theorem length_le_of_mem {bytes : Bytes} {items : List Bytes}
    (member : encodeString bytes ∈ items) : bytes.length ≤ items.flatten.length :=
  Nat.le_trans (length_le_encodeString bytes) (List.sublist_flatten_of_mem member).length_le

/-- The stream writes the standard list of what was received, if that has no access list. -/
theorem eip1559_preimage_iff {fields : TxFields} (typed : fields.Typed) {access : Bytes}
    (some_ : access ≠ []) {received : List Bytes} (same : received = fields.headEip1559 ++ [access])
    (small : received.flatten.length < 2 ^ 64) :
    0x02 :: lossyList fields.itemsEip1559 = 0x02 :: encodeList received ↔
      access = [0xc0] ∧ received.flatten.length < 2 ^ 32 := by
  -- The data is a part of the payload, so it is short whenever the payload is.
  have data : fields.data.length ≤ received.flatten.length := by
    apply length_le_of_mem
    rw [same]
    simp [TxFields.headEip1559]
  have total : received.flatten.length = fields.headEip1559.flatten.length + access.length := by
    rw [same]
    simp
  have positive := List.length_pos_of_ne_nil some_
  constructor
  · intro equal
    have lists := (List.cons.inj equal).2
    have short : received.flatten.length < 2 ^ 32 := by
      by_contra long
      exact lossyList_ne (Nat.not_lt.mp long) small lists
    -- Below that bound both sides are standard lists, which have one payload.
    have length : (fields.headEip1559 ++ [[0xc0]]).flatten.length < 2 ^ 32 := by
      rw [List.flatten_append, List.length_append]
      simp only [List.flatten_cons, List.flatten_nil, List.append_nil, List.length_singleton]
      omega
    rw [itemsEip1559_eq typed (by omega), lossyList_eq length] at lists
    -- The payloads agree up to the last item, which is the access list.
    have payloads := flatten_eq_of_encodeList (by omega) small lists
    rw [same, List.flatten_append, List.flatten_append] at payloads
    have last := List.append_cancel_left payloads
    simp only [List.flatten_cons, List.flatten_nil, List.append_nil] at last
    exact ⟨last.symm, short⟩
  · rintro ⟨rfl, short⟩
    rw [itemsEip1559_eq typed (by omega), ← same, lossyList_eq short]

/-- The stream writes the standard list of what was received, with the chain that was told. -/
theorem legacy_preimage_iff {fields : TxFields} (typed : fields.Typed) {received : List Bytes}
    (same : received = fields.headLegacy ++ chainItems fields.chainId)
    (small : received.flatten.length < 2 ^ 64) :
    lossyList fields.itemsLegacy = encodeList received ↔ received.flatten.length < 2 ^ 32 := by
  have data : fields.data.length ≤ received.flatten.length := by
    apply length_le_of_mem
    rw [same]
    simp [TxFields.headLegacy]
  constructor
  · -- A payload that does not fit into the length field is written with a wrong header.
    intro lists
    by_contra long
    exact lossyList_ne (Nat.not_lt.mp long) small lists
  · intro short
    rw [itemsLegacy_eq typed (by omega), ← same, lossyList_eq short]

/-- Reading and signing succeeded for an accepted dynamic fee transaction. -/
theorem fields_of_eip1559 {host : Host} {curve : Secp256k1} {payload : Bytes} {txHash : Word}
    {tx : SignedTransaction} (accepted : decodeEip1559 host curve payload txHash = .ok tx) :
    ∃ fields, 12 ≤ (listItems payload).length ∧
      (readEip1559 (Rlp.new payload)).1 = .ok fields ∧
      eip1559Fields (listItems payload) = .ok fields ∧
      fields.signed host curve txHash .eip1559 (0x02 :: lossyList fields.itemsEip1559) = .ok tx := by
  obtain ⟨fields, read, rest⟩ := ok_of_bind accepted
  -- Writing what is signed cannot fail, so its bytes are known.
  rw [unsignedEip1559_eq] at rest
  have known := read
  rw [readEip1559_eq] at known
  split at known
  · cases known
  · exact ⟨fields, by omega, read, known, rest⟩

/-- An accepted legacy transaction has the fields that were read. -/
theorem fields_of_legacy {host : Host} {curve : Secp256k1} {rawBytes : Bytes} {txHash : Word}
    {tx : SignedTransaction} (accepted : decodeLegacy host curve rawBytes txHash = .ok tx) :
    ∃ fields, 9 ≤ (listItems rawBytes).length ∧
      (readLegacy (Rlp.new rawBytes)).1 = .ok fields ∧
      legacyFields (listItems rawBytes) = .ok fields ∧
      fields.signed host curve txHash .legacy (lossyList fields.itemsLegacy) = .ok tx := by
  obtain ⟨fields, read, rest⟩ := ok_of_bind accepted
  rw [unsignedLegacy_eq] at rest
  have known := read
  rw [readLegacy_eq] at known
  -- Fewer than nine items are turned away.
  split at known
  · cases known
  · exact ⟨fields, by omega, read, known, rest⟩

/-- A transaction with its fields, its hash and its sender. -/
def TxFields.transaction (txHash : Word) (txType : TxType) (sender : Address)
    (fields : TxFields) : SignedTransaction where
  hash := txHash
  txType := txType
  chainId := fields.chainId
  nonce := fields.nonce
  gasLimit := fields.gasLimit
  maxFeePerGas := fields.maxFeePerGas
  maxPriorityFeePerGas := fields.maxPriorityFeePerGas
  to_ := fields.to_
  value := fields.value
  data := fields.data
  sender := sender

/-- The sender is recovered from the hash of what was written. -/
theorem sender_of_signed {host : Host} {curve : Secp256k1} {txHash : Word} {txType : TxType}
    {fields : TxFields} {unsigned : Bytes} {tx : SignedTransaction}
    (signed : fields.signed host curve txHash txType unsigned = .ok tx) :
    recoverSender host curve (host.keccak256 unsigned) fields.r fields.s fields.recId =
      .ok tx.sender := by
  obtain ⟨sender, recovered, rest⟩ := ok_of_bind signed
  cases rest
  exact recovered

/-- A list encoded with at least one item is no dynamic fee envelope. -/
theorem first_of_encodeList {items : List Bytes} (small : items.flatten.length < 2 ^ 64) :
    ∃ first rest, encodeList items = first :: rest ∧ first ≠ 0x02 ∧ 0xc0 ≤ first := by
  obtain ⟨found, reads, isList, _, _, _⟩ := reads_encodeList small
  generalize encodeList items = bytes at reads
  -- Only the two list headers are left, and both are above the type byte.
  cases reads with
  | single _ => cases isList
  | shortString _ _ => cases isList
  | longString _ _ _ => cases isList
  | @shortList first rest above _ =>
    refine ⟨first, rest, rfl, ?_, UInt8.le_iff_toNat_le.mpr above⟩
    rintro rfl
    simp at above
  | @longList first rest length above _ =>
    refine ⟨first, rest, rfl, ?_, UInt8.le_iff_toNat_le.mpr (Nat.le_trans (by decide) above)⟩
    rintro rfl
    simp at above

/-- What the signer of a legacy transaction signs, by the last number of the signature. -/
def legacySigned (items : List Bytes) (v : Nat) : List Bytes :=
  if 35 ≤ v then items.take 6 ++ [encodeNumber ((v - 35) / 2), [0x80], [0x80]] else items.take 6

/-- The recovery id that is in that number. -/
def legacyRecId (v : Nat) : Nat := if 35 ≤ v then (v - 35) % 2 else v - 27

/-- The hashed bytes are the standard ones under one condition, and so are their hashes, unless
two byte strings collide. -/
def HashedIff (host : Host) (hashed standard : Bytes) (condition : Prop) : Prop :=
  (hashed = standard ↔ condition) ∧
  ((host.keccak256 hashed = host.keccak256 standard → hashed = standard) →
    (host.keccak256 hashed = host.keccak256 standard ↔ condition))

/-- Equal bytes have equal hashes. -/
theorem HashedIff.of_iff {host : Host} {hashed standard : Bytes} {condition : Prop}
    (same : hashed = standard ↔ condition) : HashedIff host hashed standard condition := by
  refine ⟨same, fun apart => ⟨fun equal => same.mp (apart equal), fun holds => ?_⟩⟩
  rw [same.mpr holds]

/-- How a legacy signature was taken apart. -/
theorem signed_of_signatureParity {items : List Bytes} {v recId : Nat} {chainId : Option Nat}
    (parities : signatureParity v = .ok (chainId, recId)) :
    (v = 27 ∨ v = 28 ∨ 35 ≤ v) ∧ legacyRecId v = recId ∧
      legacySigned items v = items.take 6 ++ chainItems chainId := by
  unfold signatureParity at parities
  unfold legacyRecId legacySigned
  -- From 35 on the number tells the chain as well, and below it is 27 or 28.
  by_cases chain : 35 ≤ v
  · rw [if_pos chain] at parities ⊢
    cases parities
    exact ⟨.inr (.inr chain), rfl, by rw [if_pos chain]; rfl⟩
  · rw [if_neg chain] at parities ⊢
    by_cases plain : v = 27 ∨ v = 28
    · rw [if_pos plain] at parities
      cases parities
      refine ⟨plain.imp_right .inl, rfl, ?_⟩
      rw [if_neg chain]
      exact (List.append_nil _).symm
    · rw [if_neg plain] at parities
      cases parities

/-- A number of 64 bits takes nine bytes at most. -/
theorem length_encodeNumber_le {number : Nat} (small : number < 2 ^ 64) :
    (encodeNumber number).length ≤ 9 := by
  have few : (digits number).length ≤ 8 := length_digits_le small
  unfold encodeNumber encodeString
  -- A small number stands for itself, and a larger one has one byte in front.
  split
  · omega
  · rw [if_pos (by omega), List.length_cons]
    omega

/-- A chain adds eleven bytes at most. -/
theorem length_chainItems_le {chainId : Option Nat} (small : chainId.getD 0 < 2 ^ 64) :
    (chainItems chainId).flatten.length ≤ 11 := by
  cases chainId with
  | none => exact Nat.zero_le _
  | some chainId =>
    -- A chain takes nine bytes at most, and each of the empty items takes one.
    have few := length_encodeNumber_le small
    simp only [chainItems, Option.elim_some, Option.getD_some] at few ⊢
    simp only [List.flatten_cons, List.flatten_nil, List.length_append, List.length_cons,
      List.length_nil]
    omega

section Digests

variable {host : Host} {curve : Secp256k1} {items : List Bytes} {tx : SignedTransaction}

/-- What is hashed of an accepted dynamic fee transaction. -/
theorem eip1559_digest_iff (all : ∀ item ∈ items, IsItem item)
    (small : items.flatten.length < 2 ^ 63) (twelve : items.length = 12)
    (accepted : decodeRawTx host curve (0x02 :: encodeList items) = .ok tx) :
    ∃ fields hashed, (readEip1559 (Rlp.new (encodeList items))).1 = .ok fields ∧
      fields.unsignedEip1559 = (.ok hashed : Except (Failure TxDecodeError) Bytes) ∧
      items.drop 9 = [encodeNumber fields.recId, encodeString fields.r, encodeString fields.s] ∧
      recoverSender host curve (host.keccak256 hashed) fields.r fields.s fields.recId =
        .ok tx.sender ∧
      HashedIff host hashed (0x02 :: encodeList (items.take 9))
        (items[8]? = some [0xc0] ∧ (items.take 9).flatten.length < 2 ^ 32) := by
  have fits : items.flatten.length < 2 ^ 64 := Nat.lt_trans small (by decide)
  have some_ : items ≠ [] := by
    rintro rfl
    cases twelve
  have view := listItems_encodeList some_ all fits
  obtain ⟨fields, enough, decoded, read, signed⟩ := fields_of_eip1559 accepted
  obtain ⟨typed, _, access, more, items_⟩ := items_of_eip1559Fields enough read
  rw [view] at items_
  -- Twelve items leave nothing behind the signature.
  obtain rfl : more = [] := by
    rw [items_] at twelve
    simpa [TxFields.headEip1559] using twelve
  have received : items.take 9 = fields.headEip1559 ++ [access] := by
    rw [items_]
    rfl
  have eighth : items[8]? = some access := by
    rw [items_]
    rfl
  have nonempty : access ≠ [] := (all access (by rw [items_]; simp)).ne_nil
  have part : (items.take 9).flatten.length < 2 ^ 64 :=
    Nat.lt_of_le_of_lt (List.take_sublist 9 items).flatten.length_le fits
  refine ⟨fields, _, decoded, unsignedEip1559_eq fields, ?_, sender_of_signed signed, .of_iff ?_⟩
  · rw [items_]
    rfl
  · rw [eighth, Option.some.injEq]
    exact eip1559_preimage_iff typed nonempty received part

/-- What is hashed of an accepted legacy transaction. -/
theorem legacy_digest_iff (all : ∀ item ∈ items, IsItem item)
    (small : items.flatten.length < 2 ^ 63) (nine : items.length = 9)
    (accepted : decodeRawTx host curve (encodeList items) = .ok tx) :
    ∃ fields hashed v, (readLegacy (Rlp.new (encodeList items))).1 = .ok fields ∧
      fields.unsignedLegacy = (.ok hashed : Except (Failure TxDecodeError) Bytes) ∧
      items.drop 6 = [encodeNumber v, encodeString fields.r, encodeString fields.s] ∧
      (v = 27 ∨ v = 28 ∨ 35 ≤ v) ∧ fields.recId = legacyRecId v ∧
      recoverSender host curve (host.keccak256 hashed) fields.r fields.s fields.recId =
        .ok tx.sender ∧
      HashedIff host hashed (encodeList (legacySigned items v))
        ((legacySigned items v).flatten.length < 2 ^ 32) := by
  have fits : items.flatten.length < 2 ^ 64 := Nat.lt_trans small (by decide)
  have some_ : items ≠ [] := by
    rintro rfl
    cases nine
  have view := listItems_encodeList some_ all fits
  -- The list is no typed envelope, so it is decoded as it is.
  obtain ⟨first, rest, bytes, envelope, list⟩ := first_of_encodeList fits
  rw [bytes] at accepted view ⊢
  simp only [decodeRawTx, if_neg envelope, if_pos list] at accepted
  obtain ⟨fields, enough, decoded, read, signed⟩ := fields_of_legacy accepted
  obtain ⟨typed, _, parities, more, items_⟩ := items_of_legacyFields enough read
  rw [view] at items_
  obtain rfl : more = [] := by
    rw [items_] at nine
    simpa [TxFields.headLegacy] using nine
  have front : items.take 6 = fields.headLegacy := by
    rw [items_]
    rfl
  obtain ⟨known, recId, standard⟩ := @signed_of_signatureParity items _ _ _ parities
  -- The chain adds a few bytes to what was received, which is far below the bound.
  have part : (legacySigned items fields.parityNumber).flatten.length < 2 ^ 64 := by
    have front_ := (List.take_sublist 6 items).flatten.length_le
    have chain := length_chainItems_le typed.chainId
    rw [standard, List.flatten_append, List.length_append]
    omega
  refine ⟨fields, lossyList fields.itemsLegacy, fields.parityNumber, decoded,
    unsignedLegacy_eq fields, ?_, known, recId.symm, sender_of_signed signed, .of_iff ?_⟩
  · rw [items_]
    rfl
  · apply legacy_preimage_iff typed _ part
    rw [standard, front]

end Digests

/-- The sender is recovered from the digest of the items that were received, exactly if there is
no access list among them and their lengths fit into 32 bits. -/
theorem signed_digest_iff (host : Host) (curve : Secp256k1) {items : List Bytes}
    (all : ∀ item ∈ items, IsItem item) (small : items.flatten.length < 2 ^ 63)
    {tx : SignedTransaction} :
    (items.length = 12 → decodeRawTx host curve (0x02 :: encodeList items) = .ok tx →
      ∃ fields hashed, (readEip1559 (Rlp.new (encodeList items))).1 = .ok fields ∧
        fields.unsignedEip1559 = (.ok hashed : Except (Failure TxDecodeError) Bytes) ∧
        items.drop 9 = [encodeNumber fields.recId, encodeString fields.r, encodeString fields.s] ∧
        recoverSender host curve (host.keccak256 hashed) fields.r fields.s fields.recId =
          .ok tx.sender ∧
        HashedIff host hashed (0x02 :: encodeList (items.take 9))
          (items[8]? = some [0xc0] ∧ (items.take 9).flatten.length < 2 ^ 32)) ∧
    (items.length = 9 → decodeRawTx host curve (encodeList items) = .ok tx →
      ∃ fields hashed v, (readLegacy (Rlp.new (encodeList items))).1 = .ok fields ∧
        fields.unsignedLegacy = (.ok hashed : Except (Failure TxDecodeError) Bytes) ∧
        items.drop 6 = [encodeNumber v, encodeString fields.r, encodeString fields.s] ∧
        (v = 27 ∨ v = 28 ∨ 35 ≤ v) ∧ fields.recId = legacyRecId v ∧
        recoverSender host curve (host.keccak256 hashed) fields.r fields.s fields.recId =
          .ok tx.sender ∧
        HashedIff host hashed (encodeList (legacySigned items v))
          ((legacySigned items v).flatten.length < 2 ^ 32)) :=
  ⟨eip1559_digest_iff all small, legacy_digest_iff all small⟩

/-- The key behind both of the transactions below, and the hash of it. -/
def signerKey : Bytes :=
  beBytes 32 0x4bc2a31265153f07e70e0bab08724e6b85e217f8cd628ceb62974247bb493382 ++
    beBytes 32 0xce28cab79ad7119ee1ad3ebcdb98a16805211530ecc6cfefa1b88e6dff99232a

def signerHash : Word := 0x9cead80a9d0a0951cdbf966b9d8a62f656a8d1615c1294fd71e9cfb3e4855a4f

/-- The fields of a legacy transfer on the first chain. -/
def transferFields : TxFields where
  chainId := some 1
  nonce := 9
  gasLimit := 21000
  maxFeePerGas := 20000000000
  maxPriorityFeePerGas := 20000000000
  to_ := some 0x3535353535353535353535353535353535353535
  value := 1000000000000000000
  data := []
  r := beBytes 32 0x28ef61340bd939bc2195fe537567866003e1a15d3c71ff63e1590620aa636276
  s := beBytes 32 0x67cbe9d8997f761aecb703304b3800ccf555c9f3dc64214b297fb1966a3b6d83
  recId := 0

/-- Its nine items. -/
def transferItems : List Bytes :=
  transferFields.headLegacy ++ [encodeNumber 37, encodeString transferFields.r,
    encodeString transferFields.s]

/-- What was signed of it. -/
def transferSigned : Bytes :=
  beBytes 45 0xec098504a817c800825208943535353535353535353535353535353535353535880de0b6b3a764000080018080

def transferDigest : Word := 0xdaf5a779ae972f972197303d7b574746c7ef83eadac0f2791ad23db92e4c8e53

def transferHost : Host := tableHost
  [(transferSigned, transferDigest), (signerKey, signerHash),
    (encodeList transferItems,
      0x33469b22e9f636356c4160a87eb19df52b7412e8eac32a4a55ffe88ea8350788),
    (encodeList transferItems ++ [0],
      0x011079a7b8e60a13e7b22580ea8c2da672d4a1a4d850983a9de02d4d466dd0b9)]

def transferCurve : Secp256k1 :=
  tableCurve [((transferDigest, transferFields.r ++ transferFields.s, 0), signerKey)]

/-- The transfer, once its sender is recovered. -/
def transferTx (hash : Word) : SignedTransaction where
  hash := hash
  txType := .legacy
  chainId := some 1
  nonce := 9
  gasLimit := 21000
  maxFeePerGas := 20000000000
  maxPriorityFeePerGas := 20000000000
  to_ := some 0x3535353535353535353535353535353535353535
  value := 1000000000000000000
  data := []
  sender := accountAddress signerHash

/-- The items of the example are well formed. -/
theorem isItem_transferItems : ∀ item ∈ transferItems, IsItem item := by
  decide +kernel

/-- The example is accepted, under the hash of its bytes. -/
theorem transfer_accepted : decodeRawTx transferHost transferCurve (encodeList transferItems) =
    .ok (transferTx 0x33469b22e9f636356c4160a87eb19df52b7412e8eac32a4a55ffe88ea8350788) := by
  decide +kernel

/-- The fields of a dynamic fee transaction; its access list is not among them. -/
def accessFields : TxFields where
  chainId := some 1
  nonce := 0
  gasLimit := 21000
  maxFeePerGas := 2
  maxPriorityFeePerGas := 1
  to_ := some 0x3535353535353535353535353535353535353535
  value := 1
  data := []
  r := beBytes 32 0xf973a0b87062c389d125d8199e803b832b6ac6bf7867a4f6cd87506060fc4c58
  s := beBytes 32 0x17d89fa732056cab47f89134b03c27c8bfd0bd99557ad4a6b0fccfdaceb89c43
  recId := 0

/-- Its twelve items, with an access list of one address and no slots. -/
def accessItems : List Bytes :=
  accessFields.headEip1559 ++
    [encodeList [encodeList [encodeString (List.replicate 20 0x35), encodeList []]],
      encodeNumber 0, encodeString accessFields.r, encodeString accessFields.s]

/-- The same twelve items without an access list, under the same signature. -/
def plainItems : List Bytes :=
  accessFields.headEip1559 ++
    [encodeList [], encodeNumber 0, encodeString accessFields.r, encodeString accessFields.s]

/-- The key that is recovered from the digest without the access list. -/
def strangerKey : Bytes :=
  beBytes 32 0xfbf762c67df75bd1d0d9c22705503809baac36757ebb2f7f2f7d20649c9d9085 ++
    beBytes 32 0xceab52198f2ca7b376907871f58cb322cd294bd458ac4f0e8b93608c010f0b80

def strangerHash : Word := 0xb7f447fea8a630a133940a52d8b7296453cabe969069674297abbc383a49cb0a

def accessHost : Host := tableHost
  [(0x02 :: encodeList (accessItems.take 9),
      0x433536018ac25637022bb0934d1e17014ecb1ff894ca2eff43b979e33c863ce2),
    (0x02 :: encodeList (accessFields.headEip1559 ++ [[0xc0]]),
      0x4373efc1c8669972a802be7f640cd0c0a15bc11495819b84cdaca4ea672fe553),
    (signerKey, signerHash),
    (strangerKey, strangerHash),
    (0x02 :: encodeList accessItems,
      0x56670708f2c8ffce0de83148f05f0cb6d1bed3f313dd937e6c873ec38bdab10c),
    (0x02 :: encodeList plainItems,
      0x1ece35dbbfe3164de48f295eb6a43364eb8f71b8db44e6b87ffae1811a759075)]

def accessCurve : Secp256k1 := tableCurve
  [((0x433536018ac25637022bb0934d1e17014ecb1ff894ca2eff43b979e33c863ce2,
      accessFields.r ++ accessFields.s, 0), signerKey),
    ((0x4373efc1c8669972a802be7f640cd0c0a15bc11495819b84cdaca4ea672fe553,
      accessFields.r ++ accessFields.s, 0), strangerKey)]

/-- Without an access list that key is the sender's. -/
theorem plain_accepted : decodeRawTx accessHost accessCurve (0x02 :: encodeList plainItems) =
    .ok (accessFields.transaction
      0x1ece35dbbfe3164de48f295eb6a43364eb8f71b8db44e6b87ffae1811a759075 .eip1559
      (accountAddress strangerHash)) := by
  decide +kernel

/-- A legacy transaction and one with dynamic fees, each signed as it was sent. -/
theorem signed_digest_of_transfer :
    (∃ fields hashed v, (readLegacy (Rlp.new (encodeList transferItems))).1 = .ok fields ∧
      transferItems.drop 6 = [encodeNumber v, encodeString fields.r, encodeString fields.s] ∧
      recoverSender transferHost transferCurve (transferHost.keccak256 hashed) fields.r fields.s
        fields.recId = .ok (accountAddress signerHash) ∧
      HashedIff transferHost hashed (encodeList (legacySigned transferItems v))
        ((legacySigned transferItems v).flatten.length < 2 ^ 32)) ∧
    ∃ fields hashed, (readEip1559 (Rlp.new (encodeList plainItems))).1 = .ok fields ∧
      recoverSender accessHost accessCurve (accessHost.keccak256 hashed) fields.r fields.s
        fields.recId = .ok (accountAddress strangerHash) ∧
      hashed = 0x02 :: encodeList (plainItems.take 9) := by
  constructor
  · obtain ⟨fields, hashed, v, read, _, signature, _, _, recovered, exactly⟩ :=
      (signed_digest_iff transferHost transferCurve isItem_transferItems (by decide +kernel)).2
        (by decide) transfer_accepted
    exact ⟨fields, hashed, v, read, signature, recovered, exactly⟩
  · -- The access list is empty, which makes the condition true.
    have items : ∀ item ∈ plainItems, IsItem item := by decide +kernel
    obtain ⟨fields, hashed, read, _, _, recovered, exactly, _⟩ :=
      (signed_digest_iff accessHost accessCurve items (by decide +kernel)).1 (by decide)
        plain_accepted
    exact ⟨fields, hashed, read, recovered, exactly.mpr ⟨rfl, by decide +kernel⟩⟩

/-- With an access list the digest is another one, and so is the sender. -/
theorem access_list_changes_sender :
    (∀ item ∈ accessItems, IsItem item) ∧
    recoverSender accessHost accessCurve
      (accessHost.keccak256 (0x02 :: encodeList (accessItems.take 9))) accessFields.r
      accessFields.s 0 = .ok (accountAddress signerHash) ∧
    ∃ tx, decodeRawTx accessHost accessCurve (0x02 :: encodeList accessItems) = .ok tx ∧
      tx.sender ≠ accountAddress signerHash := by
  refine ⟨?_, ?_, ?_⟩
  · decide +kernel
  · decide +kernel
  · have accepted : (decodeRawTx accessHost accessCurve (0x02 :: encodeList accessItems)).toOption.any
        (fun tx => tx.sender != accountAddress signerHash) = true := by
      decide +kernel
    -- Accepting was checked with the sender in one go; the outcome is named here.
    cases decoded : decodeRawTx accessHost accessCurve (0x02 :: encodeList accessItems) with
    | error failure =>
      rw [decoded] at accepted
      cases accepted
    | ok tx =>
      rw [decoded] at accepted
      refine ⟨tx, rfl, ?_⟩
      simpa [Except.toOption] using accepted

end Signing

end MiniEvm
