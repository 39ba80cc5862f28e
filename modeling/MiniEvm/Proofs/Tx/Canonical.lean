import MiniEvm.Proofs.Tx.Content

/-! Which accepted bytes are the one encoding of the transaction that they decode to. -/

namespace MiniEvm

open BigEndian RlpFormat

section Signatures

/-- The number that is made of one half of a signature. -/
def signatureNumber (bytes : Bytes) : Nat := value (padZeroLeft bytes 32)

/-- Half a signature is read as a word. -/
theorem signatureNumber_lt (bytes : Bytes) : signatureNumber bytes < 2 ^ 256 := by
  have bound := value_lt (padZeroLeft bytes 32)
  rwa [length_padZeroLeft] at bound

/-- Zeros write zero. -/
theorem value_replicate_zero (count : Nat) : value (List.replicate count (0 : UInt8)) = 0 := by
  induction count with
  | zero => rfl
  | succ count ih => rw [List.replicate_succ, value_cons, ih, UInt8.toNat_zero, Nat.zero_mul]

/-- A half with nothing to spare is the digits of its number. -/
theorem digits_signatureNumber {bytes : Bytes} (shortest : Shortest bytes)
    (short : bytes.length ≤ 32) : digits (signatureNumber bytes) = bytes := by
  -- Padding puts zeros in front, which change no number.
  have number : signatureNumber bytes = value bytes := by
    unfold signatureNumber padZeroLeft
    split
    · rw [Nat.sub_eq_zero_of_le short, List.drop_zero]
    · rw [value_append, value_replicate_zero, Nat.zero_mul, Nat.zero_add]
  rw [number, digits_value shortest]

end Signatures

section Encodings

/-- The items of a dynamic fee transaction with what was decoded, and an empty access list. -/
def TxFields.canonicalEip1559 (fields : TxFields) : List Bytes :=
  fields.headEip1559 ++ [encodeList [], encodeNumber fields.recId,
    encodeNumber (signatureNumber fields.r), encodeNumber (signatureNumber fields.s)]

/-- The items of a legacy transaction with what was decoded. -/
def TxFields.canonicalLegacy (fields : TxFields) : List Bytes :=
  fields.headLegacy ++ [encodeNumber fields.parityNumber,
    encodeNumber (signatureNumber fields.r), encodeNumber (signatureNumber fields.s)]

/-- A transaction encoded again from its fields and the values of its signature. -/
def TxFields.reencode : TxType → TxFields → Bytes
  | .eip1559, fields => 0x02 :: encodeList fields.canonicalEip1559
  -- The remaining type is never decoded.
  | _, fields => encodeList fields.canonicalLegacy

/-- A string of at most thirty-two bytes without a zero in front. -/
def MinimalItem (items : List Bytes) (index : Nat) : Prop :=
  ∃ bytes, items[index]? = some (encodeString bytes) ∧ Shortest bytes ∧ bytes.length ≤ 32

/-- Twelve items, of which the access list is empty and the signature is minimal. -/
structure PlainEip1559 (items : List Bytes) : Prop where
  twelve : items.length = 12
  accessList : items[8]? = some (encodeList [])
  r : MinimalItem items 10
  s : MinimalItem items 11

/-- Nine items, of which the signature is minimal. -/
structure PlainLegacy (items : List Bytes) : Prop where
  nine : items.length = 9
  r : MinimalItem items 7
  s : MinimalItem items 8

/-- One list and nothing behind it, without anything that decoding ignores. -/
def PlainBytes : Bytes → Prop
  | [] => False
  | first :: rest =>
    if first = 0x02 then ∃ items, splitList rest = some items ∧ PlainEip1559 items
    else ∃ items, splitList (first :: rest) = some items ∧ PlainLegacy items

/-- A receiver is an item, also when it is none. -/
theorem isItem_receiverBytes (to_ : Option Address) :
    IsItem (encodeString (receiverBytes to_)) := by
  apply isItem_encodeString
  cases to_ with
  | none => decide
  | some address =>
    rw [receiverBytes, length_beBytes]
    decide

/-- A number of sixty-four bits is an item, as is every number of the shorter types. -/
theorem isItem_encodeNumber_of_word {number : Nat} (small : number < 2 ^ 64) :
    IsItem (encodeNumber number) :=
  isItem_encodeNumber (Nat.lt_trans small (by decide))

/-- The fields of a dynamic fee transaction are items. -/
theorem isItem_headEip1559 {fields : TxFields} (typed : fields.Typed) :
    ∀ item ∈ fields.headEip1559, IsItem item := by
  simp only [TxFields.headEip1559, List.forall_mem_cons]
  exact ⟨isItem_encodeNumber_of_word typed.chainId, isItem_encodeNumber_of_word typed.nonce,
    isItem_encodeNumber (BitVec.isLt _), isItem_encodeNumber (BitVec.isLt _),
    isItem_encodeNumber_of_word typed.gasLimit, isItem_receiverBytes _,
    isItem_encodeNumber (BitVec.isLt _), isItem_encodeString typed.data,
    fun item member => absurd member List.not_mem_nil⟩

/-- The fields of a legacy transaction are items. -/
theorem isItem_headLegacy {fields : TxFields} (typed : fields.Typed) :
    ∀ item ∈ fields.headLegacy, IsItem item := by
  simp only [TxFields.headLegacy, List.forall_mem_cons]
  exact ⟨isItem_encodeNumber_of_word typed.nonce, isItem_encodeNumber (BitVec.isLt _),
    isItem_encodeNumber_of_word typed.gasLimit, isItem_receiverBytes _,
    isItem_encodeNumber (BitVec.isLt _), isItem_encodeString typed.data,
    fun item member => absurd member List.not_mem_nil⟩

/-- The parts of a canonical dynamic fee transaction are items. -/
theorem isItem_canonicalEip1559 {fields : TxFields} (typed : fields.Typed)
    (paritySize : fields.recId < 256) : ∀ item ∈ fields.canonicalEip1559, IsItem item := by
  intro item member
  -- The signed part is followed by the access list and the signature.
  rcases List.mem_append.mp member with front | back
  · exact isItem_headEip1559 typed item front
  · simp only [List.mem_cons, List.not_mem_nil, or_false] at back
    rcases back with rfl | rfl | rfl | rfl
    · exact isItem_encodeList (by decide)
    · exact isItem_encodeNumber (Nat.lt_trans paritySize (by decide))
    · exact isItem_encodeNumber (signatureNumber_lt _)
    · exact isItem_encodeNumber (signatureNumber_lt _)

/-- The parts of a canonical legacy transaction are items. -/
theorem isItem_canonicalLegacy {fields : TxFields} (typed : fields.Typed)
    (paritySize : fields.parityNumber < 2 ^ 64) :
    ∀ item ∈ fields.canonicalLegacy, IsItem item := by
  intro item member
  -- The signed part is followed by the signature.
  rcases List.mem_append.mp member with front | back
  · exact isItem_headLegacy typed item front
  · simp only [List.mem_cons, List.not_mem_nil, or_false] at back
    rcases back with rfl | rfl | rfl
    · exact isItem_encodeNumber_of_word paritySize
    · exact isItem_encodeNumber (signatureNumber_lt _)
    · exact isItem_encodeNumber (signatureNumber_lt _)

/-- A number in its digits is minimal. -/
theorem minimalItem_encodeNumber {items : List Bytes} {index number : Nat}
    (small : number < 2 ^ 256) (found : items[index]? = some (encodeNumber number)) :
    MinimalItem items index :=
  ⟨digits number, found, shortest_digits number, length_digits_le small⟩

/-- A minimal half of a signature is the encoding of its number. -/
theorem encodeString_of_minimalItem {items : List Bytes} {index : Nat} {bytes : Bytes}
    (small : bytes.length < 2 ^ 64) (found : items[index]? = some (encodeString bytes))
    (minimal : MinimalItem items index) :
    encodeNumber (signatureNumber bytes) = encodeString bytes := by
  -- The minimal string at the index is the one that was read there.
  obtain ⟨other, found', shortest, short⟩ := minimal
  rw [found, Option.some.injEq] at found'
  obtain rfl := encodeString_inj small (Nat.lt_of_le_of_lt short (by decide)) found'
  rw [encodeNumber, digits_signatureNumber shortest short]

/-- A list that was encoded is split into the items it was made of. -/
theorem splitList_of_encodeList_eq {items : List Bytes} {payload : Bytes}
    (small : payload.length < 2 ^ 63) (all : ∀ item ∈ items, IsItem item)
    (same : encodeList items = payload) : splitList payload = some items := by
  have total := length_le_encodeList items
  rw [same] at total
  rw [← same]
  exact splitList_encodeList (by omega) all

/-- Where a list splits, the view iterates over the same items, unless there are none. -/
theorem listItems_of_splitList {items : List Bytes} {payload : Bytes}
    (split : splitList payload = some items) (length : items.length ≠ 0) :
    payload = encodeList items ∧ listItems payload = items := by
  obtain ⟨rfl, all, fits⟩ := encodeList_of_splitList split
  -- Without a first item a view finds nothing, whatever follows.
  have some_ : items ≠ [] := by
    rintro rfl
    exact length rfl
  exact ⟨rfl, listItems_encodeList some_ all fits⟩

/-- A dynamic fee transaction is encoded again as it was, if nothing in it is ignored. -/
theorem reencode_eip1559_iff {payload : Bytes} {fields : TxFields}
    (small : payload.length < 2 ^ 63) (enough : 12 ≤ (listItems payload).length)
    (read : eip1559Fields (listItems payload) = .ok fields) :
    encodeList fields.canonicalEip1559 = payload ↔
      ∃ items, splitList payload = some items ∧ PlainEip1559 items := by
  obtain ⟨typed, paritySize, access, more, view⟩ := items_of_eip1559Fields enough read
  constructor
  · intro same
    have split := splitList_of_encodeList_eq small (isItem_canonicalEip1559 typed paritySize) same
    exact ⟨_, split, rfl, rfl, minimalItem_encodeNumber (signatureNumber_lt fields.r) rfl,
      minimalItem_encodeNumber (signatureNumber_lt fields.s) rfl⟩
  · rintro ⟨items, split, plain⟩
    have length : items.length ≠ 0 := by rw [plain.twelve]; decide
    obtain ⟨bytes, same⟩ := listItems_of_splitList split length
    rw [same] at view
    -- Twelve items leave no room for more, and the one that is not read is the empty list.
    obtain rfl : more = [] := by
      have twelve := plain.twelve
      rw [view] at twelve
      simpa [TxFields.headEip1559] using twelve
    have none_ : access = encodeList [] := by
      have eighth := plain.accessList
      rw [view] at eighth
      exact Option.some.inj eighth
    have r := encodeString_of_minimalItem typed.r (by rw [view]; rfl) plain.r
    have s := encodeString_of_minimalItem typed.s (by rw [view]; rfl) plain.s
    rw [bytes, TxFields.canonicalEip1559, r, s, ← none_, ← view]

/-- A legacy transaction is encoded again as it was, if nothing in it is ignored. -/
theorem reencode_legacy_iff {rawBytes : Bytes} {fields : TxFields}
    (small : rawBytes.length < 2 ^ 63) (enough : 9 ≤ (listItems rawBytes).length)
    (read : legacyFields (listItems rawBytes) = .ok fields) :
    encodeList fields.canonicalLegacy = rawBytes ↔
      ∃ items, splitList rawBytes = some items ∧ PlainLegacy items := by
  obtain ⟨typed, paritySize, _, more, view⟩ := items_of_legacyFields enough read
  constructor
  · -- What is encoded anew splits into the parts that it was put together from.
    intro same
    have split := splitList_of_encodeList_eq small (isItem_canonicalLegacy typed paritySize) same
    exact ⟨_, split, rfl, minimalItem_encodeNumber (signatureNumber_lt fields.r) rfl,
      minimalItem_encodeNumber (signatureNumber_lt fields.s) rfl⟩
  · rintro ⟨items, split, plain⟩
    have length : items.length ≠ 0 := by rw [plain.nine]; decide
    obtain ⟨bytes, same⟩ := listItems_of_splitList split length
    rw [same] at view
    -- Nine items were read, so that nothing is behind them.
    obtain rfl : more = [] := by
      have nine := plain.nine
      rw [view] at nine
      simpa [TxFields.headLegacy] using nine
    have r := encodeString_of_minimalItem typed.r (by rw [view]; rfl) plain.r
    have s := encodeString_of_minimalItem typed.s (by rw [view]; rfl) plain.s
    rw [bytes, TxFields.canonicalLegacy, r, s, ← view]

end Encodings

section Tails

/-- Bytes behind some items take none of them away. -/
theorem Consecutive.append {bytes more : Bytes} {items items' : List Bytes}
    (consecutive : Consecutive bytes items) (consecutive' : Consecutive (bytes ++ more) items') :
    items <+: items' := by
  induction consecutive generalizing items' with
  | nil none_ => exact List.nil_prefix
  | @cons bytes found items holds later ih =>
    have holds' := holds.append more
    cases consecutive' with
    | nil none_ => exact absurd holds' (none_ found)
    | @cons _ other rest held later' =>
      -- The header is that of the first item still, and the others come behind it as before.
      have same := (header_eq_some_iff.mpr holds'.1).symm.trans (header_eq_some_iff.mpr held.1)
      obtain rfl := Option.some.inj same
      rw [List.drop_append_of_le_length holds.2] at later'
      rw [List.take_append_of_le_length holds.2]
      exact List.cons_prefix_cons.mpr ⟨rfl, ih later'⟩

/-- A view finds the same first items, whatever follows the bytes. -/
theorem listItems_append (bytes more : Bytes) : listItems bytes <+: listItems (bytes ++ more) := by
  cases list : (Rlp.new bytes).isList with
  | false => simp [listItems, list]
  | true =>
    rcases listed_or_empty list with ⟨found, listed⟩ | ⟨empty, _⟩
    · have holds := listed.holds
      have within : found.offset ≤ bytes.length := Nat.le_trans (Nat.le_add_right _ _) holds.2
      have list' : (Rlp.new (bytes ++ more)).isList = true := by
        cases bytes with
        | nil => cases list
        | cons first rest => exact list
      -- The check inside of the list sees the same payload.
      have payload : slice (bytes ++ more) found.offset (found.offset + found.length) =
          slice bytes found.offset (found.offset + found.length) := by
        rw [slice, slice, List.take_append_of_le_length holds.2]
      obtain ⟨inner, first⟩ := listed.first
      have items : listItems (bytes ++ more) =
          itemsFrom (bytes ++ more).length ((bytes ++ more).drop found.offset) := by
        simp only [listItems, list', if_true, payloadInfo_of_holds (holds.append more),
          PayloadInfo.total, payload, payloadInfo_of_holds first]
      rw [items, List.drop_append_of_le_length within]
      refine listed.consecutive.append (consecutive_itemsFrom ?_)
      rw [List.length_append, List.length_append, List.length_drop]
      omega
    · rw [empty]
      exact List.nil_prefix

/-- An item that is there decodes to the same with more items behind. -/
theorem fieldAt_append {α : Type} (decode : Bytes → Decoded α) {items : List Bytes} {index : Nat}
    (inside : index < items.length) (more : List Bytes) :
    fieldAt decode (items ++ more) index = fieldAt decode items index := by
  simp only [fieldAt, List.getD_eq_getElem?_getD, List.getElem?_append_left inside]

/-- Items behind the twelfth are not read. -/
theorem eip1559Fields_append {items : List Bytes} (enough : 12 ≤ items.length)
    (more : List Bytes) : eip1559Fields (items ++ more) = eip1559Fields items := by
  have same {α : Type} (decode : Bytes → Decoded α) (index : Nat) (below : index < 12) :
      fieldAt decode (items ++ more) index = fieldAt decode items index :=
    fieldAt_append decode (Nat.lt_of_lt_of_le below enough) more
  simp only [eip1559Fields, same, Nat.reduceLT]

/-- Items behind the ninth are not read. -/
theorem legacyFields_append {items : List Bytes} (enough : 9 ≤ items.length)
    (more : List Bytes) : legacyFields (items ++ more) = legacyFields items := by
  have same {α : Type} (decode : Bytes → Decoded α) (index : Nat) (below : index < 9) :
      fieldAt decode (items ++ more) index = fieldAt decode items index :=
    fieldAt_append decode (Nat.lt_of_lt_of_le below enough) more
  simp only [legacyFields, same, Nat.reduceLT]

/-- A dynamic fee transaction is read from its first bytes. -/
theorem readEip1559_append {payload : Bytes} {fields : TxFields}
    (read : (readEip1559 (Rlp.new payload)).1 = .ok fields) (more : Bytes) :
    (readEip1559 (Rlp.new (payload ++ more))).1 = .ok fields := by
  rw [readEip1559_eq] at read ⊢
  split at read
  · cases read
  · rename_i enough
    -- The items of the payload come first, and no more than these are looked at.
    obtain ⟨later, items⟩ := listItems_append payload more
    rw [← items, List.length_append, if_neg (by omega),
      eip1559Fields_append (Nat.not_lt.mp enough), read]

/-- So is a legacy transaction. -/
theorem readLegacy_append {rawBytes : Bytes} {fields : TxFields}
    (read : (readLegacy (Rlp.new rawBytes)).1 = .ok fields) (more : Bytes) :
    (readLegacy (Rlp.new (rawBytes ++ more))).1 = .ok fields := by
  rw [readLegacy_eq] at read ⊢
  split at read
  · cases read
  · rename_i enough
    obtain ⟨later, items⟩ := listItems_append rawBytes more
    rw [← items, List.length_append, if_neg (by omega),
      legacyFields_append (Nat.not_lt.mp enough), read]

end Tails

section Accepted

/-- The fields that were read from some bytes. -/
inductive ReadFrom (rawBytes : Bytes) : TxType → TxFields → Prop
  | eip1559 {payload fields} : rawBytes = 0x02 :: payload →
      (readEip1559 (Rlp.new payload)).1 = .ok fields → ReadFrom rawBytes .eip1559 fields
  | legacy {first rest fields} : rawBytes = first :: rest → first ≠ 0x02 →
      (readLegacy (Rlp.new rawBytes)).1 = .ok fields → ReadFrom rawBytes .legacy fields

/-- The same content and the same signature, however its two numbers were written. -/
structure TxFields.SameSigned (fields fields' : TxFields) : Prop where
  content : { fields' with r := fields.r, s := fields.s } = fields
  r : signatureNumber fields'.r = signatureNumber fields.r
  s : signatureNumber fields'.s = signatureNumber fields.s

/-- A transaction has the fields that were signed. -/
theorem transaction_of_signed {host : Host} {curve : Secp256k1} {txHash : Word} {txType : TxType}
    {fields : TxFields} {unsigned : Bytes} {tx : SignedTransaction}
    (signed : fields.signed host curve txHash txType unsigned = .ok tx) :
    tx.txType = txType ∧ tx = fields.transaction txHash txType tx.sender := by
  obtain ⟨sender, recovered, rest⟩ := ok_of_bind signed
  cases rest
  exact ⟨rfl, rfl⟩

/-- An accepted transaction was read from its bytes. -/
theorem readFrom_of_accepted {host : Host} {curve : Secp256k1} {rawBytes : Bytes}
    {tx : SignedTransaction} (accepted : decodeRawTx host curve rawBytes = .ok tx) :
    ∃ fields, ReadFrom rawBytes tx.txType fields ∧
      tx = fields.transaction (host.keccak256 rawBytes) tx.txType tx.sender := by
  cases rawBytes with
  | nil => cases accepted
  | cons first rest =>
    simp only [decodeRawTx] at accepted
    -- The first byte decides how the rest is read.
    by_cases typed : first = 0x02
    · rw [if_pos typed] at accepted
      obtain ⟨fields, _, read, _, signed⟩ := fields_of_eip1559 accepted
      obtain ⟨type_, same⟩ := transaction_of_signed signed
      rw [type_]
      exact ⟨fields, .eip1559 (by rw [typed]) read, same⟩
    · rw [if_neg typed] at accepted
      by_cases list : 0xc0 ≤ first
      · rw [if_pos list] at accepted
        obtain ⟨fields, _, read, _, signed⟩ := fields_of_legacy accepted
        obtain ⟨type_, same⟩ := transaction_of_signed signed
        rw [type_]
        exact ⟨fields, .legacy rfl typed read, same⟩
      · rw [if_neg list] at accepted
        cases accepted

/-- The same fields are read with more bytes behind. -/
theorem ReadFrom.append {rawBytes : Bytes} {txType : TxType} {fields : TxFields}
    (read : ReadFrom rawBytes txType fields) (more : Bytes) :
    ReadFrom (rawBytes ++ more) txType fields := by
  cases read with
  | @eip1559 payload _ typed read =>
    subst typed
    exact .eip1559 List.cons_append (readEip1559_append read more)
  | @legacy first rest _ bytes typed read =>
    subst bytes
    exact .legacy List.cons_append typed (readLegacy_append read more)

/-- Another hash of the bytes is another hash of the transaction, and all that changes in it. -/
theorem signed_of_signed {host : Host} {curve : Secp256k1} {txHash : Word} {txType : TxType}
    {fields : TxFields} {unsigned : Bytes} {tx : SignedTransaction}
    (signed : fields.signed host curve txHash txType unsigned = .ok tx) (txHash' : Word) :
    fields.signed host curve txHash' txType unsigned = .ok { tx with hash := txHash' } := by
  obtain ⟨sender, recovered, rest⟩ := ok_of_bind signed
  cases rest
  simp only [TxFields.signed, recovered, bind, Except.bind]
  rfl

/-- An accepted transaction is accepted with any bytes behind it, under the hash of them all. -/
theorem accepted_append {host : Host} {curve : Secp256k1} {rawBytes : Bytes}
    {tx : SignedTransaction} (accepted : decodeRawTx host curve rawBytes = .ok tx) (more : Bytes) :
    decodeRawTx host curve (rawBytes ++ more) =
      .ok { tx with hash := host.keccak256 (rawBytes ++ more) } := by
  cases rawBytes with
  | nil => cases accepted
  | cons first rest =>
    simp only [decodeRawTx, List.cons_append] at accepted ⊢
    -- The first byte decides how the rest is read, and it stays the first.
    by_cases typed : first = 0x02
    · rw [if_pos typed] at accepted ⊢
      obtain ⟨fields, _, read, _, signed⟩ := fields_of_eip1559 accepted
      simp only [decodeEip1559, readEip1559_append read more, bind, Except.bind,
        unsignedEip1559_eq]
      exact signed_of_signed signed _
    · rw [if_neg typed] at accepted ⊢
      by_cases list : 0xc0 ≤ first
      · rw [if_pos list] at accepted ⊢
        obtain ⟨fields, _, read, _, signed⟩ := fields_of_legacy accepted
        have read' := readLegacy_append read more
        rw [List.cons_append] at read'
        simp only [decodeLegacy, read', bind, Except.bind, unsignedLegacy_eq]
        exact signed_of_signed signed _
      · rw [if_neg list] at accepted
        cases accepted

/-- Fields are encoded again as the bytes they were read from exactly if those are plain. -/
theorem reencode_iff {rawBytes : Bytes} {txType : TxType} {fields : TxFields}
    (small : rawBytes.length < 2 ^ 63) (read : ReadFrom rawBytes txType fields) :
    fields.reencode txType = rawBytes ↔ PlainBytes rawBytes := by
  -- Both envelopes come to the parts of their list.
  cases read with
  | @eip1559 payload _ typed read =>
    subst typed
    rw [readEip1559_eq] at read
    split at read
    · cases read
    · rename_i enough
      simp only [TxFields.reencode, PlainBytes, if_true, List.cons.injEq, true_and]
      apply reencode_eip1559_iff _ (Nat.not_lt.mp enough) read
      rw [List.length_cons] at small
      omega
  | @legacy first rest _ bytes typed read =>
    subst bytes
    rw [readLegacy_eq] at read
    split at read
    · cases read
    · rename_i enough
      simp only [TxFields.reencode, PlainBytes, if_neg typed]
      exact reencode_legacy_iff small (Nat.not_lt.mp enough) read

/-- What is encoded depends on the content and the signature only. -/
theorem TxFields.SameSigned.reencode_eq {fields fields' : TxFields}
    (same : fields.SameSigned fields') (txType : TxType) :
    fields'.reencode txType = fields.reencode txType := by
  -- All but the two halves are equal, and of those only the numbers are encoded.
  obtain ⟨content, r, s⟩ := same
  have parts : fields'.headEip1559 = fields.headEip1559 ∧ fields'.headLegacy = fields.headLegacy ∧
      fields'.recId = fields.recId ∧ fields'.parityNumber = fields.parityNumber := by
    rw [← content]
    exact ⟨rfl, rfl, rfl, rfl⟩
  obtain ⟨dynamic, legacy, recId, parity⟩ := parts
  cases txType with
  | eip1559 => simp only [reencode, canonicalEip1559, dynamic, recId, r, s]
  | legacy => simp only [reencode, canonicalLegacy, legacy, parity, r, s]
  | eip2930 => simp only [reencode, canonicalLegacy, legacy, parity, r, s]

/-- No other bytes are accepted as the same transaction under another hash. -/
def Unalterable (host : Host) (curve : Secp256k1) (rawBytes : Bytes) (tx : SignedTransaction) :
    Prop :=
  ∀ rawBytes' tx', decodeRawTx host curve rawBytes' = .ok tx' → { tx' with hash := tx.hash } = tx →
    rawBytes' = rawBytes

/-- Every accepted transaction can be altered. -/
theorem not_unalterable {host : Host} {curve : Secp256k1} {rawBytes : Bytes}
    {tx : SignedTransaction} (accepted : decodeRawTx host curve rawBytes = .ok tx) :
    ¬ Unalterable host curve rawBytes tx := by
  intro unalterable
  -- One byte more is enough.
  have same := unalterable (rawBytes ++ [0]) _ (accepted_append accepted [0]) rfl
  simp at same

/--
Which accepted bytes are canonical, and what can be done to them.

Accepted bytes are the encoding of what they decode to exactly if nothing in them is ignored, and
no other such bytes decode to the same content and signature.
Yet whoever sees them can put any further bytes behind, which are accepted as the same transaction
of the same sender, under another hash.
-/
theorem accepted_is_canonical_iff (host : Host) (curve : Secp256k1) {rawBytes : Bytes}
    {tx : SignedTransaction} (small : rawBytes.length < 2 ^ 63)
    (accepted : decodeRawTx host curve rawBytes = .ok tx) :
    ∃ fields, ReadFrom rawBytes tx.txType fields ∧
      tx = fields.transaction (host.keccak256 rawBytes) tx.txType tx.sender ∧
      (fields.reencode tx.txType = rawBytes ↔ PlainBytes rawBytes) ∧
      (PlainBytes rawBytes → ∀ rawBytes' fields', rawBytes'.length < 2 ^ 63 →
        ReadFrom rawBytes' tx.txType fields' → PlainBytes rawBytes' →
        fields.SameSigned fields' → rawBytes' = rawBytes) ∧
      ¬ Unalterable host curve rawBytes tx ∧
      ∀ more, ReadFrom (rawBytes ++ more) tx.txType fields ∧
        decodeRawTx host curve (rawBytes ++ more) =
          .ok { tx with hash := host.keccak256 (rawBytes ++ more) } := by
  obtain ⟨fields, read, content⟩ := readFrom_of_accepted accepted
  refine ⟨fields, read, content, reencode_iff small read, ?_, not_unalterable accepted,
    fun more => ⟨read.append more, accepted_append accepted more⟩⟩
  -- Both byte strings are the encoding of one content and signature.
  intro plain rawBytes' fields' small' read' plain' same
  calc rawBytes' = fields'.reencode tx.txType := ((reencode_iff small' read').mpr plain').symm
    _ = fields.reencode tx.txType := same.reencode_eq tx.txType
    _ = rawBytes := (reencode_iff small read).mpr plain

theorem accepted_is_canonical_of_transfer :
    ∃ fields, ReadFrom (encodeList transferItems) .legacy fields ∧
      fields.reencode .legacy = encodeList transferItems ∧
      ReadFrom (encodeList transferItems ++ [0]) .legacy fields ∧
      decodeRawTx transferHost transferCurve (encodeList transferItems ++ [0]) =
        .ok (transferTx (transferHost.keccak256 (encodeList transferItems ++ [0]))) := by
  have plain : PlainBytes (encodeList transferItems) := by
    have split : splitList (encodeList transferItems) = some transferItems := by decide +kernel
    have halves : MinimalItem transferItems 7 ∧ MinimalItem transferItems 8 :=
      ⟨⟨transferFields.r, rfl, by decide, by decide⟩, ⟨transferFields.s, rfl, by decide, by decide⟩⟩
    exact ⟨transferItems, split, rfl, halves.1, halves.2⟩
  obtain ⟨fields, read, _, same, _, _, longer⟩ :=
    accepted_is_canonical_iff transferHost transferCurve (by decide +kernel) transfer_accepted
  exact ⟨fields, read, same.mpr plain, longer [0]⟩

/-- A byte behind the list is ignored: it changes the hash, but not what is signed or by whom. -/
theorem trailing_byte_is_accepted :
    ∃ tx tx', decodeRawTx transferHost transferCurve (encodeList transferItems) = .ok tx ∧
      decodeRawTx transferHost transferCurve (encodeList transferItems ++ [0]) = .ok tx' ∧
      ReadFrom (encodeList transferItems) .legacy transferFields ∧
      ReadFrom (encodeList transferItems ++ [0]) .legacy transferFields ∧
      transferFields.reencode .legacy ≠ encodeList transferItems ++ [0] ∧
      tx'.sender = tx.sender ∧ tx'.hash ≠ tx.hash := by
  -- The two transactions differ in the hash only, which is that of all bytes.
  refine ⟨transferTx 0x33469b22e9f636356c4160a87eb19df52b7412e8eac32a4a55ffe88ea8350788,
    transferTx 0x011079a7b8e60a13e7b22580ea8c2da672d4a1a4d850983a9de02d4d466dd0b9,
    ?_, ?_, ?_, ?_, ?_, rfl, by decide⟩
  · decide +kernel
  · decide +kernel
  · have first : encodeList transferItems = 0xf8 :: (encodeList transferItems).tail := by
      decide +kernel
    exact .legacy first (by decide) (by decide +kernel)
  · have first : encodeList transferItems ++ [0] = 0xf8 :: (encodeList transferItems ++ [0]).tail := by
      decide +kernel
    exact .legacy first (by decide) (by decide +kernel)
  · decide +kernel

end Accepted

end MiniEvm
