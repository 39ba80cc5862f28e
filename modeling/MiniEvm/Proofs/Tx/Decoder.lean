import MiniEvm.Proofs.Tx.Stream
import MiniEvm.Proofs.Tx.View
import MiniEvm.Proofs.Vm.Runs

/-! What the fields of an accepted transaction say about its items, and which bytes panic. -/

namespace MiniEvm

open BigEndian RlpFormat

section Panics

variable {ε α β : Type}

/-- A sequence panics in its first part, or behind it. -/
theorem bind_eq_panic {step : Except (Failure ε) α} {rest : α → Except (Failure ε) β} :
    (step >>= rest) = .error .panic ↔
      step = .error .panic ∨ ∃ middle, step = .ok middle ∧ rest middle = .error .panic := by
  cases step with
  | error failure => simp [bind, Except.bind]
  | ok middle => simp [bind, Except.bind]

/-- A refusal is no panic. -/
theorem refuse_ne_panic (cause : ε) : (refuse cause : Except (Failure ε) α) ≠ .error .panic :=
  fun same => nomatch same

/-- An item decodes, with its result in its one encoding, or its transaction is invalid. -/
theorem fieldAt_cases {decode : Bytes → Decoded α} {bytesOf : α → Bytes} {good : α → Prop}
    {items : List Bytes} {index : Nat} (decodes : Decodes decode bytesOf good (items.getD index [])) :
    (∃ result, fieldAt decode items index = .ok result ∧ good result ∧
      items.getD index [] = encodeString (bytesOf result)) ∨
    fieldAt decode items index = refuse .invalidRlp := by
  unfold fieldAt
  rcases decodes with ⟨result, read, holds, encoded⟩ | ⟨cause, refused⟩
  · exact .inl ⟨result, by rw [read]; rfl, holds, encoded⟩
  · exact .inr (by rw [refused]; rfl)

/-- A field is read without a panic, whatever its item. -/
theorem fieldAt_ne_panic {decode : Bytes → Decoded α} {bytesOf : α → Bytes} {good : α → Prop}
    {items : List Bytes} {index : Nat} (decodes : Decodes decode bytesOf good (items.getD index [])) :
    fieldAt decode items index ≠ .error .panic := by
  rcases fieldAt_cases decodes with ⟨result, read, _⟩ | refused
  · rw [read]
    exact fun same => nomatch same
  · rw [refused]
    exact refuse_ne_panic _

/-- It is what its item decodes to. -/
theorem fieldAt_eq_ok_iff {decode : Bytes → Decoded α} {items : List Bytes} {index : Nat}
    {result : α} :
    fieldAt decode items index = .ok result ↔ decode (items.getD index []) = .ok result := by
  unfold fieldAt
  cases decode (items.getD index []) with
  | ok other => simp [orInvalidRlp]
  | error failure => cases failure <;> simp [orInvalidRlp]

/-- The receiver panics on any length but that of an address or none at all. -/
theorem receiver_eq_panic_iff {bytes : Bytes} :
    (receiver bytes : Except (Failure ε) (Option Address)) = .error .panic ↔
      bytes.length ≠ 0 ∧ bytes.length ≠ 20 := by
  unfold receiver Address.fromSlice
  -- The empty string stands for a creation, and is not copied anywhere.
  cases bytes with
  | nil => simp
  | cons first rest =>
    by_cases twenty : (first :: rest).length = 20
    · simp [twenty, Functor.map, Except.map]
    · have other : ¬ rest.length = 19 := by simpa using twenty
      simp [other, Functor.map, Except.map]

/-- The parity of a signature is found or refused. -/
theorem signatureParity_ne_panic (v : Nat) : signatureParity v ≠ .error .panic := by
  unfold signatureParity
  split
  · exact fun same => nomatch same
  · split
    · exact fun same => nomatch same
    · exact refuse_ne_panic _

/-- Padding brings every byte string to the length asked for. -/
theorem length_padZeroLeft (bytes : Bytes) (len : Nat) : (padZeroLeft bytes len).length = len := by
  unfold padZeroLeft
  split
  · rw [List.length_drop]
    omega
  · rw [List.length_append, List.length_replicate]
    omega

/-- Recovering a sender may fail, but never panics. -/
theorem recoverSender_ne_panic (host : Host) (curve : Secp256k1) (sighash : Word) (r s : Bytes)
    (recId : Nat) : recoverSender host curve sighash r s recId ≠ .error .panic := by
  -- The padded halves have the size of the arrays that they are copied to.
  have copied : ∀ bytes : Bytes, (copyFromSlice 32 (padZeroLeft bytes 32) :
      Except (Failure TxDecodeError) Bytes) = .ok (padZeroLeft bytes 32) :=
    fun bytes => if_pos (length_padZeroLeft bytes 32)
  have hashed : ∀ key : Bytes, (bytesBetween (toBeBytes (host.keccak256 key)) 12 32 :
      Except (Failure TxDecodeError) Bytes) = .ok (slice (toBeBytes (host.keccak256 key)) 12 32) :=
    fun key => bytesBetween_eq (by decide) (Nat.le_of_eq (length_beBytes 32 _).symm)
  simp only [recoverSender, copied, bind, Except.bind]
  split
  · exact refuse_ne_panic _
  · split
    · exact refuse_ne_panic _
    · split
      · exact refuse_ne_panic _
      · -- Twenty of the thirty-two bytes of a hash are an address.
        rename_i key _
        have twenty : (slice (toBeBytes (host.keccak256 key)) 12 32).length = 20 :=
          length_slice (Nat.le_of_eq (length_beBytes 32 _).symm)
        rw [hashed]
        simp only [Address.fromSlice, twenty, if_true]
        exact fun same => nomatch same

/-- Recovering the sender does not panic. -/
theorem signed_ne_panic (host : Host) (curve : Secp256k1) (txHash : Word) (txType : TxType)
    (fields : TxFields) (unsigned : Bytes) :
    fields.signed host curve txHash txType unsigned ≠ .error .panic := by
  intro panics
  -- Only recovering the sender could panic, and it does not.
  rcases bind_eq_panic.mp panics with recovered | ⟨sender, _, impossible⟩
  · exact recoverSender_ne_panic host curve _ _ _ _ recovered
  · cases impossible

end Panics

section Receivers

/-- An item that decodes to some value. -/
def Decodable {α : Type} (decode : Bytes → Decoded α) (items : List Bytes) (index : Nat) : Prop :=
  ∃ result, decode (items.getD index []) = .ok result

/-- A string that is neither empty nor as long as an address. -/
def StraySize (items : List Bytes) (index : Nat) : Prop :=
  ∃ bytes, decodeBytes (items.getD index []) = .ok bytes ∧ bytes.length ≠ 0 ∧ bytes.length ≠ 20

/-- Enough items, of which those before the receiver decode, and a receiver of a stray size. -/
@[mk_iff]
structure StrayEip1559 (items : List Bytes) : Prop where
  enough : 12 ≤ items.length
  chainId : Decodable decodeU64 items 0
  nonce : Decodable decodeU64 items 1
  maxPriorityFeePerGas : Decodable decodeU256 items 2
  maxFeePerGas : Decodable decodeU256 items 3
  gasLimit : Decodable decodeU64 items 4
  receiver : StraySize items 5

/-- Enough items, of which those before the receiver decode, and a receiver of a stray size. -/
@[mk_iff]
structure StrayLegacy (items : List Bytes) : Prop where
  enough : 9 ≤ items.length
  nonce : Decodable decodeU64 items 0
  gasPrice : Decodable decodeU256 items 1
  gasLimit : Decodable decodeU64 items 2
  receiver : StraySize items 3

/-- A transaction whose receiver has a stray size. -/
def StrayReceiver : Bytes → Prop
  | [] => False
  | first :: rest =>
    if first = 0x02 then StrayEip1559 (listItems rest)
    else 0xc0 ≤ first ∧ StrayLegacy (listItems (first :: rest))

/-- Every item that a view finds decodes to the one string it encodes, or not at all. -/
theorem decodesTo_listItems {bytes : Bytes} {index : Nat} (inside : index < (listItems bytes).length) :
    DecodesTo ((listItems bytes).getD index []) := by
  -- An item with an index is there only if the bytes are a list.
  have listed : ∃ found, Listed bytes found (listItems bytes) := by
    cases list : (Rlp.new bytes).isList with
    | false => simp [listItems, list] at inside
    | true =>
      rcases listed_or_empty list with listed | ⟨empty, _⟩
      · exact listed
      · simp [empty] at inside
  obtain ⟨found, listed⟩ := listed
  rw [List.getD_eq_getElem?_getD, List.getElem?_eq_getElem inside, Option.getD_some]
  obtain ⟨header, whole⟩ := listed.consecutive.whole (List.getElem_mem inside)
  exact decodesTo whole

section Fields

variable {bytes : Bytes} {index : Nat}

/-- Reading a byte does not panic where there is an item. -/
theorem u8_ne_panic (inside : index < (listItems bytes).length) :
    fieldAt decodeU8 (listItems bytes) index ≠ .error .panic :=
  fieldAt_ne_panic (decodes_u8 (decodesTo_listItems inside))

/-- Reading a number of 64 bits does not panic where there is an item. -/
theorem u64_ne_panic (inside : index < (listItems bytes).length) :
    fieldAt decodeU64 (listItems bytes) index ≠ .error .panic :=
  fieldAt_ne_panic (decodes_u64 (decodesTo_listItems inside))

/-- Reading a word does not panic where there is an item. -/
theorem u256_ne_panic (inside : index < (listItems bytes).length) :
    fieldAt decodeU256 (listItems bytes) index ≠ .error .panic :=
  fieldAt_ne_panic (decodes_u256 (decodesTo_listItems inside))

/-- Reading a byte string does not panic where there is an item. -/
theorem bytes_ne_panic (inside : index < (listItems bytes).length) :
    fieldAt decodeBytes (listItems bytes) index ≠ .error .panic :=
  fieldAt_ne_panic (decodes_bytes (decodesTo_listItems inside))

/-- Only the receiver can panic, once all items before it decode. -/
theorem eip1559Fields_eq_panic_iff (enough : 12 ≤ (listItems bytes).length) :
    eip1559Fields (listItems bytes) = .error .panic ↔ StrayEip1559 (listItems bytes) := by
  -- A step that cannot panic leaves its result to the steps behind it.
  simp (disch := omega) only [eip1559Fields, bind_eq_panic, u8_ne_panic, u64_ne_panic,
    u256_ne_panic, bytes_ne_panic, false_or, receiver_eq_panic_iff, fieldAt_eq_ok_iff, pure,
    Except.pure, reduceCtorEq, and_false, exists_false, or_false, exists_and_right,
    strayEip1559_iff, enough, true_and, Decodable, StraySize]

/-- Only the receiver can panic, once all items before it decode. -/
theorem legacyFields_eq_panic_iff (enough : 9 ≤ (listItems bytes).length) :
    legacyFields (listItems bytes) = .error .panic ↔ StrayLegacy (listItems bytes) := by
  simp (disch := omega) only [legacyFields, bind_eq_panic, u64_ne_panic, u256_ne_panic,
    bytes_ne_panic, signatureParity_ne_panic, false_or, receiver_eq_panic_iff, fieldAt_eq_ok_iff,
    pure, Except.pure, reduceCtorEq, and_false, exists_false, or_false, exists_and_right,
    strayLegacy_iff, enough, true_and, Decodable, StraySize]

end Fields

/-- Reading is what panics, if anything does. -/
theorem decodeEip1559_eq_panic_iff (host : Host) (curve : Secp256k1) (payload : Bytes)
    (txHash : Word) :
    decodeEip1559 host curve payload txHash = .error .panic ↔ StrayEip1559 (listItems payload) := by
  unfold decodeEip1559
  rw [bind_eq_panic, readEip1559_eq]
  -- Behind the reading nothing panics, whatever the fields are.
  have after : ∀ fields : TxFields, (do
      let unsigned ← fields.unsignedEip1559
      fields.signed host curve txHash .eip1559 unsigned) ≠ .error .panic := by
    intro fields
    rw [unsignedEip1559_eq]
    exact signed_ne_panic host curve txHash .eip1559 fields _
  simp only [after, and_false, exists_false, or_false]
  split
  · rename_i few
    exact ⟨fun panics => absurd panics (refuse_ne_panic _), fun stray => by have := stray.enough; omega⟩
  · rename_i enough
    exact eip1559Fields_eq_panic_iff (Nat.not_lt.mp enough)

/-- The legacy decoder panics on stray receivers only. -/
theorem decodeLegacy_eq_panic_iff (host : Host) (curve : Secp256k1) (rawBytes : Bytes)
    (txHash : Word) :
    decodeLegacy host curve rawBytes txHash = .error .panic ↔ StrayLegacy (listItems rawBytes) := by
  unfold decodeLegacy
  rw [bind_eq_panic, readLegacy_eq]
  -- As above, only the reading can panic.
  have after : ∀ fields : TxFields, (do
      let unsigned ← fields.unsignedLegacy
      fields.signed host curve txHash .legacy unsigned) ≠ .error .panic := by
    intro fields
    rw [unsignedLegacy_eq]
    exact signed_ne_panic host curve txHash .legacy fields _
  simp only [after, and_false, exists_false, or_false]
  split
  · rename_i few
    exact ⟨fun panics => absurd panics (refuse_ne_panic _), fun stray => by have := stray.enough; omega⟩
  · rename_i enough
    exact legacyFields_eq_panic_iff (Nat.not_lt.mp enough)

/-- Decoding ends in a transaction or an error exactly if no receiver of a stray size is met. -/
theorem decode_ends_iff (host : Host) (curve : Secp256k1) (rawBytes : Bytes) :
    ((∃ tx, decodeRawTx host curve rawBytes = .ok tx) ∨
      ∃ cause, decodeRawTx host curve rawBytes = refuse cause) ↔ ¬ StrayReceiver rawBytes := by
  -- There are three ways to end, and the third is a panic.
  have ends : ∀ outcome : Except (Failure TxDecodeError) SignedTransaction,
      ((∃ tx, outcome = .ok tx) ∨ ∃ cause, outcome = refuse cause) ↔ outcome ≠ .error .panic := by
    intro outcome
    cases outcome with
    | ok tx => simp
    | error failure => cases failure <;> simp [refuse]
  rw [ends, not_iff_not]
  cases rawBytes with
  | nil => simp [decodeRawTx, StrayReceiver, refuse]
  | cons first rest =>
    simp only [decodeRawTx, StrayReceiver]
    -- The first byte decides which decoder is asked.
    by_cases typed : first = 0x02
    · rw [if_pos typed, if_pos typed]
      exact decodeEip1559_eq_panic_iff host curve rest _
    · rw [if_neg typed, if_neg typed]
      by_cases list : 0xc0 ≤ first
      · rw [if_pos list]
        simp only [list, true_and]
        exact decodeLegacy_eq_panic_iff host curve (first :: rest) _
      · simp [list, refuse]

/-- A legacy transaction to a single byte. -/
def shortReceiver : Bytes := [0xc9, 9, 1, 1, 5, 0x80, 0x80, 37, 1, 1]

/-- A curve that knows some keys by digest, signature and recovery id. -/
def tableCurve (keys : List ((Word × Bytes × Nat) × Bytes)) : Secp256k1 where
  parseCompact := fun _ => true
  recoverEcdsa := fun digest signature recId => keys.lookup (digest, signature, recId)

theorem short_receiver_panics :
    decodeRawTx (tableHost []) (tableCurve []) shortReceiver = .error .panic ∧
    ¬ ((∃ tx, decodeRawTx (tableHost []) (tableCurve []) shortReceiver = .ok tx) ∨
      ∃ cause, decodeRawTx (tableHost []) (tableCurve []) shortReceiver = refuse cause) := by
  have panics : decodeRawTx (tableHost []) (tableCurve []) shortReceiver = .error .panic := rfl
  refine ⟨panics, ?_⟩
  rw [panics]
  rintro (⟨tx, impossible⟩ | ⟨cause, impossible⟩)
  · cases impossible
  · cases impossible

end Receivers

end MiniEvm
