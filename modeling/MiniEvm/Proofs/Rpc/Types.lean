import MiniEvm.Proofs.Data.Word
import MiniEvm.Rpc.Types

/-! A call request that is written as JSON is read back as the same one. -/

namespace MiniEvm

section Texts

/-- Behind the prefix, the digits of a byte string are read as that. -/
theorem decodeHex_prefixed (bytes : Bytes) : decodeHex ("0x" ++ Hex.encode bytes) = .ok bytes := by
  -- Two digits for a byte are never an odd number of them.
  have even : ¬ (Hex.utf8 (Hex.encode bytes)).length % 2 = 1 := by
    rw [Hex.length_utf8_encode]
    omega
  simp only [decodeHex, Hex.stripPrefix_append, Option.getD_some, if_neg even, Hex.decode_encode,
    Except.mapError]

theorem parseAddress_formatAddress (address : Address) :
    parseAddress (formatAddress address) = .ok address := by
  have length : (beBytes 20 address.toNat).length = 20 := length_beBytes 20 _
  -- The 20 bytes of an address are cut off again at 160 bits.
  have value : accountAddress (fromBeBytes (beBytes 20 address.toNat)) = address := by
    apply BitVec.eq_of_toNat_eq
    have small := address.isLt
    rw [accountAddress, BitVec.toNat_setWidth, toNat_fromBeBytes (by omega), value_beBytes]
    omega
  rw [formatAddress, parseAddress, decodeHex_prefixed]
  simp only [bind, Except.bind, if_pos length, value]
  rfl

/-- What comes before the first byte that is not zero, or before the last byte, is zeros. -/
theorem take_leading (bytes : Bytes) :
    bytes.take ((bytes.findIdx? (· ≠ 0)).getD (bytes.length - 1)) =
      List.replicate ((bytes.findIdx? (· ≠ 0)).getD (bytes.length - 1)) 0 := by
  rw [List.eq_replicate_iff]
  -- Without such a byte all of them are zeros.
  cases found : bytes.findIdx? (· ≠ 0) with
  | none =>
    refine ⟨by simp, fun byte member => ?_⟩
    have none_of := List.findIdx?_eq_none_iff.mp found byte (List.mem_of_mem_take member)
    simpa using none_of
  | some first =>
    obtain ⟨below, _, zeros⟩ := List.findIdx?_eq_some_iff_getElem.mp found
    refine ⟨by simp [below.le], fun byte member => ?_⟩
    obtain ⟨j, before, rfl⟩ := List.mem_iff_getElem.mp member
    rw [List.length_take] at before
    have zero := zeros j (by simp at before; omega)
    simpa using zero

theorem parseU256_formatU256 (value : Word) : parseU256 (formatU256 value) = .ok value := by
  have width : (toBeBytes value).length = 32 := length_beBytes 32 _
  have leading := take_leading (toBeBytes value)
  rw [width] at leading
  rw [formatU256, parseU256, decodeHex_prefixed]
  generalize ((toBeBytes value).findIdx? (· ≠ 0)).getD 31 = first at leading ⊢
  have short : ¬ ((toBeBytes value).drop first).length > 32 := by
    rw [List.length_drop]
    omega
  have padded : List.replicate (32 - ((toBeBytes value).drop first).length) 0 ++
      (toBeBytes value).drop first = toBeBytes value := by
    -- As many zeros are put back as were left out.
    have skipped : 32 - ((toBeBytes value).drop first).length = first := by
      have kept := congrArg List.length leading
      rw [List.length_take, List.length_replicate] at kept
      rw [List.length_drop]
      omega
    rw [skipped, ← leading, List.take_append_drop]
  simp only [bind, Except.bind, if_neg short, padded]
  exact congrArg Except.ok (fromBeBytes_toBeBytes value)

/-- Without the prefix they are no different, since no digit looks like it. -/
theorem decodeHex_encode (bytes : Bytes) : decodeHex (Hex.encode bytes) = .ok bytes := by
  have even : ¬ (Hex.utf8 (Hex.encode bytes)).length % 2 = 1 := by
    rw [Hex.length_utf8_encode]
    omega
  have unmarked : Hex.stripPrefix "0x" (Hex.encode bytes) = none := Hex.stripPrefix_encode bytes
  simp only [decodeHex, unmarked, Option.getD_none, if_neg even, Hex.decode_encode,
    Except.mapError]

end Texts

section Fields

theorem lookup_cons (field : String × Value) (rest : List (String × Value)) (key : String) :
    (field :: rest).lookup key = if key = field.1 then some field.2 else rest.lookup key := by
  obtain ⟨name, held⟩ := field
  rw [List.lookup_cons]
  by_cases same : key = name
  · simp [same]
  · simp [same, beq_eq_false_iff_ne.mpr same]

/-- A field that is entered is found under its name, and the others under theirs. -/
theorem lookup_insert (fields : List (String × Value)) (key other : String) (value : Value) :
    (Value.insert fields key value).lookup other =
      if other = key then some value else fields.lookup other := by
  induction fields with
  | nil => rw [Value.insert, lookup_cons]
  | cons field rest ih =>
    rw [Value.insert]
    split
    next replaced =>
      rw [lookup_cons, lookup_cons, replaced]
      split <;> rfl
    next kept =>
      rw [lookup_cons, lookup_cons, ih]
      split
      next here => rw [if_neg (here ▸ kept)]
      next => rfl

theorem lookup_insertSome (fields : List (String × Value)) (key other : String)
    (value : Option Value) :
    (Value.insertSome fields key value).lookup other =
      if other = key then value.or (fields.lookup other) else fields.lookup other := by
  cases value with
  | none => simp [Value.insertSome]
  | some value => simp [Value.insertSome, lookup_insert]

/-- What a written request holds under each of its names, and under no other. -/
theorem lookup_serialize (request : CallRequest) :
    ∃ fields, request.serialize = .object fields ∧
      fields.lookup "from" = request.from_.map (.string ∘ formatAddress) ∧
      fields.lookup "to" = request.to_.map (.string ∘ formatAddress) ∧
      fields.lookup "gas" = request.gas.map (.string ∘ formatU256) ∧
      fields.lookup "gasPrice" = request.gasPrice.map (.string ∘ formatU256) ∧
      fields.lookup "value" = request.value.map (.string ∘ formatU256) ∧
      fields.lookup "data" = request.data.map Bytes.serialize := by
  refine ⟨_, rfl, ?_⟩
  simp [lookup_insertSome]

/-- A field that was written by one rule is read by the rule that undoes it. -/
theorem parseField_map {α : Type} {parse : String → Except String α} {format : α → String}
    (inverse : ∀ value, parse (format value) = .ok value) {object : List (String × Value)}
    {key : String} {field : Option α} (held : object.lookup key = field.map (.string ∘ format)) :
    CallRequest.parseField parse object key = .ok field := by
  cases field with
  | none => simp [CallRequest.parseField, optionalHex, held]
  | some value =>
    simp [CallRequest.parseField, optionalHex, Value.asStr, held, inverse, Except.map,
      Except.mapError]

theorem deserialize_serialize (request : CallRequest) :
    CallRequest.deserialize request.serialize = .ok request := by
  obtain ⟨fields, written, sender, target, gas, gasPrice, value, data⟩ := lookup_serialize request
  have bytes : CallRequest.parseData fields = .ok request.data := by
    rw [CallRequest.parseData, data]
    cases request.data with
    | none => rfl
    | some bytes =>
      simp only [Option.map_some, Bytes.serialize, Bytes.deserialize, decodeHex_prefixed]
      rfl
  rw [written]
  simp only [CallRequest.deserialize, parseField_map parseAddress_formatAddress sender,
    parseField_map parseAddress_formatAddress target, parseField_map parseU256_formatU256 gas,
    parseField_map parseU256_formatU256 gasPrice, parseField_map parseU256_formatU256 value, bytes]
  rfl

end Fields

/-- The JSON form of a call request loses nothing, nor do the forms of its integers and byte
strings. -/
theorem callRequest_lossless :
    (∀ request : CallRequest, CallRequest.deserialize request.serialize = .ok request) ∧
      (∀ value : Word, parseU256 (formatU256 value) = .ok value) ∧
      (∀ address : Address, parseAddress (formatAddress address) = .ok address) ∧
      ∀ bytes : Bytes, decodeHex ("0x" ++ Hex.encode bytes) = .ok bytes ∧
        decodeHex (Hex.encode bytes) = .ok bytes :=
  ⟨deserialize_serialize, parseU256_formatU256, parseAddress_formatAddress,
    fun bytes => ⟨decodeHex_prefixed bytes, decodeHex_encode bytes⟩⟩

end MiniEvm
