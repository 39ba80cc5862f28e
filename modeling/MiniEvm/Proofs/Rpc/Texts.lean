import MiniEvm.Bytes.HexDigits
import MiniEvm.Proofs.Data.Word
import MiniEvm.Rpc.Types

/-! Which texts of a client are read as byte strings, integers and addresses, and as which. -/

namespace MiniEvm

open Hex

/-- A text without the prefix that it may have. -/
def unprefixed (text : String) : String := (stripPrefix "0x" text).getD text

section Reading

variable {text : String} {digits : List Nat}

theorem length_of_spells (spells : Spells text digits) : (utf8 text).length = digits.length := by
  have length := congrArg List.length (spells_iff.mp spells).1
  simpa using length

/-- The digits behind a zero are those of the text without it. -/
theorem spells_of_zero (spells : Spells ("0" ++ text) digits) :
    ∃ rest, digits = 0 :: rest ∧ Spells text rest := by
  have chars : ("0" ++ text).toList = '0' :: text.toList := by simp [String.toList_append]
  have front := spells
  rw [Spells, chars, List.map_cons] at front
  obtain ⟨first, rest, rfl, same, -⟩ := List.map_eq_cons_iff.mp front.symm
  have zero : some first = some 0 := same
  obtain rfl := Option.some.inj zero
  exact ⟨rest, rfl, spells_cons_zero.mp spells⟩

/-- What digits are read as is as long as they need, and writes the same number. -/
theorem decodeHex_eq_ok_iff {bytes : Bytes} : decodeHex text = .ok bytes ↔
    ∃ digits, Spells (unprefixed text) digits ∧ bytes.length = (digits.length + 1) / 2 ∧
      BigEndian.value bytes = ofDigits digits := by
  have unfolded : decodeHex text = (decode (if (utf8 (unprefixed text)).length % 2 = 1 then
      "0" ++ unprefixed text else unprefixed text)).mapError FromHexError.text := rfl
  have ok_iff : ∀ result : Except FromHexError Bytes,
      result.mapError FromHexError.text = .ok bytes ↔ result = .ok bytes := by
    intro result
    cases result <;> simp [Except.mapError]
  rw [unfolded, ok_iff, decode_eq_ok_iff]
  constructor
  · intro spells
    split at spells
    · -- The zero that was put in front counts for nothing.
      rename_i odd
      obtain ⟨rest, nibbles, spells⟩ := spells_of_zero spells
      have length := congrArg List.length nibbles
      rw [length_nibbles, List.length_cons] at length
      refine ⟨rest, spells, by omega, ?_⟩
      rw [← ofDigits_nibbles, nibbles, ofDigits_cons_zero]
    · refine ⟨_, spells, ?_, (ofDigits_nibbles bytes).symm⟩
      rw [length_nibbles]
      omega
  · rintro ⟨digits, spells, length, value⟩
    have parity := length_of_spells spells
    -- Made even, the digits are the halves of some bytes, which can only be the given ones.
    have general : ∀ {text : String} {digits : List Nat}, Spells text digits →
        digits.length = 2 * bytes.length → BigEndian.value bytes = ofDigits digits →
        Spells text (bytes.flatMap nibbles) := by
      intro text digits spells length value
      obtain ⟨found, rfl⟩ := exists_nibbles digits spells.lt (by omega)
      rw [length_nibbles] at length
      rw [ofDigits_nibbles] at value
      rw [BigEndian.eq_of_value_eq (by omega) value]
      exact spells
    split
    · exact general (spells_cons_zero.mpr spells) (by rw [List.length_cons]; omega) value
    · exact general spells (by omega) value

/-- Whatever consists of digits is read. -/
theorem exists_decoded (spells : Spells (unprefixed text) digits) :
    ∃ bytes, decodeHex text = .ok bytes ∧ bytes.length = (digits.length + 1) / 2 ∧
      BigEndian.value bytes = ofDigits digits := by
  obtain ⟨bytes, length, value⟩ : ∃ bytes : Bytes, bytes.length = (digits.length + 1) / 2 ∧
      BigEndian.value bytes = ofDigits digits := by
    -- An odd row of digits is read with a zero in front.
    rcases Nat.mod_two_eq_zero_or_one digits.length with even | odd
    · obtain ⟨bytes, rfl⟩ := exists_nibbles digits spells.lt even
      exact ⟨bytes, by rw [length_nibbles]; omega, (ofDigits_nibbles bytes).symm⟩
    · have small : ∀ digit ∈ 0 :: digits, digit < 16 := by
        intro digit member
        rcases List.mem_cons.mp member with rfl | member
        · decide
        · exact spells.lt digit member
      obtain ⟨bytes, nibbles⟩ := exists_nibbles (0 :: digits) small
        (by rw [List.length_cons]; omega)
      have length := congrArg List.length nibbles
      rw [length_nibbles, List.length_cons] at length
      exact ⟨bytes, by omega, by rw [← ofDigits_nibbles, ← nibbles, ofDigits_cons_zero]⟩
  exact ⟨bytes, decodeHex_eq_ok_iff.mpr ⟨digits, spells, length, value⟩, length, value⟩

/-- Zeros in front fill a byte string up without changing its number. -/
theorem toNat_padded {bytes : Bytes} (short : bytes.length ≤ 32) :
    (fromBeBytes (List.replicate (32 - bytes.length) 0 ++ bytes)).toNat = BigEndian.value bytes := by
  have zeros : BigEndian.value (List.replicate (32 - bytes.length) 0) = 0 := by
    rw [BigEndian.value_eq_zero_iff]
    exact fun byte member => (List.mem_replicate.mp member).2
  rw [toNat_fromBeBytes, BigEndian.value_append, zeros, Nat.zero_mul, Nat.zero_add]
  rw [List.length_append, List.length_replicate]
  omega

/-- An integer is read from 64 digits at most, as the number that they write. -/
theorem parseU256_eq_ok_iff {value : Word} : parseU256 text = .ok value ↔
    ∃ digits, Spells (unprefixed text) digits ∧ digits.length ≤ 64 ∧
      value.toNat = ofDigits digits := by
  rw [parseU256]
  -- Both directions go through the bytes, of which 32 are allowed.
  constructor
  · intro read
    cases decoded : decodeHex text with
    | error message => simp [decoded, bind, Except.bind] at read
    | ok bytes =>
      obtain ⟨digits, spells, length, number⟩ := decodeHex_eq_ok_iff.mp decoded
      simp only [decoded, bind, Except.bind] at read
      split at read
      · cases read
      · obtain rfl := Except.ok.inj read
        exact ⟨digits, spells, by omega, by rw [toNat_padded (by omega), number]⟩
  · rintro ⟨digits, spells, short, number⟩
    obtain ⟨bytes, decoded, length, value⟩ := exists_decoded spells
    have few : ¬ bytes.length > 32 := by omega
    simp only [decoded, bind, Except.bind, if_neg few]
    refine congrArg Except.ok (BitVec.eq_of_toNat_eq ?_)
    rw [toNat_padded (by omega), number, value]

/-- An address is read from 40 digits, or from 39 behind a zero that is left out. -/
theorem parseAddress_eq_ok_iff {address : Address} : parseAddress text = .ok address ↔
    ∃ digits, Spells (unprefixed text) digits ∧ (digits.length = 39 ∨ digits.length = 40) ∧
      address.toNat = ofDigits digits := by
  -- Twenty bytes are an address of the same number.
  have kept : ∀ {bytes : Bytes}, bytes.length = 20 →
      (accountAddress (fromBeBytes bytes)).toNat = BigEndian.value bytes := by
    intro bytes length
    have small := BigEndian.value_lt bytes
    rw [length] at small
    rw [accountAddress, BitVec.toNat_setWidth, toNat_fromBeBytes (by omega)]
    omega
  rw [parseAddress]
  constructor
  · intro read
    cases decoded : decodeHex text with
    | error message => simp [decoded, bind, Except.bind] at read
    | ok bytes =>
      obtain ⟨digits, spells, length, number⟩ := decodeHex_eq_ok_iff.mp decoded
      simp only [decoded, bind, Except.bind] at read
      split at read
      · rename_i twenty
        obtain rfl := Except.ok.inj read
        exact ⟨digits, spells, by omega, by rw [kept twenty, number]⟩
      · cases read
  · rintro ⟨digits, spells, exact_, number⟩
    obtain ⟨bytes, decoded, length, value⟩ := exists_decoded spells
    have twenty : bytes.length = 20 := by omega
    simp only [decoded, bind, Except.bind, if_pos twenty]
    refine congrArg Except.ok (BitVec.eq_of_toNat_eq ?_)
    rw [kept twenty, number, value]

end Reading

/--
What a client's text is read as.

With or without its prefix, a text is read exactly if it consists of digits in either case, of 64 at
most for an integer and of 39 or 40 for an address; it is then read as the number that the digits
write, which as a byte string is as long as they need.
-/
theorem texts_are_read (text : String) :
    (∀ bytes, decodeHex text = .ok bytes ↔ ∃ digits, Spells (unprefixed text) digits ∧
      bytes.length = (digits.length + 1) / 2 ∧ BigEndian.value bytes = ofDigits digits) ∧
    (∀ value, parseU256 text = .ok value ↔ ∃ digits, Spells (unprefixed text) digits ∧
      digits.length ≤ 64 ∧ value.toNat = ofDigits digits) ∧
    (∀ address, parseAddress text = .ok address ↔ ∃ digits, Spells (unprefixed text) digits ∧
      (digits.length = 39 ∨ digits.length = 40) ∧ address.toNat = ofDigits digits) :=
  ⟨fun _ => decodeHex_eq_ok_iff, fun _ => parseU256_eq_ok_iff, fun _ => parseAddress_eq_ok_iff⟩

example : parseU256 "0x0aF" = .ok 0xaf := by decide +kernel

end MiniEvm
