import MiniEvm.Proofs.Data.Word
import MiniEvm.Rlp.Format
import MiniEvm.Tx.Rlp

/-! What the decoder of items accepts: strings in their one encoding, and lists by their header. -/

namespace MiniEvm

open BigEndian RlpFormat

section Failures

variable {ε α β : Type}

/-- A step that is followed by others succeeded. -/
theorem ok_of_bind {step : Except ε α} {rest : α → Except ε β} {result : β}
    (done : (step >>= rest) = .ok result) : ∃ middle, step = .ok middle ∧ rest middle = .ok result := by
  cases step with
  | error failure => cases done
  | ok middle => exact ⟨middle, rfl, done⟩

/-- A range inside the bytes is cut out of them. -/
theorem bytesBetween_eq {bytes : Bytes} {start stop : Nat} (ordered : start ≤ stop)
    (inside : stop ≤ bytes.length) :
    (bytesBetween bytes start stop : Except (Failure ε) Bytes) = .ok (slice bytes start stop) :=
  if_pos ⟨ordered, inside⟩

end Failures

section Headers

/-- The sum of the shifted bytes is the number they write. -/
theorem shiftedSum_eq_value (bytes : Bytes) : shiftedSum bytes = value bytes := by
  -- Each byte is shifted by as many bytes as follow it.
  induction bytes with
  | nil => rfl
  | cons byte rest ih =>
    have shifts : ∀ i, (byte :: rest).length - 1 - (i + 1) = rest.length - 1 - i := by
      intro i
      simp only [List.length_cons]
      omega
    simp only [shiftedSum] at ih
    simp only [shiftedSum, List.mapIdx_cons, List.foldr_cons, shifts, ih]
    rw [value_cons, Nat.shiftLeft_eq, Nat.mul_comm _ 8, Nat.pow_mul]
    rfl

/-- The bytes of a length read as its number, if the first of them is not zero. -/
theorem decodeUsize_eq {first : UInt8} {rest : Bytes} (short : (first :: rest).length ≤ 8) :
    decodeUsize (first :: rest) =
      if first = 0 then refuse .rlpInvalidIndirection else .ok (value (first :: rest)) := by
  rw [decodeUsize, if_pos short, shiftedSum_eq_value]
  rfl

/-- A length is read back from its digits. -/
theorem decodeUsize_digits {number : Nat} (positive : 0 < number)
    (few : (digits number).length ≤ 8) : decodeUsize (digits number) = .ok number := by
  have shortest := shortest_digits number
  have same := value_digits number
  cases bytes : digits number with
  | nil => exact absurd bytes (digits_ne_nil positive)
  | cons first rest =>
    rw [bytes] at few shortest same
    -- The first digit is no zero, which is all that the decoder asks for.
    have nonzero : first ≠ 0 := by simpa [Shortest] using shortest
    rw [decodeUsize_eq few, if_neg nonzero, same]

/-- A long header is the one that the format has, or refused. -/
theorem calculatePayloadInfo_eq {first : UInt8} {rest : Bytes} {size : Nat} (some_ : 0 < size)
    (short : size ≤ 8) :
    (∃ length, longLength size rest = some length ∧
      calculatePayloadInfo (first :: rest) size = .ok ⟨1 + size, length⟩) ∨
    (longLength size rest = none ∧
      ∃ cause, calculatePayloadInfo (first :: rest) size = refuse cause) := by
  unfold calculatePayloadInfo
  -- The checks are made in the order of the source, each of which the format makes as well.
  cases rest with
  | nil =>
    right
    refine ⟨?_, _, rfl⟩
    simp [longLength, some_]
  | cons byte rest =>
    simp only [List.getElem?_cons_succ, List.getElem?_cons_zero]
    -- The first byte of the length is the one that was looked at.
    obtain ⟨less, rfl⟩ : ∃ less, size = less + 1 := ⟨size - 1, by omega⟩
    by_cases zero : byte = 0
    · right
      refine ⟨?_, _, if_pos zero⟩
      simp [longLength, zero]
    · rw [if_neg zero]
      by_cases few : (first :: byte :: rest).length < 1 + (less + 1)
      · right
        refine ⟨?_, _, if_pos few⟩
        have missing : (List.take (less + 1) (byte :: rest)).length < less + 1 := by
          simp only [List.length_cons] at few
          simp only [List.length_take, List.length_cons]
          omega
        rw [longLength, if_pos (.inl missing)]
      · rw [if_neg few]
        have enough : ¬ (List.take (less + 1) (byte :: rest)).length < less + 1 := by
          simp only [List.length_cons] at few
          simp only [List.length_take, List.length_cons]
          omega
        have between : (bytesBetween (first :: byte :: rest) 1 (1 + (less + 1)) : Decoded Bytes) =
            .ok (byte :: rest.take less) := by
          rw [bytesBetween_eq (by omega) (by omega), slice, Nat.add_comm 1]
          rfl
        have read : decodeUsize (byte :: rest.take less) = .ok (value (byte :: rest.take less)) := by
          rw [decodeUsize_eq (by simp only [List.length_cons, List.length_take]; omega),
            if_neg zero]
        have checks : longLength (less + 1) (byte :: rest) =
            if value (byte :: rest.take less) ≤ 55 then none
            else some (value (byte :: rest.take less)) := by
          simp only [longLength, List.take_succ_cons, List.head?_cons, Option.some.injEq, zero,
            false_or]
          simp only [List.take_succ_cons] at enough
          simp only [enough, false_or]
        rw [between, checks]
        simp only [bind, Except.bind, read]
        by_cases small : value (byte :: rest.take less) ≤ 55
        · right
          exact ⟨if_pos small, _, if_pos small⟩
        · left
          exact ⟨_, if_neg small, if_neg small⟩

/-- A header is the one that the format has, or refused. -/
theorem from_cases (bytes : Bytes) :
    (∃ found, Reads bytes found ∧ PayloadInfo.from_ bytes = .ok ⟨found.offset, found.length⟩) ∨
    (header bytes = none ∧ ∃ cause, PayloadInfo.from_ bytes = refuse cause) := by
  cases bytes with
  | nil => exact .inr ⟨rfl, _, rfl⟩
  | cons l rest =>
    have small := l.toNat_lt
    simp only [PayloadInfo.from_, UInt8.le_iff_toNat_le, UInt8.reduceToNat]
    -- The first byte tells the five kinds of item apart.
    by_cases single : l.toNat ≤ 0x7f
    · -- A small byte is an item on its own.
      exact .inl ⟨_, .single (by omega), if_pos single⟩
    rw [if_neg single]
    by_cases shortString : l.toNat ≤ 0xb7
    · exact .inl ⟨_, .shortString (by omega) (by omega), if_pos shortString⟩
    rw [if_neg shortString]
    by_cases longString : l.toNat ≤ 0xbf
    · rw [if_pos longString]
      rcases @calculatePayloadInfo_eq l rest (l.toNat - 0xb7) (by omega) (by omega) with
        ⟨length, long, read⟩ | ⟨none_, cause, refused⟩
      · exact .inl ⟨_, .longString (by omega) (by omega) long, read⟩
      · refine .inr ⟨?_, cause, refused⟩
        rw [header, if_neg (by omega), if_neg (by omega), if_pos (by omega), none_]
        rfl
    rw [if_neg longString]
    by_cases shortList : l.toNat ≤ 0xf7
    · exact .inl ⟨_, .shortList (by omega) (by omega), if_pos shortList⟩
    rw [if_neg shortList]
    rcases @calculatePayloadInfo_eq l rest (l.toNat - 0xf7) (by omega) (by omega) with
      ⟨length, long, read⟩ | ⟨none_, cause, refused⟩
    · exact .inl ⟨_, .longList (by omega) long, read⟩
    · refine .inr ⟨?_, cause, refused⟩
      rw [header, if_neg (by omega), if_neg (by omega), if_neg (by omega), if_neg (by omega), none_]
      rfl

/-- Bytes that begin with an item whose header reads so. -/
def Holds (bytes : Bytes) (found : Header) : Prop :=
  Reads bytes found ∧ found.offset + found.length ≤ bytes.length

/-- Where a header is found, it tells the payload. -/
theorem payloadInfo_of_holds {bytes : Bytes} {found : Header} (holds : Holds bytes found) :
    payloadInfo bytes = .ok ⟨found.offset, found.length⟩ := by
  unfold payloadInfo
  -- Bytes have one header, so the one that was read is the given one.
  rcases from_cases bytes with ⟨other, reads, read⟩ | ⟨none_, _⟩
  · have same := (header_eq_some_iff.mpr reads).symm.trans (header_eq_some_iff.mpr holds.1)
    obtain rfl := Option.some.inj same
    rw [read]
    exact if_pos holds.2
  · rw [header_eq_some_iff.mpr holds.1] at none_
    cases none_

/-- Either the bytes begin with an item, or they are refused. -/
theorem payloadInfo_cases (bytes : Bytes) :
    (∃ found, Holds bytes found) ∨
    ((∀ found, ¬ Holds bytes found) ∧ ∃ cause, payloadInfo bytes = refuse cause) := by
  rcases from_cases bytes with ⟨found, reads, read⟩ | ⟨none_, cause, refused⟩
  · -- A header may announce more bytes than there are.
    by_cases inside : found.offset + found.length ≤ bytes.length
    · exact .inl ⟨found, reads, inside⟩
    · refine .inr ⟨?_, .rlpIsTooShort, ?_⟩
      · intro other holds
        have same := (header_eq_some_iff.mpr reads).symm.trans (header_eq_some_iff.mpr holds.1)
        obtain rfl := Option.some.inj same
        exact inside holds.2
      · rw [payloadInfo, read]
        exact if_neg inside
  · refine .inr ⟨?_, cause, ?_⟩
    · intro other holds
      rw [header_eq_some_iff.mpr holds.1] at none_
      cases none_
    · rw [payloadInfo, refused]
      rfl

/-- More bytes behind an item do not change its header. -/
theorem Holds.append {bytes : Bytes} {found : Header} (holds : Holds bytes found) (more : Bytes) :
    Holds (bytes ++ more) found := by
  refine ⟨holds.1.append more, ?_⟩
  rw [List.length_append]
  exact Nat.le_add_right_of_le holds.2

end Headers

section Strings

/-- One item, whose header may not be the best for its content. -/
def Whole (item : Bytes) (found : Header) : Prop :=
  Reads item found ∧ found.offset + found.length = item.length

/-- What an item is decoded to: the one string that it encodes, or nothing. -/
inductive DecodesTo (item : Bytes) : Prop
  | string (bytes : Bytes) : bytes.length < 2 ^ 64 → item = encodeString bytes →
      (∀ {α : Type} (f : Bytes → Decoded α), decodeValue f item = f bytes) → DecodesTo item
  | nothing (cause : DecoderError) :
      (∀ {α : Type} (f : Bytes → Decoded α), decodeValue f item = refuse cause) → DecodesTo item

/-- A string whose length is in the first byte. -/
theorem decodesTo_shortString {first : UInt8} {rest : Bytes} (above : 0x80 ≤ first.toNat)
    (below : first.toNat < 0xb8) (length : rest.length = first.toNat - 0x80) :
    DecodesTo (first :: rest) := by
  have payload : (bytesBetween (first :: rest) 1 (1 + (first.toNat - 0x80)) : Decoded Bytes) =
      .ok rest := by
    rw [bytesBetween_eq (by omega) (by simp only [List.length_cons]; omega), slice, ← length,
      Nat.add_comm 1, List.take_succ_cons, List.take_length]
    rfl
  have decoded : ∀ {α : Type} (f : Bytes → Decoded α), decodeValue f (first :: rest) =
      if first = 0x81 then do
        let byte ← indexed rest 0
        if byte < 0x80 then refuse .rlpInvalidIndirection else f rest
      else f rest := by
    intro α f
    simp only [decodeValue, UInt8.le_iff_toNat_le, UInt8.reduceToNat]
    rw [if_neg (by omega), if_pos (by omega), if_neg (by simp only [List.length_cons]; omega),
      payload]
    rfl
  have prefixed : UInt8.ofNat (0x80 + rest.length) = first := by
    rw [length]
    apply UInt8.toNat_inj.mp
    rw [UInt8.toNat_ofNat']
    omega
  have encoded : ¬ (rest.length = 1 ∧ rest.all (· < 0x80)) → first :: rest = encodeString rest := by
    intro large
    rw [encodeString, if_neg large, if_pos (by omega), prefixed]
  by_cases one : first = 0x81
  · subst one
    -- A single byte has no prefix if it is small.
    obtain ⟨byte, rfl⟩ := List.length_eq_one_iff.mp length
    by_cases small : byte < 0x80
    · exact .nothing .rlpInvalidIndirection fun f => (decoded f).trans (if_pos small)
    · exact .string [byte] (by simp) (encoded (by simpa using small))
        fun f => (decoded f).trans (if_neg small)
  · refine .string rest (by omega) (encoded ?_) fun f => (decoded f).trans (if_neg one)
    rintro ⟨single, _⟩
    exact one (UInt8.toNat_inj.mp (by simp only [UInt8.reduceToNat]; omega))

/-- A string whose length is written out in as few bytes as it needs. -/
theorem decodesTo_longString {first : UInt8} {rest : Bytes} {size : Nat}
    (above : 0xb8 ≤ first.toNat) (below : first.toNat < 0xc0)
    (long : longLength (first.toNat - 0xb7) rest = some size)
    (length : rest.length = first.toNat - 0xb7 + size) : DecodesTo (first :: rest) := by
  obtain ⟨lenOfLen, few⟩ : ∃ lenOfLen, lenOfLen = first.toNat - 0xb7 := ⟨_, rfl⟩
  rw [← few] at long length
  -- The length is written without a zero in front, as its digits are.
  obtain ⟨digits_, taken, large⟩ := longLength_eq_some long
  have small : size < 2 ^ 64 := lt_of_length_digits (by omega : _ ≤ 8)
  have payload : (rest.drop lenOfLen).length = size := by
    rw [List.length_drop]
    omega
  have whole : rest = digits size ++ rest.drop lenOfLen := by
    rw [← digits_, List.take_append_drop]
  refine .string (rest.drop lenOfLen) (by omega) ?_ ?_
  · have prefixed : UInt8.ofNat (0xb7 + (digits size).length) = first := by
      rw [taken]
      apply UInt8.toNat_inj.mp
      rw [UInt8.toNat_ofNat']
      omega
    rw [encodeString, if_neg (by omega), if_neg (by omega), payload, prefixed, ← whole]
  · intro α f
    have lenBytes : (bytesBetween (first :: rest) 1 (1 + lenOfLen) : Decoded Bytes) =
        .ok (rest.take lenOfLen) := by
      rw [bytesBetween_eq (by omega) (by simp only [List.length_cons]; omega), slice,
        Nat.add_comm 1]
      rfl
    have valueBytes : (bytesBetween (first :: rest) (1 + lenOfLen) (1 + lenOfLen + size) :
        Decoded Bytes) = .ok (rest.drop lenOfLen) := by
      have all : (first :: rest).length = 1 + lenOfLen + size := by
        simp only [List.length_cons]
        omega
      rw [bytesBetween_eq (by omega) (by omega), slice, ← all, List.take_length, Nat.add_comm 1]
      rfl
    simp only [decodeValue, UInt8.le_iff_toNat_le, UInt8.reduceToNat, ← few]
    rw [if_neg (by omega), if_neg (by omega), if_pos (by omega),
      if_neg (by simp only [List.length_cons]; omega), lenBytes]
    have decodedLength : decodeUsize (rest.take lenOfLen) = .ok size := by
      rw [digits_]
      exact decodeUsize_digits (by omega) (by omega)
    simp only [bind, Except.bind, decodedLength]
    rw [if_neg (by simp only [List.length_cons]; omega), valueBytes]

/-- A whole item decodes as a string in its one encoding, or not at all. -/
theorem decodesTo {item : Bytes} {found : Header} (whole : Whole item found) : DecodesTo item := by
  obtain ⟨reads, length⟩ := whole
  -- Strings of the three kinds decode; the header of a list is refused.
  cases reads with
  | @single first rest below =>
    simp only [List.length_cons] at length
    obtain rfl : rest = [] := List.eq_nil_of_length_eq_zero (by omega)
    refine .string [first] (by simp) ?_ ?_
    · rw [encodeString, if_pos]
      simpa [UInt8.lt_iff_toNat_lt] using below
    · intro α f
      exact if_pos (UInt8.le_iff_toNat_le.mpr (by simp only [UInt8.reduceToNat]; omega))
  | @shortString first rest above below =>
    simp only [List.length_cons] at length
    exact decodesTo_shortString above below (by omega)
  | @longString first rest size above below long =>
    simp only [List.length_cons] at length
    exact decodesTo_longString above below long (by omega)
  | @shortList first rest above below =>
    refine .nothing .rlpExpectedToBeData fun f => ?_
    simp only [decodeValue, UInt8.le_iff_toNat_le, UInt8.reduceToNat]
    rw [if_neg (by omega), if_neg (by omega), if_neg (by omega)]
  | @longList first rest size above long =>
    refine .nothing .rlpExpectedToBeData fun f => ?_
    simp only [decodeValue, UInt8.le_iff_toNat_le, UInt8.reduceToNat]
    rw [if_neg (by omega), if_neg (by omega), if_neg (by omega)]

end Strings

section Numbers

/-- A number is below the power of its bits. -/
theorem lt_two_pow_bitLength (number : Nat) : number < 2 ^ bitLength number := by
  unfold bitLength
  split
  · omega
  · exact Nat.lt_log2_self

/-- A number is not below the powers of fewer bits. -/
theorem two_pow_le_of_lt_bitLength {number bits : Nat} (below : bits < bitLength number) :
    2 ^ bits ≤ number := by
  unfold bitLength at below
  split at below
  · omega
  · rename_i nonzero
    exact (Nat.le_log2 nonzero).mp (by omega)

/-- A small number has few bits. -/
theorem bitLength_le {number width : Nat} (small : number < 2 ^ width) :
    bitLength number ≤ width := by
  by_contra longer
  exact absurd (two_pow_le_of_lt_bitLength (by omega : width < bitLength number)) (by omega)

/-- The last bytes of a number are those of the number in that width. -/
theorem drop_beBytes (number skipped kept : Nat) :
    (beBytes (kept + skipped) number).drop skipped = beBytes kept number := by
  induction skipped with
  | zero => rfl
  | succ skipped ih => rw [← Nat.add_assoc, beBytes_succ, List.drop_succ_cons, ih]

/-- As many bytes as a number has bits for are its digits. -/
theorem beBytes_bitLength (number : Nat) :
    beBytes ((bitLength number + 7) / 8) number = digits number := by
  obtain ⟨kept, bytes⟩ : ∃ kept, kept = (bitLength number + 7) / 8 := ⟨_, rfl⟩
  rw [← bytes]
  -- The bytes hold the whole number, so only a zero in front could make them longer.
  have small : number < 256 ^ kept := by
    calc number < 2 ^ bitLength number := lt_two_pow_bitLength number
      _ ≤ 2 ^ (8 * kept) := Nat.pow_le_pow_right (by decide) (by omega)
      _ = 256 ^ kept := Nat.pow_mul 2 8 kept
  apply Shortest.eq_of_value_eq _ (shortest_digits number)
  · rw [value_beBytes, value_digits, Nat.mod_eq_of_lt small]
  · -- The first byte is not zero, for it has the highest bit.
    cases kept with
    | zero => simp [Shortest, beBytes]
    | succ kept =>
      have high : 2 ^ (8 * kept) ≤ number := two_pow_le_of_lt_bitLength (by omega)
      have positive : 0 < number / 2 ^ (8 * kept) := Nat.div_pos high (Nat.two_pow_pos _)
      have byte : number / 2 ^ (8 * kept) < 256 := by
        rw [Nat.div_lt_iff_lt_mul (Nat.two_pow_pos _), Nat.pow_mul, ← Nat.pow_succ']
        exact small
      rw [Shortest, beBytes_succ, List.head?_cons]
      intro zero
      have number_ := congrArg UInt8.toNat (Option.some.inj zero)
      rw [UInt8.toNat_ofNat', Nat.shiftRight_eq_div_pow, Nat.mod_eq_of_lt byte] at number_
      simp only [UInt8.reduceToNat] at number_
      omega

/-- A number without its empty bytes is its digits. -/
theorem drop_leadingZeros {number width : Nat} (small : number < 2 ^ (8 * width)) :
    (beBytes width number).drop (leadingZeros (8 * width) number / 8) = digits number ∧
      width - leadingZeros (8 * width) number / 8 = (digits number).length := by
  have bits := bitLength_le small
  obtain ⟨skipped, empty⟩ : ∃ skipped, skipped = leadingZeros (8 * width) number / 8 := ⟨_, rfl⟩
  -- Whole bytes of leading zeros are skipped, and the bits that remain are kept.
  have kept : width = (bitLength number + 7) / 8 + skipped := by
    unfold leadingZeros at empty
    omega
  rw [← beBytes_bitLength, length_beBytes, ← empty]
  constructor
  · nth_rewrite 1 [kept]
    exact drop_beBytes _ _ _
  · omega

/-- Numbers of 64 bits are written without zeros in front. -/
theorem u64Bytes_eq {number : Nat} (small : number < 2 ^ 64) : u64Bytes number = digits number :=
  (@drop_leadingZeros number 8 small).1

/-- Words are written without zeros in front. -/
theorem u256Bytes_eq (word : Word) : u256Bytes word = digits word.toNat := by
  have bits := bitLength_le word.isLt
  rw [u256Bytes, toBeBytes, ← beBytes_bitLength]
  have kept : 32 = (bitLength word.toNat + 7) / 8 + (32 - (bitLength word.toNat + 7) / 8) := by
    omega
  nth_rewrite 2 [kept]
  exact drop_beBytes _ _ _

/-- A string without a zero in front is the digits of its number. -/
theorem digits_value {bytes : Bytes} (shortest : Shortest bytes) : digits (value bytes) = bytes :=
  Shortest.eq_of_value_eq (shortest_digits _) shortest (value_digits _)

end Numbers

section Decoders

variable {α : Type}

/-- A decoder reads one good result from its one encoding, or refuses. -/
def Decodes (decode : Bytes → Decoded α) (bytesOf : α → Bytes) (good : α → Prop) (item : Bytes) :
    Prop :=
  (∃ result, decode item = .ok result ∧ good result ∧ item = encodeString (bytesOf result)) ∨
    ∃ cause, decode item = refuse cause

/-- Byte strings are read from their standard encoding only. -/
theorem decodes_bytes {item : Bytes} (decodes : DecodesTo item) :
    Decodes decodeBytes id (·.length < 2 ^ 64) item := by
  cases decodes with
  | string bytes small encoded decoded => exact .inl ⟨bytes, decoded _, small, encoded⟩
  | nothing cause refused => exact .inr ⟨cause, refused _⟩

/-- Bytes are read from their standard encoding only. -/
theorem decodes_u8 {item : Bytes} (decodes : DecodesTo item) :
    Decodes decodeU8 digits (· < 2 ^ 8) item := by
  cases decodes with
  | nothing cause refused => exact .inr ⟨cause, refused _⟩
  | string bytes small encoded decoded =>
    unfold Decodes decodeU8
    rw [decoded]
    -- No byte is zero, one byte is its number, and more are too many.
    cases bytes with
    | nil => exact .inl ⟨0, rfl, by decide, by simpa [digits] using encoded⟩
    | cons byte rest =>
      cases rest with
      | cons next rest => exact .inr ⟨_, rfl⟩
      | nil =>
        by_cases zero : byte = 0
        · exact .inr ⟨.rlpInvalidIndirection, if_neg (not_not_intro zero)⟩
        · refine .inl ⟨byte.toNat, if_pos zero, byte.toNat_lt, ?_⟩
          have number : value [byte] = byte.toNat := by simp [value]
          rw [← number, digits_value (by simpa [Shortest] using zero)]
          exact encoded

/-- Numbers of 64 bits are read from their standard encoding only. -/
theorem decodes_u64 {item : Bytes} (decodes : DecodesTo item) :
    Decodes decodeU64 digits (· < 2 ^ 64) item := by
  have again := decodes_u8 decodes
  cases decodes with
  | nothing cause refused => exact .inr ⟨cause, refused _⟩
  | string bytes small encoded decoded =>
    unfold Decodes decodeU64
    rw [decoded]
    by_cases one : bytes.length ≤ 1
    · -- A single byte is decoded as one, from the same item.
      simp only [if_pos one]
      rcases again with ⟨result, read, below, whole⟩ | refused
      · exact .inl ⟨result, read, by omega, whole⟩
      · exact .inr refused
    · simp only [if_neg one]
      by_cases eight : bytes.length ≤ 8
      · rw [if_pos eight]
        cases bytes with
        | nil => simp at one
        | cons byte rest =>
          by_cases zero : byte = 0
          · exact .inr ⟨.rlpInvalidIndirection, if_pos zero⟩
          · have bound := value_lt (byte :: rest)
            refine .inl ⟨value (byte :: rest), ?_, ?_, ?_⟩
            · rw [← shiftedSum_eq_value]
              exact if_neg zero
            · exact Nat.lt_of_lt_of_le bound (Nat.pow_le_pow_right (by decide) eight)
            · rw [digits_value (by simpa [Shortest] using zero)]
              exact encoded
      · exact .inr ⟨_, if_neg eight⟩

/-- Words are read from their standard encoding only. -/
theorem decodes_u256 {item : Bytes} (decodes : DecodesTo item) :
    Decodes decodeU256 (fun word => digits word.toNat) (fun _ => True) item := by
  cases decodes with
  | nothing cause refused => exact .inr ⟨cause, refused _⟩
  | string bytes small encoded decoded =>
    unfold Decodes decodeU256
    rw [decoded]
    -- A zero in front is refused, so what is read has no other encoding.
    by_cases zero : bytes.head? = some 0
    · exact .inr ⟨_, if_pos zero⟩
    · rw [if_neg zero]
      by_cases fits : bytes.length ≤ 32
      · refine .inl ⟨fromBeBytes bytes, if_pos fits, trivial, ?_⟩
        show item = encodeString (digits (fromBeBytes bytes).toNat)
        rw [toNat_fromBeBytes fits, digits_value zero]
        exact encoded
      · exact .inr ⟨_, if_neg fits⟩

end Decoders

end MiniEvm
