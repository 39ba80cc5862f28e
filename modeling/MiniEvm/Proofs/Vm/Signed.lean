import MiniEvm.Proofs.Vm.Modular

/-! Signed opcodes against integers in two's complement, and the extension of a sign. -/

namespace MiniEvm

section Division

variable {value divisor : Word}

/-- The sign bit is the most significant one. -/
theorem and_signBit_ne_zero (value : Word) : value &&& signBit ≠ 0 ↔ value.msb = true := by
  have masked : value &&& signBit = if value.getLsbD 255 then BitVec.twoPow 256 255 else 0 := by
    exact BitVec.and_twoPow value 255
  rw [masked, BitVec.msb_eq_getLsbD_last]
  -- The mask leaves one bit, so the result is zero where that bit is.
  cases value.getLsbD 255 with
  | false => decide
  | true => decide

theorem not_add_one (value : Word) : ~~~value + 1 = -value := (BitVec.neg_eq_not_add value).symm

theorem magnitude_of_msb_false (positive : value.msb = false) : magnitude value = value := by
  unfold magnitude
  rw [if_neg]
  rw [and_signBit_ne_zero, positive]
  decide

theorem magnitude_of_msb_true (negative : value.msb = true) : magnitude value = -value := by
  unfold magnitude
  rw [if_pos ((and_signBit_ne_zero value).mpr negative), not_add_one]

/-- The division of magnitudes with a corrected sign is signed division. -/
theorem sdiv_eq (divisor dividend : Word) : sdiv divisor dividend = dividend.sdiv divisor := by
  unfold sdiv
  by_cases zero : divisor = 0
  · rw [if_pos zero, zero]
    exact BitVec.sdiv_zero.symm
  · rw [if_neg zero]
    simp only [and_signBit_ne_zero, not_add_one, BitVec.sdiv]
    -- There is one case for each pair of signs.
    cases dividendSign : dividend.msb with
    | false =>
      cases divisorSign : divisor.msb with
      | false => simp [magnitude_of_msb_false, dividendSign, divisorSign]
      | true => simp [magnitude_of_msb_false, magnitude_of_msb_true, dividendSign, divisorSign]
    | true =>
      cases divisorSign : divisor.msb with
      | false => simp [magnitude_of_msb_false, magnitude_of_msb_true, dividendSign, divisorSign]
      | true => simp [magnitude_of_msb_true, dividendSign, divisorSign]

/-- So is the remainder of magnitudes with the sign of the value, but for a modulus of zero. -/
theorem smod_eq (modulus value : Word) :
    smod modulus value = if modulus = 0 then 0 else value.srem modulus := by
  unfold smod
  by_cases zero : modulus = 0
  · rw [if_pos zero, if_pos zero]
  · rw [if_neg zero, if_neg zero]
    simp only [and_signBit_ne_zero, not_add_one, BitVec.srem]
    -- The four cases are those of the two signs.
    cases valueSign : value.msb with
    | false =>
      cases modulusSign : modulus.msb with
      | false => simp [magnitude_of_msb_false, valueSign, modulusSign]
      | true => simp [magnitude_of_msb_false, magnitude_of_msb_true, valueSign, modulusSign]
    | true =>
      cases modulusSign : modulus.msb with
      | false => simp [magnitude_of_msb_false, magnitude_of_msb_true, valueSign, modulusSign]
      | true => simp [magnitude_of_msb_true, valueSign, modulusSign]

/-- The truncated quotient, wrapped; only the least value divided by minus one needs it. -/
theorem sdiv_eq_ofInt (divisor dividend : Word) :
    sdiv divisor dividend =
      if divisor = 0 then 0 else BitVec.ofInt 256 (dividend.toInt.tdiv divisor.toInt) := by
  rw [sdiv_eq]
  by_cases zero : divisor = 0
  · rw [if_pos zero, zero]
    exact BitVec.sdiv_zero
  · rw [if_neg zero]
    -- Both sides are the balanced residue of the truncated quotient.
    apply BitVec.eq_of_toInt_eq
    rw [BitVec.toInt_sdiv, BitVec.toInt_ofInt]

theorem toInt_smod (modulus value : Word) :
    (smod modulus value).toInt =
      if modulus = 0 then 0 else value.toInt.tmod modulus.toInt := by
  rw [smod_eq]
  by_cases zero : modulus = 0
  · rw [if_pos zero, if_pos zero]
    rfl
  · rw [if_neg zero, if_neg zero]
    exact BitVec.toInt_srem value modulus

/-- Quotient and remainder make up the dividend, with wrapping products. -/
theorem sdiv_mul_add_smod (nonzero : divisor ≠ 0) (dividend : Word) :
    sdiv divisor dividend * divisor + smod divisor dividend = dividend := by
  have remainder : smod divisor dividend =
      BitVec.ofInt 256 (dividend.toInt.tmod divisor.toInt) := by
    rw [← BitVec.ofInt_toInt (x := smod divisor dividend), toInt_smod, if_neg nonzero]
  have factor : divisor = BitVec.ofInt 256 divisor.toInt := BitVec.ofInt_toInt.symm
  -- The integers satisfy the law, and reduction respects sums and products.
  calc sdiv divisor dividend * divisor + smod divisor dividend
      = BitVec.ofInt 256 (dividend.toInt.tdiv divisor.toInt) * BitVec.ofInt 256 divisor.toInt +
          BitVec.ofInt 256 (dividend.toInt.tmod divisor.toInt) := by
        rw [sdiv_eq_ofInt, if_neg nonzero, remainder, ← factor]
    _ = BitVec.ofInt 256 (dividend.toInt.tdiv divisor.toInt * divisor.toInt +
          dividend.toInt.tmod divisor.toInt) := by
        rw [BitVec.ofInt_add, BitVec.ofInt_mul]
    _ = dividend := by
        rw [Int.tdiv_mul_add_tmod, BitVec.ofInt_toInt]

end Division

section Shift

/-- The bits of a negative word are shifted in as ones, and every other way as zeros. -/
theorem sar_eq (shift value : Word) : sar shift value = value.sshiftRight shift.toNat := by
  apply BitVec.eq_of_getLsbD_eq
  intro i inside
  rw [BitVec.getLsbD_sshiftRight]
  unfold sar
  simp only [and_signBit_ne_zero]
  by_cases far : shift ≥ 256#256
  · have past : ¬ shift.toNat + i < 256 := by
      have number := BitVec.le_def.mp far
      simp only [BitVec.toNat_ofNat] at number
      omega
    rw [if_pos far, if_neg past]
    cases sign : value.msb with
    | false => simp
    | true =>
      rw [if_pos rfl, BitVec.getLsbD_allOnes]
      simp [inside]
  · have number := BitVec.lt_def.mp (BitVec.not_le.mp far)
    simp only [BitVec.toNat_ofNat] at number
    rw [if_neg far]
    by_cases none_ : shift = 0
    · rw [if_pos none_, none_]
      simp [inside]
    · rw [if_neg none_, asUsize_of_lt (by omega)]
      -- The mask covers just the bits that the shift has emptied.
      by_cases kept : shift.toNat + i < 256
      · have below : i < 256 - shift.toNat := by omega
        cases sign : value.msb with
        | false => simp [kept, inside]
        | true => simp [kept, inside, below]
      · have above : ¬ i < 256 - shift.toNat := by omega
        cases sign : value.msb with
        | false => simp [kept, inside, BitVec.getLsbD_of_ge _ _ (Nat.not_lt.mp kept)]
        | true =>
          rw [if_pos rfl, if_neg kept, BitVec.getLsbD_or, BitVec.getLsbD_shiftLeft,
            BitVec.getLsbD_allOnes]
          have within : i - (256 - shift.toNat) < 256 := by omega
          simp [inside, above, within]

/-- An arithmetic shift divides by a power of two and rounds down. -/
theorem toInt_sar (shift value : Word) :
    (sar shift value).toInt = value.toInt.fdiv (2 ^ shift.toNat) := by
  rw [sar_eq, BitVec.toInt_sshiftRight, Int.shiftRight_eq_div_pow, Int.fdiv_eq_ediv_of_nonneg]
  · norm_cast
  · exact Int.le_of_lt (Int.pow_pos (by decide))

end Shift

/--
What the signed opcodes push over two words, the upper one of which they divide or shift by.

The words are read as signed integers throughout.
-/
structure SignedExact (evm : Evm) (rest : List Word) (upper lower : Word) : Prop where
  sdiv : ∃ quotient, Pushes opSdiv evm rest quotient ∧
    quotient =
      if upper = 0 then 0 else BitVec.ofInt 256 (lower.toInt.tdiv upper.toInt)
  smod : ∃ remainder, Pushes opSmod evm rest remainder ∧
    remainder.toInt = if upper = 0 then 0 else lower.toInt.tmod upper.toInt
  law : ∀ quotient remainder, Pushes opSdiv evm rest quotient → Pushes opSmod evm rest remainder →
    upper ≠ 0 → quotient * upper + remainder = lower
  sar : ∃ shifted, Pushes opSar evm rest shifted ∧
    shifted.toInt = lower.toInt.fdiv (2 ^ upper.toNat)

theorem signed_exact (evm : Evm) (rest : List Word) (upper lower : Word)
    (operands : evm.stack.data = upper :: lower :: rest) : SignedExact evm rest upper lower := by
  have divides : Pushes opSdiv evm rest (sdiv upper lower) := pushes_binary _ _ operands
  have leaves : Pushes opSmod evm rest (smod upper lower) := pushes_binary _ _ operands
  refine ⟨⟨_, divides, sdiv_eq_ofInt upper lower⟩, ⟨_, leaves, toInt_smod upper lower⟩, ?_,
    ⟨_, pushes_binary _ _ operands, toInt_sar upper lower⟩⟩
  intro quotient remainder divided left nonzero
  -- There is only one quotient and one remainder to speak of.
  rw [divided.unique divides, left.unique leaves]
  exact sdiv_mul_add_smod nonzero lower

/-- The least word divided by minus one is the least word again. -/
theorem signed_of_least :
    Pushes opSdiv (operandFrame ⟨[-1, BitVec.intMin 256], by decide⟩) [] (BitVec.intMin 256) := by
  obtain ⟨quotient, pushes, number⟩ :=
    (signed_exact (operandFrame ⟨[-1, BitVec.intMin 256], by decide⟩) [] (-1) (BitVec.intMin 256)
      rfl).sdiv
  have isLeast : quotient = BitVec.intMin 256 := number.trans (by decide)
  rw [isLeast] at pushes
  exact pushes

section Extension

/-- The two's complement of the signed integer in the lowest bytes of a word. -/
def signExtended (bytes : Nat) (value : Word) : Word :=
  BitVec.ofInt 256 (value.setWidth (8 * bytes)).toInt

/-- What SIGNEXTEND is to push, with the index taken as an unbounded number. -/
def signextendExpected (byte value : Word) : Word :=
  if byte.toNat ≥ 31 then value else signExtended (byte.toNat + 1) value

variable {evm : Evm} {rest : List Word} {byte value : Word} {i : Nat}

/-- From the sign bit up, a sign-extended word repeats it. -/
theorem getLsbD_signExtended {bytes : Nat} (some_ : 0 < bytes) (few : bytes ≤ 32)
    (inside : i < 256) :
    (signExtended bytes value).getLsbD i = value.getLsbD (min i (8 * bytes - 1)) := by
  have extends_ : signExtended bytes value = (value.setWidth (8 * bytes)).signExtend 256 := rfl
  rw [extends_, BitVec.getLsbD_signExtend, BitVec.getLsbD_setWidth, BitVec.msb_setWidth]
  -- The sign bit is the last bit below the width.
  by_cases below : i < 8 * bytes
  · rw [Nat.min_eq_left (by omega)]
    simp [inside, below]
  · rw [Nat.min_eq_right (by omega)]
    have nonempty : 0 < 8 * bytes := by omega
    simp [inside, below, nonempty]

/-- The mask covers just the bits below its width, and the whole word where the shift wraps. -/
theorem getLsbD_mask {width : Nat} (few : width ≤ 256) (i : Nat) :
    (((1 <<< width : Nat) : Word) - 1).getLsbD i = decide (i < width) := by
  have number : (((1 <<< width : Nat) : Word) - 1).toNat = 2 ^ width - 1 := by
    have wrapped : ((1 <<< width : Nat) : Word).toNat = 2 ^ width % 2 ^ 256 := by
      rw [Nat.one_shiftLeft]
      exact BitVec.toNat_ofNat ..
    -- A shift by the whole width leaves zero, and one less than that is the word of ones.
    by_cases whole : width = 256
    · subst whole
      decide
    · have small : 2 ^ width < 2 ^ 256 := Nat.pow_lt_pow_right (by decide) (by omega)
      have positive : 0 < 2 ^ width := Nat.two_pow_pos width
      rw [Nat.mod_eq_of_lt small] at wrapped
      rw [BitVec.toNat_sub_of_le, wrapped]
      · rfl
      · rw [BitVec.le_def, wrapped]
        exact positive
  rw [BitVec.getLsbD, number, Nat.testBit_two_pow_sub_one]

/-- The bit that the handler looks at. -/
theorem shiftRight_and_one_ne_zero (value : Word) (bit : Nat) :
    value >>> bit &&& 1 ≠ 0 ↔ value.getLsbD bit = true := by
  rw [and_one_ne_zero, BitVec.toNat_ushiftRight, Nat.shiftRight_eq_div_pow,
    BitVec.getLsbD, Nat.testBit_eq_decide_div_mod_eq, decide_eq_true_eq]

/-- The handler repeats the sign bit of the byte that the lowest limb of the index names. -/
theorem getLsbD_signextend (byte value : Word) (inside : i < 256) :
    (signextend byte value).getLsbD i = value.getLsbD (min i (asUsize byte * 8 + 7)) := by
  unfold signextend
  by_cases beyond : asUsize byte ≥ 32
  · rw [if_pos beyond, Nat.min_eq_left (by omega)]
  · rw [if_neg beyond]
    have covers : asUsize byte * 8 + 7 + 1 ≤ 256 := by omega
    simp only [shiftRight_and_one_ne_zero]
    -- A set sign bit fills up what the mask leaves out, and a clear one empties it.
    cases sign : value.getLsbD (asUsize byte * 8 + 7) with
    | true =>
      rw [if_pos rfl, BitVec.getLsbD_or, BitVec.getLsbD_not, getLsbD_mask covers]
      by_cases below : i < asUsize byte * 8 + 7 + 1
      · rw [Nat.min_eq_left (by omega)]
        simp [below]
      · rw [Nat.min_eq_right (by omega), sign]
        simp [below, inside]
    | false =>
      rw [if_neg (by decide), BitVec.getLsbD_and, getLsbD_mask covers]
      by_cases below : i < asUsize byte * 8 + 7 + 1
      · rw [Nat.min_eq_left (by omega)]
        simp [below]
      · rw [Nat.min_eq_right (by omega), sign]
        simp [below]

/-- The same bits for the whole index are what is to be pushed. -/
theorem getLsbD_signextendExpected (byte value : Word) (inside : i < 256) :
    (signextendExpected byte value).getLsbD i =
      value.getLsbD (min i (byte.toNat * 8 + 7)) := by
  unfold signextendExpected
  by_cases beyond : byte.toNat ≥ 31
  · rw [if_pos beyond, Nat.min_eq_left (by omega)]
  · rw [if_neg beyond, getLsbD_signExtended (by omega) (by omega) inside]
    congr 2
    omega

/-- All bits from the sign bit of a byte up agree, so that extending it changes nothing. -/
def ExtendsFrom (index : Nat) (value : Word) : Prop :=
  ∀ i, index * 8 + 7 ≤ i → i < 256 → value.getLsbD i = value.getLsbD (index * 8 + 7)

/-- Truncating the index does no harm to a machine index and to a word that is extended already. -/
theorem signextend_eq_iff (byte value : Word) :
    signextend byte value = signextendExpected byte value ↔
      byte.toNat < 2 ^ 64 ∨ ExtendsFrom (asUsize byte) value := by
  constructor
  · intro same
    by_cases small : byte.toNat < 2 ^ 64
    · exact .inl small
    right
    intro i above inside
    -- So large an index stands for the word itself, bit by bit.
    have bit := congrArg (fun word => word.getLsbD i) same
    simp only [getLsbD_signextend byte value inside,
      getLsbD_signextendExpected byte value inside] at bit
    rw [Nat.min_eq_right above, Nat.min_eq_left (by omega)] at bit
    exact bit.symm
  · intro harmless
    apply BitVec.eq_of_getLsbD_eq
    intro i inside
    rw [getLsbD_signextend byte value inside, getLsbD_signextendExpected byte value inside]
    by_cases small : byte.toNat < 2 ^ 64
    · rw [asUsize_of_lt small]
    · have extended := harmless.resolve_left small
      rw [Nat.min_eq_left (b := byte.toNat * 8 + 7) (by omega)]
      by_cases below : i ≤ asUsize byte * 8 + 7
      · rw [Nat.min_eq_left below]
      · have above : asUsize byte * 8 + 7 ≤ i := by omega
        rw [Nat.min_eq_right above, extended i above inside]

/-- Extending twice from the same byte is extending once, whatever the index is. -/
theorem signextend_idempotent (byte value : Word) :
    signextend byte (signextend byte value) = signextend byte value := by
  apply BitVec.eq_of_getLsbD_eq
  intro i inside
  rw [getLsbD_signextend byte _ inside, getLsbD_signextend byte value inside,
    getLsbD_signextend byte value (Nat.lt_of_le_of_lt (Nat.min_le_left ..) inside),
    Nat.min_assoc, Nat.min_self]

/-- SIGNEXTEND pushes the extended word, and leaves that as it is if it is run on it again. -/
structure SignextendExact (evm : Evm) (rest : List Word) (byte value : Word) : Prop where
  pushes : Pushes opSignextend evm rest (signextendExpected byte value)
  idempotent : ∀ extended after, Pushes opSignextend evm rest extended →
    after.stack.data = byte :: extended :: rest → Pushes opSignextend after rest extended

/-- It does so unless a truncated index extends a byte that the whole index does not name. -/
theorem signextendExact_iff (evm : Evm) (rest : List Word) (byte value : Word)
    (operands : evm.stack.data = byte :: value :: rest) :
    SignextendExact evm rest byte value ↔
      byte.toNat < 2 ^ 64 ∨ ExtendsFrom (asUsize byte) value := by
  have pushes : Pushes opSignextend evm rest (signextend byte value) := pushes_binary _ _ operands
  rw [← signextend_eq_iff]
  constructor
  · intro holds
    exact pushes.unique holds.pushes
  · intro same
    refine ⟨same ▸ pushes, fun extended after extends_ again => ?_⟩
    obtain rfl := pushes.unique extends_
    -- The second extension works on the result of the first.
    have twice : Pushes opSignextend after rest (signextend byte (signextend byte value)) :=
      pushes_binary _ _ again
    rw [signextend_idempotent] at twice
    exact twice

/-- The last index that changes anything extends the sign of 31 bytes. -/
theorem signextendExact_of_thirty :
    SignextendExact (operandFrame ⟨[30, 0x80], by decide⟩) [] 30 0x80 :=
  (signextendExact_iff (operandFrame ⟨[30, 0x80], by decide⟩) [] 30 0x80 rfl).mpr
    (.inl (by decide))

/-- An index of 2^64 extends the lowest byte, as if it were zero. -/
theorem signextend_truncates_index :
    ¬ SignextendExact (operandFrame ⟨[0x10000000000000000, 0x80], by decide⟩) []
      0x10000000000000000 0x80 := by
  intro holds
  have pushes : Pushes opSignextend (operandFrame ⟨[0x10000000000000000, 0x80], by decide⟩) []
      (signextend 0x10000000000000000 0x80) := pushes_binary _ _ rfl
  -- The word is not to change, and its high bits are all set instead.
  have same := pushes.unique holds.pushes
  revert same
  decide

end Extension

end MiniEvm
