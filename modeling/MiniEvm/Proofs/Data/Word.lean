import MiniEvm.Bytes.BigEndian
import MiniEvm.Data.Word

/-! Words and lengths as byte strings, which determine them. -/

namespace MiniEvm

open BigEndian

theorem beBytes_succ (width value : Nat) :
    beBytes (width + 1) value = UInt8.ofNat (value >>> (8 * width)) :: beBytes width value := by
  -- The first byte is shifted out whole, and the others are those of one byte less.
  simp only [beBytes, List.range_succ_eq_map, List.map_cons, List.map_map]
  refine congrArg₂ List.cons ?_ (List.map_congr_left fun i member => ?_)
  · simp
  · simp only [Function.comp_apply]
    congr 3
    omega

theorem length_beBytes (width value : Nat) : (beBytes width value).length = width := by
  simp [beBytes]

/-- The bytes of a number write it, up to what their width can hold. -/
theorem value_beBytes (width number : Nat) :
    value (beBytes width number) = number % 256 ^ width := by
  induction width with
  | zero => simp [beBytes, Nat.mod_one]
  | succ width ih =>
    -- The leading byte is the next digit to the base of 256.
    rw [beBytes_succ, value_cons, ih, length_beBytes, Nat.mod_pow_succ, UInt8.toNat_ofNat',
      Nat.shiftRight_eq_div_pow, Nat.pow_mul]
    simp only [Nat.reducePow]
    ring

/-- No more than 32 bytes are read as the number that they write. -/
theorem toNat_fromBeBytes {bytes : Bytes} (short : bytes.length ≤ 32) :
    (fromBeBytes bytes).toNat = value bytes := by
  have bound : value bytes < 2 ^ 256 :=
    Nat.lt_of_lt_of_le (value_lt bytes) (Nat.pow_le_pow_right (by decide : 0 < 256) short)
  exact (BitVec.toNat_ofNat ..).trans (Nat.mod_eq_of_lt bound)

/-- Different words have different bytes. -/
theorem toBeBytes_injective : Function.Injective toBeBytes := by
  intro left right same
  have numbers := congrArg value same
  rw [toBeBytes, toBeBytes, value_beBytes, value_beBytes] at numbers
  apply BitVec.eq_of_toNat_eq
  -- Both are below 2^256, so nothing was cut off.
  have small := left.isLt
  have small' := right.isLt
  omega

/-- A word is read back from its bytes. -/
theorem fromBeBytes_toBeBytes (word : Word) : fromBeBytes (toBeBytes word) = word := by
  have small := word.isLt
  apply BitVec.eq_of_toNat_eq
  rw [toBeBytes, toNat_fromBeBytes (by rw [length_beBytes]), value_beBytes]
  omega

/-- A 64-bit number is its own lowest limb. -/
theorem asUsize_of_lt {word : Word} (small : word.toNat < 2 ^ 64) : asUsize word = word.toNat :=
  Nat.mod_eq_of_lt small

/-- Replacing a run of bytes changes the bytes of the run only. -/
theorem getElem?_overwrite {bytes source : Bytes} {offset : Nat}
    (inside : offset + source.length ≤ bytes.length) (i : Nat) :
    (overwrite bytes offset source)[i]? =
      if offset ≤ i ∧ i < offset + source.length then source[i - offset]? else bytes[i]? := by
  have start : (bytes.take offset).length = offset := by
    rw [List.length_take]
    omega
  -- The string falls into what is before the run, the run itself, and what is behind it.
  unfold overwrite
  rw [List.append_assoc, List.getElem?_append, start]
  by_cases before : i < offset
  · have outside : ¬ (offset ≤ i ∧ i < offset + source.length) := by omega
    rw [if_pos before, if_neg outside, List.getElem?_take_of_lt before]
  · rw [if_neg before, List.getElem?_append]
    by_cases within : i - offset < source.length
    · have inside' : offset ≤ i ∧ i < offset + source.length := by omega
      rw [if_pos within, if_pos inside']
    · have outside : ¬ (offset ≤ i ∧ i < offset + source.length) := by omega
      have position : offset + source.length + (i - offset - source.length) = i := by omega
      rw [if_neg within, if_neg outside, List.getElem?_drop, position]

/-- Growing adds zeros, which are what memory reads as past its end. -/
theorem getElem?_resize {bytes : Bytes} {size i : Nat} (longer : bytes.length ≤ size)
    (inside : i < size) : (resize bytes size)[i]? = some (bytes[i]?.getD 0) := by
  -- A byte is an old one or one of the zeros.
  unfold resize
  rw [List.take_of_length_le longer, List.getElem?_append]
  by_cases there : i < bytes.length
  · rw [if_pos there, List.getElem?_eq_getElem there]
    rfl
  · rw [if_neg there, List.getElem?_replicate, if_pos (by omega),
      List.getElem?_eq_none (Nat.not_lt.mp there)]
    rfl

end MiniEvm
