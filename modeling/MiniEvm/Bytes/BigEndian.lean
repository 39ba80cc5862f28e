import Mathlib.Algebra.Order.Ring.Nat
import Mathlib.Data.List.Basic
import Mathlib.Data.List.Induction
import Mathlib.Tactic.Ring

/-! Numbers as big-endian byte strings, and the shortest string of a number. -/

namespace BigEndian

/-- The number that a byte string writes, most significant byte first. -/
def value (bytes : List UInt8) : Nat :=
  bytes.foldl (fun value byte => value * 256 + byte.toNat) 0

@[simp] theorem value_nil : value [] = 0 := rfl

/-- The last byte is the lowest digit. -/
theorem value_concat (bytes : List UInt8) (last : UInt8) :
    value (bytes ++ [last]) = value bytes * 256 + last.toNat := by
  simp [value]

/-- The first of two strings counts for as much as the length of the second says. -/
theorem value_append (first second : List UInt8) :
    value (first ++ second) = value first * 256 ^ second.length + value second := by
  induction second using List.reverseRecOn with
  | nil => simp
  | append_singleton second last ih =>
    rw [← List.append_assoc, value_concat, ih, value_concat, List.length_append,
      List.length_singleton, Nat.pow_succ]
    ring

theorem value_cons (byte : UInt8) (rest : List UInt8) :
    value (byte :: rest) = byte.toNat * 256 ^ rest.length + value rest := by
  rw [← List.singleton_append, value_append]
  simp [value]

/-- Only zeros write zero. -/
theorem value_eq_zero_iff {bytes : List UInt8} : value bytes = 0 ↔ ∀ byte ∈ bytes, byte = 0 := by
  induction bytes with
  | nil => simp
  | cons byte rest ih =>
    -- Both digits of the sum have to vanish, and the weight of the first does not.
    have weight : 256 ^ rest.length ≠ 0 := Nat.ne_of_gt (Nat.pow_pos (by decide))
    rw [value_cons, Nat.add_eq_zero_iff, ih, Nat.mul_eq_zero, or_iff_left weight,
      List.forall_mem_cons, ← UInt8.toNat_inj]
    rfl

theorem value_lt (bytes : List UInt8) : value bytes < 256 ^ bytes.length := by
  induction bytes using List.reverseRecOn with
  | nil => simp
  | append_singleton bytes last ih =>
    have small := last.toNat_lt
    rw [value_concat, List.length_append, List.length_singleton, Nat.pow_succ]
    omega

/-- Of strings of one length, each number has its own. -/
theorem eq_of_value_eq {left right : List UInt8} (length : left.length = right.length)
    (same : value left = value right) : left = right := by
  -- From the end: the lowest digits agree, and so do the numbers without them.
  induction left using List.reverseRecOn generalizing right with
  | nil => exact (List.eq_nil_of_length_eq_zero length.symm).symm
  | append_singleton left last ih =>
    rcases List.eq_nil_or_concat' right with rfl | ⟨front, other, rfl⟩
    · simp at length
    · have small := last.toNat_lt
      have small' := other.toNat_lt
      rw [value_concat, value_concat] at same
      simp only [List.length_append, List.length_singleton] at length
      have digits : last.toNat = other.toNat := by omega
      have fronts : left = front := ih (by omega) (by omega)
      rw [fronts, UInt8.toNat_inj.mp digits]

/-- Zeros in front do not count. -/
theorem value_dropWhile (bytes : List UInt8) : value (bytes.dropWhile (· = 0)) = value bytes := by
  induction bytes with
  | nil => rfl
  | cons byte rest ih =>
    rw [List.dropWhile_cons]
    split
    · rename_i zero
      -- A zero that is dropped has counted for nothing.
      obtain rfl : byte = 0 := by simpa using zero
      rw [ih, value_cons]
      simp
    · rfl

/-- A string without a zero in front, as the shortest one of its number is. -/
def Shortest (bytes : List UInt8) : Prop := bytes.head? ≠ some 0

instance (bytes : List UInt8) : Decidable (Shortest bytes) :=
  inferInstanceAs (Decidable (bytes.head? ≠ some 0))

theorem shortest_dropWhile (bytes : List UInt8) : Shortest (bytes.dropWhile (· = 0)) := by
  unfold Shortest
  induction bytes with
  | nil => simp
  | cons byte rest ih =>
    rw [List.dropWhile_cons]
    split
    · exact ih
    · rename_i other
      simpa using other

/-- The number of such a string needs all of its bytes. -/
theorem Shortest.pow_le_value {byte : UInt8} {rest : List UInt8}
    (shortest : Shortest (byte :: rest)) : 256 ^ rest.length ≤ value (byte :: rest) := by
  -- The leading digit is one at least.
  have positive : 1 ≤ byte.toNat := by
    have nonzero : byte ≠ 0 := by simpa [Shortest] using shortest
    have number : byte.toNat ≠ 0 := fun zero => nonzero (UInt8.toNat_inj.mp zero)
    omega
  rw [value_cons]
  calc 256 ^ rest.length = 1 * 256 ^ rest.length := (Nat.one_mul _).symm
    _ ≤ byte.toNat * 256 ^ rest.length := Nat.mul_le_mul_right _ positive
    _ ≤ _ := Nat.le_add_right _ _

/-- A larger length means a larger number. -/
theorem Shortest.length_le {left right : List UInt8} (shortest : Shortest left)
    (same : value left = value right) : left.length ≤ right.length := by
  cases left with
  | nil => exact Nat.zero_le _
  | cons byte rest =>
    have lower := shortest.pow_le_value
    have upper := value_lt right
    by_contra longer
    -- A longer string would write a number that the shorter one cannot reach.
    have few : right.length ≤ rest.length := by
      simp only [List.length_cons] at longer
      omega
    have powers := Nat.pow_le_pow_right (by decide : 0 < 256) few
    omega

/-- A number has one shortest string. -/
theorem Shortest.eq_of_value_eq {left right : List UInt8} (shortest : Shortest left)
    (shortest' : Shortest right) (same : value left = value right) : left = right :=
  BigEndian.eq_of_value_eq
    (Nat.le_antisymm (shortest.length_le same) (shortest'.length_le same.symm)) same

end BigEndian
