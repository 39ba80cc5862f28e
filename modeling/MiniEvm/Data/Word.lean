import Mathlib.Algebra.Group.Nat.Defs
import Mathlib.Data.List.AList

/-! Words, addresses, byte strings, and the 64-bit arithmetic the interpreter uses on them. -/

namespace MiniEvm

/-- A 256-bit word, whose arithmetic wraps. -/
abbrev Word := BitVec 256

/-- A twenty-byte account address. -/
abbrev Address := BitVec 160

/-- A byte string of any length. -/
abbrev Bytes := List UInt8

/-- A hash map with its entries in one of its iteration orders. -/
abbrev HashMap (κ ν : Type) := AList fun _ : κ => ν

/-- The largest 64-bit value, for gas, nonces, and sizes alike. -/
def u64Max : Nat := 2 ^ 64 - 1

/-- Addition that fails instead of leaving the 64-bit range. -/
def checkedAdd (a b : Nat) : Option Nat := if a + b ≤ u64Max then some (a + b) else none

/-- Multiplication that fails instead of leaving the 64-bit range. -/
def checkedMul (a b : Nat) : Option Nat := if a * b ≤ u64Max then some (a * b) else none

/-- Addition that stops at the largest 64-bit value. -/
def saturatingAdd (a b : Nat) : Nat := min (a + b) u64Max

/-- The lowest limb of a word, which is all that an unchecked index keeps. -/
def asUsize (value : Word) : Nat := value.toNat % 2 ^ 64

/-- A word as a 64-bit number, when it is one. -/
def toU64 (value : Word) : Option Nat := if value.toNat ≤ u64Max then some value.toNat else none

/-- A word as a 128-bit number, with larger words held at the maximum. -/
def toU128Saturating (value : Word) : BitVec 128 :=
  -- The conversion fails on larger words, and the caller then falls back on the maximum.
  if value.toNat < 2 ^ 128 then value.setWidth 128 else BitVec.allOnes 128

/-- The word written in big-endian bytes. -/
def fromBeBytes (bytes : Bytes) : Word :=
  BitVec.ofNat 256 (bytes.foldl (fun value byte => value * 256 + byte.toNat) 0)

/-- The last bytes of a number, most significant first. -/
def beBytes (width value : Nat) : Bytes :=
  (List.range width).map fun i => UInt8.ofNat (value >>> (8 * (width - 1 - i)))

/-- The thirty-two big-endian bytes of a word. -/
def toBeBytes (value : Word) : Bytes := beBytes 32 value.toNat

/-- The address in the low twenty bytes of a word. -/
def accountAddress (word : Word) : Address := word.setWidth 160

/-- The bytes from one position up to another. -/
def slice (bytes : Bytes) (start stop : Nat) : Bytes := (bytes.take stop).drop start

/-- The bytes with a run of them replaced in place. -/
def overwrite (bytes : Bytes) (offset : Nat) (source : Bytes) : Bytes :=
  bytes.take offset ++ source ++ bytes.drop (offset + source.length)

/-- The bytes cut or zero-filled to a length. -/
def resize (bytes : Bytes) (size : Nat) : Bytes :=
  bytes.take size ++ List.replicate (size - bytes.length) 0

/-- Growing keeps every byte and reaches the requested length. -/
theorem length_resize (bytes : Bytes) (size : Nat) : (resize bytes size).length = size := by
  -- Whatever the cut removes, the filling adds back.
  simp only [resize, List.length_append, List.length_take, List.length_replicate]
  omega

@[simp] theorem resize_length (bytes : Bytes) : resize bytes bytes.length = bytes := by
  -- Nothing is cut and nothing is filled in.
  simp [resize]

/-- Growing twice is growing once. -/
theorem resize_resize {bytes : Bytes} {small large : Nat} (longer : bytes.length ≤ small)
    (le : small ≤ large) : resize (resize bytes small) large = resize bytes large := by
  -- Nothing is ever cut, and the two runs of zeros join.
  rw [resize, length_resize, List.take_of_length_le (by rw [length_resize]; exact le)]
  rw [resize, resize, List.take_of_length_le longer,
    List.take_of_length_le (Nat.le_trans longer le), List.append_assoc, List.replicate_append_replicate]
  congr 2
  omega

/-- Replacing bytes inside a string keeps its length. -/
theorem length_overwrite {bytes source : Bytes} {offset : Nat}
    (inside : offset + source.length ≤ bytes.length) :
    (overwrite bytes offset source).length = bytes.length := by
  -- The replaced run and its replacement are equally long.
  simp only [overwrite, List.length_append, List.length_take, List.length_drop]
  omega

/-- A slice inside a string has the length of its range. -/
theorem length_slice {bytes : Bytes} {start stop : Nat} (inside : stop ≤ bytes.length) :
    (slice bytes start stop).length = stop - start := by
  simp only [slice, List.length_drop, List.length_take]
  omega

/-- A checked sum, when there is one, is the sum. -/
theorem checkedAdd_eq_some {a b c : Nat} (sum : checkedAdd a b = some c) :
    c = a + b ∧ a + b ≤ u64Max := by
  unfold checkedAdd at sum
  split at sum
  · exact ⟨(Option.some.inj sum).symm, by assumption⟩
  · simp at sum

end MiniEvm
