import MiniEvm.Mpt.Node

/-! The hex-prefix form of a path: it reads back, it is written once, and no bit of it is lost. -/

namespace MiniEvm

theorem byteNibbles_packed (high low : Nibble) :
    byteNibbles ((high.toByte <<< 4) ||| low.toByte) = [high, low] := by
  revert high low
  decide

/-- Packed nibbles unpack to themselves, if their number is even. -/
theorem flatMap_pack (path : Nibbles) (even : path.length % 2 = 0) :
    (compactEncode.pack path).flatMap byteNibbles = path := by
  -- Two nibbles go into each byte.
  induction path using compactEncode.pack.induct with
  | case1 high low rest ih =>
    simp only [List.length_cons] at even
    rw [compactEncode.pack, List.flatMap_cons, byteNibbles_packed, ih (by omega)]
    rfl
  | case2 path short =>
    cases path with
    | nil => rfl
    | cons first rest =>
      cases rest with
      | nil => simp at even
      | cons second rest => exact absurd rfl (short first second rest)

/-- The first byte tells the flag, and the odd nibble if there is one. -/
theorem flags_of_odd (first : Nibble) (leaf : Bool) (rest : Bytes) :
    compactDecode ((((if leaf then 2 else 0) + 1 : UInt8) <<< 4 ||| first.toByte) :: rest) =
      (first :: rest.flatMap byteNibbles, leaf) := by
  -- There are sixteen nibbles and two flags to go through.
  have flags : ∀ (first : Nibble) (leaf : Bool),
      let byte := ((if leaf then 2 else 0) + 1 : UInt8) <<< 4 ||| first.toByte
      ((byte >>> 4) &&& 1 == 1) = true ∧ ((byte >>> 4) &&& 2 == 2) = leaf ∧
        Fin.ofNat 16 (byte &&& 0x0f).toNat = first := by decide
  obtain ⟨odd, leaf', nibble⟩ := flags first leaf
  simp only [compactDecode, odd, leaf', nibble, if_true, List.singleton_append]

theorem flags_of_even (leaf : Bool) (rest : Bytes) :
    compactDecode (((if leaf then 2 else 0 : UInt8) <<< 4) :: rest) =
      (rest.flatMap byteNibbles, leaf) := by
  cases leaf <;> rfl

/-- A path and its flag read back from their hex-prefix form. -/
theorem compactDecode_compactEncode (path : Nibbles) (leaf : Bool) :
    compactDecode (compactEncode path leaf) = (path, leaf) := by
  unfold compactEncode
  -- An odd nibble shares the byte of the flags, and an even number of them remains.
  by_cases odd : path.length % 2 = 1
  · cases path with
    | nil => simp at odd
    | cons first rest =>
      have even : rest.length % 2 = 0 := by
        rw [List.length_cons] at odd
        omega
      simp only [odd, beq_self_eq_true, if_true, flags_of_odd, flatMap_pack rest even]
  · have even : path.length % 2 = 0 := by omega
    have flag : (path.length % 2 == 1) = false := by simp [even]
    simp only [flag, Bool.false_eq_true, if_false, UInt8.add_zero, flags_of_even,
      flatMap_pack path even]

theorem compactEncode_inj {path path' : Nibbles} {leaf leaf' : Bool}
    (same : compactEncode path leaf = compactEncode path' leaf') : path = path' ∧ leaf = leaf' := by
  have decoded := congrArg compactDecode same
  rw [compactDecode_compactEncode, compactDecode_compactEncode] at decoded
  exact Prod.mk.inj decoded

section Numbers

/-- The pairs of a path as numbers, which nothing cuts to a byte. -/
def packNumbers : Nibbles → List Nat
  | high :: low :: rest => (high.val * 16 + low.val) :: packNumbers rest
  | _ => []

/-- The hex-prefix form as numbers: the flags above the odd nibble, then pairs. -/
def compactNumbers (path : Nibbles) (leaf : Bool) : List Nat :=
  let flags := (if leaf then 2 else 0) + path.length % 2
  match path.length % 2 == 1, path with
  | true, first :: rest => (flags * 16 + first.val) :: packNumbers rest
  | _, path => flags * 16 :: packNumbers path

/-- Packed nibbles read back as the numbers of their pairs. -/
theorem toNat_pack (path : Nibbles) :
    (compactEncode.pack path).map UInt8.toNat = packNumbers path := by
  have pair : ∀ high low : Nibble,
      ((high.toByte <<< 4) ||| low.toByte).toNat = high.val * 16 + low.val := by decide
  induction path using compactEncode.pack.induct with
  | case1 high low rest ih => rw [compactEncode.pack, packNumbers, List.map_cons, pair, ih]
  -- Less than a pair is left, and nothing is packed of it.
  | case2 path short =>
    cases path with
    | nil => rfl
    | cons first rest =>
      cases rest with
      | nil => rfl
      | cons second rest => exact absurd rfl (short first second rest)

/-- Every byte is the number that its two halves make, so no shift moves a bit out. -/
theorem toNat_compactEncode (path : Nibbles) (leaf : Bool) :
    (compactEncode path leaf).map UInt8.toNat = compactNumbers path leaf := by
  have shared : ∀ (first : Nibble) (leaf : Bool),
      ((((if leaf then 2 else 0) + 1 : UInt8) <<< 4) ||| first.toByte).toNat =
        ((if leaf then 2 else 0) + 1) * 16 + first.val := by decide
  unfold compactEncode compactNumbers
  -- The parity decides what the first byte holds beside the flags.
  by_cases odd : path.length % 2 = 1
  · cases path with
    | nil => simp at odd
    | cons first rest =>
      simp only [odd, beq_self_eq_true, if_true, List.map_cons, shared, toNat_pack]
  · have even : path.length % 2 = 0 := by omega
    have flag : (path.length % 2 == 1) = false := by simp [even]
    simp only [flag, Bool.false_eq_true, if_false, List.map_cons, toNat_pack]
    cases leaf with
    | false => simp [even]
    | true => simp [even]

end Numbers

/-- A path and a flag, and their hex-prefix form, stand for one another. -/
structure HexPrefixExact (path : Nibbles) (leaf : Bool) : Prop where
  decodes : compactDecode (compactEncode path leaf) = (path, leaf)
  only : ∀ path' leaf', compactEncode path' leaf' = compactEncode path leaf →
    path' = path ∧ leaf' = leaf
  encodesAgain : ∀ bytes, bytes = compactEncode path leaf →
    compactEncode (compactDecode bytes).1 (compactDecode bytes).2 = bytes
  numbers : (compactEncode path leaf).map UInt8.toNat = compactNumbers path leaf
  bytes : ∀ number ∈ compactNumbers path leaf, number < 256

/-- Paths of every length, with either flag, keep everything in their hex-prefix form. -/
theorem hex_prefix_exact (path : Nibbles) (leaf : Bool) : HexPrefixExact path leaf where
  decodes := compactDecode_compactEncode path leaf
  only := fun _ _ same => compactEncode_inj same
  encodesAgain := by
    intro bytes produced
    rw [produced, compactDecode_compactEncode]
  numbers := toNat_compactEncode path leaf
  bytes := by
    intro number member
    rw [← toNat_compactEncode] at member
    obtain ⟨byte, _, rfl⟩ := List.mem_map.mp member
    exact byte.toNat_lt

end MiniEvm
