import Mathlib.Data.List.Basic

/-! Byte strings as hexadecimal text. -/

namespace Hex

/-- Why a text is not read. -/
inductive FromHexError where
  | invalidHexCharacter (c : UInt8) (index : Nat)
  | oddLength
  deriving DecidableEq

/-- A character in quotes, for a byte that is one. -/
def debugChar (c : UInt8) : String :=
  let escaped :=
    if c = 0x00 then "\\0"
    else if c = 0x09 then "\\t"
    else if c = 0x0A then "\\n"
    else if c = 0x0D then "\\r"
    else if c = 0x27 then "\\'"
    else if c = 0x5C then "\\\\"
    -- What cannot be printed is written as its number.
    else if c < 0x20 ∨ 0x7F ≤ c ∧ c ≤ 0xA0 ∨ c = 0xAD then
      "\\u\x7b" ++ String.ofList (Nat.toDigits 16 c.toNat) ++ "\x7d"
    else String.singleton (Char.ofNat c.toNat)
  "'" ++ escaped ++ "'"

/-- The text of an error. -/
def FromHexError.text : FromHexError → String
  | .invalidHexCharacter c index =>
    "Invalid character " ++ debugChar c ++ " at position " ++ toString index
  | .oddLength => "Odd number of digits"

def hexCharsLower : List Char :=
  ['0', '1', '2', '3', '4', '5', '6', '7', '8', '9', 'a', 'b', 'c', 'd', 'e', 'f']

/-- The digit of half a byte. -/
def digit (half : UInt8) : Char := hexCharsLower.getD half.toNat '0'

def byteDigits (byte : UInt8) : List Char := [digit (byte >>> 4), digit (byte &&& 0x0F)]

/-- Two digits for every byte, the high half first. -/
def encode (bytes : List UInt8) : String := String.ofList (bytes.flatMap byteDigits)

/-- The value of a digit, in either case. -/
def digitValue (c : UInt8) : Option UInt8 :=
  if 0x41 ≤ c ∧ c ≤ 0x46 then some (c - 0x41 + 10)
  else if 0x61 ≤ c ∧ c ≤ 0x66 then some (c - 0x61 + 10)
  else if 0x30 ≤ c ∧ c ≤ 0x39 then some (c - 0x30)
  else none

def val (c : UInt8) (index : Nat) : Except FromHexError UInt8 :=
  match digitValue c with
  | some value => .ok value
  | none => .error (.invalidHexCharacter c index)

/-- The bytes a text is stored in. -/
def utf8 (text : String) : List UInt8 := text.toList.flatMap String.utf8EncodeChar

/-- Reads the digits in pairs, from some position on. -/
def decode.pairs : (index : Nat) → List UInt8 → Except FromHexError (List UInt8)
  | index, high :: low :: rest => do
    let byte := (← val high index) <<< 4 ||| (← val low (index + 1))
    return byte :: (← pairs (index + 2) rest)
  | _, _ => .ok []

/-- The bytes that a text of digits writes. -/
def decode (text : String) : Except FromHexError (List UInt8) :=
  let bytes := utf8 text
  if bytes.length % 2 ≠ 0 then .error .oddLength else decode.pairs 0 bytes

/-- A text without what it starts with, where it does start with that. -/
def stripPrefix (start text : String) : Option String :=
  (text.toList.dropPrefix? start.toList).map String.ofList

section Texts

@[simp] theorem stripPrefix_append (start text : String) :
    stripPrefix start (start ++ text) = some text := by
  have dropped : (start.toList ++ text.toList).dropPrefix? start.toList = some text.toList :=
    List.dropPrefix?_append_of_beq text.toList (beq_self_eq_true start.toList)
  rw [stripPrefix, String.toList_append, dropped, Option.map_some, String.ofList_toList]

end Texts

section RoundTrip

/-- The two digits of a byte are two bytes of text, and read as its halves. -/
theorem byteDigits_spec (byte : UInt8) :
    ∃ high low, (byteDigits byte).flatMap String.utf8EncodeChar = [high, low] ∧
      digitValue high = some (byte >>> 4) ∧ digitValue low = some (byte &&& 0x0F) := by
  -- There are 256 bytes.
  have checked : ∀ n : Fin 256,
      ((byteDigits ⟨⟨n⟩⟩).flatMap String.utf8EncodeChar).map digitValue =
        [some ((⟨⟨n⟩⟩ : UInt8) >>> 4), some ((⟨⟨n⟩⟩ : UInt8) &&& 0x0F)] := by decide +kernel
  have values := checked byte.toFin
  obtain ⟨high, _, digits, first, tail⟩ := List.map_eq_cons_iff.mp values
  obtain ⟨low, _, rest, second, last⟩ := List.map_eq_cons_iff.mp tail
  rw [rest, List.map_eq_nil_iff.mp last] at digits
  exact ⟨high, low, digits, first, second⟩

/-- A byte is put together from its halves. -/
theorem halves (byte : UInt8) : (byte >>> 4) <<< 4 ||| (byte &&& 0x0F) = byte := by
  have checked : ∀ n : Fin 256,
      ((⟨⟨n⟩⟩ : UInt8) >>> 4) <<< 4 ||| ((⟨⟨n⟩⟩ : UInt8) &&& 0x0F) = ⟨⟨n⟩⟩ := by decide +kernel
  exact checked byte.toFin

theorem pairs_encoded (bytes : List UInt8) (index : Nat) :
    decode.pairs index ((bytes.flatMap byteDigits).flatMap String.utf8EncodeChar) = .ok bytes := by
  induction bytes generalizing index with
  | nil => rfl
  | cons byte rest ih =>
    obtain ⟨high, low, digits, first, second⟩ := byteDigits_spec byte
    rw [List.flatMap_cons, List.flatMap_append, digits]
    simp only [List.cons_append, List.nil_append, decode.pairs, val, first, second, ih]
    exact congrArg (fun byte => Except.ok (byte :: rest)) (halves byte)

theorem length_utf8_encode (bytes : List UInt8) : (utf8 (encode bytes)).length = 2 * bytes.length := by
  rw [utf8, encode, String.toList_ofList]
  induction bytes with
  | nil => rfl
  | cons byte rest ih =>
    obtain ⟨high, low, digits, _⟩ := byteDigits_spec byte
    rw [List.flatMap_cons, List.flatMap_append, digits, List.length_append, ih, List.length_cons]
    simp only [List.length_cons, List.length_nil]
    omega

/-- What is written is read back. -/
@[simp] theorem decode_encode (bytes : List UInt8) : decode (encode bytes) = .ok bytes := by
  have even : ¬ (utf8 (encode bytes)).length % 2 ≠ 0 := by
    rw [length_utf8_encode]
    omega
  rw [decode, if_neg even, utf8, encode, String.toList_ofList]
  exact pairs_encoded bytes 0

theorem digit_ne_marker (half : UInt8) : digit half ≠ 'x' := by
  intro marker
  have checked : ∀ n : Fin 256, digit ⟨⟨n⟩⟩ ≠ 'x' := by decide +kernel
  exact checked half.toFin marker

/-- No text of digits starts with the usual prefix. -/
theorem stripPrefix_encode (bytes : List UInt8) : stripPrefix "0x" (encode bytes) = none := by
  rw [stripPrefix, encode, String.toList_ofList, Option.map_eq_none_iff,
    Option.eq_none_iff_forall_ne_some]
  intro rest dropped
  obtain ⟨start, whole, same⟩ := List.dropPrefix?_eq_some_iff.mp dropped
  rw [eq_of_beq same] at whole
  cases bytes with
  | nil => exact nomatch whole
  | cons byte bytes =>
    -- The second character would have to be both a digit and none.
    obtain ⟨_, later⟩ := List.cons.inj whole
    exact digit_ne_marker _ (List.cons.inj later).1

end RoundTrip

end Hex
