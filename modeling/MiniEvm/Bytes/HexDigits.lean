import MiniEvm.Bytes.BigEndian
import MiniEvm.Bytes.Hex
import MiniEvm.Bytes.HexNumber

/-! Which texts are hexadecimal, and which numbers they write. -/

namespace Hex

/-- The value of a character that is a digit, in either case. -/
def charValue (c : Char) : Option Nat :=
  if '0' ≤ c ∧ c ≤ '9' then some (c.toNat - '0'.toNat)
  else if 'a' ≤ c ∧ c ≤ 'f' then some (c.toNat - 'a'.toNat + 10)
  else if 'A' ≤ c ∧ c ≤ 'F' then some (c.toNat - 'A'.toNat + 10)
  else none

/-- A text consists of these digits. -/
def Spells (text : String) (digits : List Nat) : Prop :=
  text.toList.map charValue = digits.map some

/-- The number that digits write, the most significant one first. -/
def ofDigits (digits : List Nat) : Nat := digits.foldl (fun number digit => number * 16 + digit) 0

/-- The digits of a byte, the high half first. -/
def nibbles (byte : UInt8) : List Nat := [byte.toNat / 16, byte.toNat % 16]

section Numbers

variable {digits digits' : List Nat} {text : String}

/-- A zero in front changes nothing. -/
theorem ofDigits_cons_zero (digits : List Nat) : ofDigits (0 :: digits) = ofDigits digits := rfl

/-- Digits by halves of bytes write the same number as the bytes. -/
theorem ofDigits_nibbles (bytes : List UInt8) :
    ofDigits (bytes.flatMap nibbles) = BigEndian.value bytes := by
  induction bytes using List.reverseRecOn with
  | nil => rfl
  | append_singleton bytes last ih =>
    rw [List.flatMap_append, List.flatMap_singleton, BigEndian.value_concat, ← ih]
    simp only [ofDigits, nibbles, List.foldl_append, List.foldl_cons, List.foldl_nil]
    omega

/-- Every byte has two halves. -/
theorem length_nibbles (bytes : List UInt8) : (bytes.flatMap nibbles).length = 2 * bytes.length := by
  induction bytes with
  | nil => rfl
  | cons byte rest ih =>
    rw [List.flatMap_cons, List.length_append, ih, List.length_cons]
    simp only [nibbles, List.length_cons, List.length_nil]
    omega

/-- An even number of digits are the halves of some bytes. -/
theorem exists_nibbles (digits : List Nat) (small : ∀ digit ∈ digits, digit < 16)
    (even : digits.length % 2 = 0) : ∃ bytes : List UInt8, digits = bytes.flatMap nibbles := by
  match digits with
  | [] => exact ⟨[], rfl⟩
  | [_] => cases even
  | high :: low :: rest =>
    have high_lt := small high (by simp)
    have low_lt := small low (by simp)
    obtain ⟨bytes, rfl⟩ := exists_nibbles rest (fun digit member => small digit (by simp [member]))
      (by simp only [List.length_cons] at even; omega)
    refine ⟨UInt8.ofNat (high * 16 + low) :: bytes, ?_⟩
    have whole : (UInt8.ofNat (high * 16 + low)).toNat = high * 16 + low :=
      Nat.mod_eq_of_lt (by omega)
    have upper : (high * 16 + low) / 16 = high := by omega
    have lower : (high * 16 + low) % 16 = low := by omega
    rw [List.flatMap_cons, nibbles, whole, upper, lower]
    rfl

/-- A text has one row of digits at most. -/
theorem Spells.unique (spells : Spells text digits) (spells' : Spells text digits') :
    digits = digits' :=
  List.map_injective_iff.mpr (Option.some_injective Nat) (spells.symm.trans spells')

/-- A digit is below sixteen. -/
theorem charValue_lt {c : Char} {digit : Nat} (value : charValue c = some digit) : digit < 16 := by
  simp only [charValue, Char.le_def, UInt32.le_iff_toNat_le] at value
  have nines : '9'.val.toNat = 57 := rfl
  have lower : 'f'.val.toNat = 102 := rfl
  have upper : 'F'.val.toNat = 70 := rfl
  have zero : '0'.toNat = 48 := rfl
  have small : 'a'.toNat = 97 := rfl
  have large : 'A'.toNat = 65 := rfl
  have number : c.toNat = c.val.toNat := rfl
  split at value
  · obtain rfl := Option.some.inj value
    omega
  · split at value
    · obtain rfl := Option.some.inj value
      omega
    · split at value
      · obtain rfl := Option.some.inj value
        omega
      · cases value

/-- All digits that a text spells are below sixteen. -/
theorem Spells.lt (spells : Spells text digits) : ∀ digit ∈ digits, digit < 16 := by
  intro digit member
  have listed : some digit ∈ text.toList.map charValue := by
    rw [spells]
    exact List.mem_map_of_mem member
  obtain ⟨c, _, value⟩ := List.mem_map.mp listed
  exact charValue_lt value

/-- A zero in front is one more digit. -/
theorem spells_cons_zero : Spells ("0" ++ text) (0 :: digits) ↔ Spells text digits := by
  have zero : charValue '0' = some 0 := by decide
  simp [Spells, String.toList_append, zero]

/-- The shortest digits of a number write that number. -/
theorem exists_spells_toDigits (n : Nat) :
    ∃ digits, Spells (String.ofList (Nat.toDigits 16 n)) digits ∧ ofDigits digits = n := by
  have all : ∀ digit : Fin 16, charValue (Nat.digitChar digit) = some digit.val := by decide
  -- The last digit is the remainder, and those before it write the quotient.
  induction n using Nat.strongRecOn with
  | ind n ih =>
    rw [Nat.toDigits_eq_if (by decide)]
    split
    · rename_i small
      refine ⟨[n], ?_, by simp [ofDigits]⟩
      rw [Spells, String.toList_ofList, List.map_singleton, all ⟨n, small⟩]
      rfl
    · obtain ⟨digits, spells, value⟩ := ih (n / 16) (by omega)
      refine ⟨digits ++ [n % 16], ?_, ?_⟩
      · rw [Spells, String.toList_ofList] at spells ⊢
        rw [List.map_append, spells, List.map_singleton,
          all ⟨n % 16, Nat.mod_lt n (by decide)⟩, List.map_append]
        rfl
      · rw [ofDigits, List.foldl_append, ← ofDigits, value]
        simp only [List.foldl_cons, List.foldl_nil]
        omega

end Numbers

section Tables

/-- What there is to check about each of the first 128 characters. -/
theorem ascii_table : ∀ n < 128,
    String.utf8EncodeChar (Char.ofNat n) = [UInt8.ofNat n] ∧
    digitValue (UInt8.ofNat n) = (charValue (Char.ofNat n)).map UInt8.ofNat ∧
    ((Char.ofNat n).toLower = '0' ↔ Char.ofNat n = '0') ∧
    ((Char.ofNat n).toLower = 'x' ↔ Char.ofNat n = 'x' ∨ Char.ofNat n = 'X') ∧
    ∀ half < 16, charValue (Char.ofNat n) = some half ↔
      (Char.ofNat n).toLower = digit (UInt8.ofNat half) := by
  decide +kernel

/-- What there is to check about each half of a byte, and about two of them. -/
theorem half_table : ∀ half < 16,
    (digit (UInt8.ofNat half)).val.toNat < 128 ∧
    (digit (UInt8.ofNat half)).toLower = digit (UInt8.ofNat half) ∧
    ∀ low < 16, (UInt8.ofNat half <<< 4 ||| UInt8.ofNat low) >>> 4 = UInt8.ofNat half ∧
      (UInt8.ofNat half <<< 4 ||| UInt8.ofNat low) &&& 0x0F = UInt8.ofNat low := by
  decide +kernel

/-- What there is to check about each byte. -/
theorem byte_table : ∀ n < 256,
    nibbles (UInt8.ofNat n) = [(UInt8.ofNat n >>> 4).toNat, (UInt8.ofNat n &&& 0x0F).toNat] ∧
    UInt8.ofNat n >>> 4 < 16 ∧ UInt8.ofNat n &&& 0x0F < 16 ∧
    ((digitValue (UInt8.ofNat n)).all fun value => value < 16) = true ∧
    (128 ≤ n → digitValue (UInt8.ofNat n) = none) := by
  decide +kernel

/-- The row of a byte. -/
theorem byte_checked (byte : UInt8) :
    nibbles byte = [(byte >>> 4).toNat, (byte &&& 0x0F).toNat] ∧ byte >>> 4 < 16 ∧
      byte &&& 0x0F < 16 ∧ ((digitValue byte).all fun value => value < 16) = true ∧
      (128 ≤ byte.toNat → digitValue byte = none) := by
  simpa only [UInt8.ofNat_toNat] using byte_table byte.toNat byte.toNat_lt

end Tables

section Characters

/-- What holds of the first 128 characters and of those beyond them holds of all. -/
@[elab_as_elim]
theorem ascii_cases {motive : Char → Prop} (c : Char)
    (ascii : ∀ n : Fin 128, motive (Char.ofNat n))
    (beyond : ∀ c, 128 ≤ c.val.toNat → motive c) : motive c := by
  by_cases small : c.val.toNat < 128
  · have same : Char.ofNat c.val.toNat = c := Char.ofNat_toNat c
    exact same ▸ ascii ⟨c.val.toNat, small⟩
  · exact beyond c (by omega)

/-- Characters past the first 128 are no digits. -/
theorem charValue_of_beyond {c : Char} (beyond : 128 ≤ c.val.toNat) : charValue c = none := by
  have nine : '9'.val.toNat = 57 := rfl
  have lower : 'f'.val.toNat = 102 := rfl
  have upper : 'F'.val.toNat = 70 := rfl
  simp only [charValue, Char.le_def, UInt32.le_iff_toNat_le]
  rw [if_neg (by omega), if_neg (by omega), if_neg (by omega)]

/-- Characters past the first 128 have no other case here. -/
theorem toLower_of_beyond {c : Char} (beyond : 128 ≤ c.val.toNat) : c.toLower = c := by
  have upper : ¬ (c.val ≥ 'A'.val ∧ c.val ≤ 'Z'.val) := by
    rintro ⟨-, last⟩
    have bound : c.val.toNat ≤ 90 := last
    omega
  exact dif_neg upper

/-- A digit is one byte of text, and has the same value there. -/
theorem utf8_of_digit (c : Char) (digit : Nat) (value : charValue c = some digit) :
    (String.utf8EncodeChar c).map digitValue = [some (UInt8.ofNat digit)] := by
  induction c using ascii_cases with
  | ascii n =>
    obtain ⟨encoded, read, -⟩ := ascii_table n n.isLt
    rw [encoded, List.map_singleton, read, value]
    rfl
  | beyond c beyond =>
    rw [charValue_of_beyond beyond] at value
    cases value

/-- Any other character shows in its bytes. -/
theorem utf8_of_other (c : Char) (value : charValue c = none) :
    none ∈ (String.utf8EncodeChar c).map digitValue := by
  induction c using ascii_cases with
  | ascii n =>
    obtain ⟨encoded, read, -⟩ := ascii_table n n.isLt
    rw [encoded, List.map_singleton, read, value]
    exact List.mem_singleton_self none
  | beyond c beyond =>
    -- The last byte of such a character is none of a digit.
    have last : ∀ n : Nat, digitValue (UInt8.ofNat (n % 0x40 + 0x80)) = none := by
      intro n
      have high : 128 ≤ (UInt8.ofNat (n % 0x40 + 0x80)).toNat := by
        rw [UInt8.toNat_ofNat']
        omega
      obtain ⟨-, -, -, -, unread⟩ := byte_checked (UInt8.ofNat (n % 0x40 + 0x80))
      exact unread high
    refine List.mem_map.mpr ⟨UInt8.ofNat (c.val.toNat % 0x40 + 0x80), ?_, last _⟩
    rw [String.utf8EncodeChar, if_neg (by omega)]
    split
    · simp
    · split
      · simp
      · simp

/-- In either case, a character that is a digit is the one that is written for its value. -/
theorem charValue_iff_toLower (c : Char) (half : UInt8) (small : half < 16) :
    charValue c = some half.toNat ↔ c.toLower = digit half := by
  have fits : UInt8.ofNat half.toNat = half := UInt8.ofNat_toNat
  induction c using ascii_cases with
  | ascii n =>
    obtain ⟨-, -, -, -, written⟩ := ascii_table n n.isLt
    simpa only [fits] using written half.toNat small
  | beyond c beyond =>
    -- No other character is a digit, or becomes one.
    obtain ⟨bound, -⟩ := half_table half.toNat small
    rw [fits] at bound
    rw [charValue_of_beyond beyond, toLower_of_beyond beyond]
    refine ⟨nofun, fun same => ?_⟩
    rw [same] at beyond
    omega

/-- The zero of the prefix has one case only. -/
theorem toLower_eq_zero_iff (c : Char) : c.toLower = '0' ↔ c = '0' := by
  induction c using ascii_cases with
  | ascii n =>
    obtain ⟨-, -, zero, -⟩ := ascii_table n n.isLt
    exact zero
  | beyond c beyond => rw [toLower_of_beyond beyond]

/-- The letter of the prefix has two cases. -/
theorem toLower_eq_x_iff (c : Char) : c.toLower = 'x' ↔ c = 'x' ∨ c = 'X' := by
  induction c using ascii_cases with
  | ascii n =>
    obtain ⟨-, -, -, marker, -⟩ := ascii_table n n.isLt
    exact marker
  | beyond c beyond =>
    rw [toLower_of_beyond beyond]
    have lower : c ≠ 'X' := by
      rintro rfl
      exact absurd beyond (by decide)
    simp [lower]

/-- The digits of a byte as values and as characters. -/
theorem nibbles_eq (byte : UInt8) :
    nibbles byte = [(byte >>> 4).toNat, (byte &&& 0x0F).toNat] ∧ byte >>> 4 < 16 ∧
      byte &&& 0x0F < 16 := by
  obtain ⟨digits, high, low, -⟩ := byte_checked byte
  exact ⟨digits, high, low⟩

/-- Digits are written in lower case. -/
theorem toLower_digit {half : UInt8} (small : half < 16) : (digit half).toLower = digit half := by
  have fits : UInt8.ofNat half.toNat = half := UInt8.ofNat_toNat
  obtain ⟨-, lower, -⟩ := half_table half.toNat small
  simpa only [fits] using lower

/-- A text has the digits of some bytes if it is what is written for them, in either case. -/
theorem spells_iff_toLower (text : String) (bytes : List UInt8) :
    Spells text (bytes.flatMap nibbles) ↔
      text.toList.map Char.toLower = (encode bytes).toList.map Char.toLower := by
  have written : ∀ bytes : List UInt8,
      (bytes.flatMap byteDigits).map Char.toLower = bytes.flatMap byteDigits := by
    intro bytes
    rw [List.map_flatMap]
    refine List.flatMap_congr fun byte _ => ?_
    obtain ⟨-, high, low⟩ := nibbles_eq byte
    rw [byteDigits, List.map_cons, List.map_singleton, toLower_digit high, toLower_digit low]
  have general : ∀ (bytes : List UInt8) (chars : List Char),
      chars.map charValue = (bytes.flatMap nibbles).map some ↔
        chars.map Char.toLower = bytes.flatMap byteDigits := by
    intro bytes
    induction bytes with
    | nil => simp
    | cons byte rest ih =>
      intro chars
      obtain ⟨digits, high, low⟩ := nibbles_eq byte
      rw [List.flatMap_cons, List.flatMap_cons, digits, byteDigits]
      match chars with
      | [] => simp
      | [_] => simp
      | first :: second :: chars =>
        have upper := charValue_iff_toLower first (byte >>> 4) high
        have lower := charValue_iff_toLower second (byte &&& 0x0F) low
        simp only [List.map_cons, List.cons_append, List.nil_append, List.cons.injEq, upper, lower,
          ih chars]
  rw [encode, String.toList_ofList, written]
  exact general bytes text.toList

/-- A text can be read off its bytes. -/
theorem spells_iff {text : String} {digits : List Nat} :
    Spells text digits ↔ (utf8 text).map digitValue = digits.map (fun n => some (UInt8.ofNat n)) ∧
      ∀ digit ∈ digits, digit < 16 := by
  refine ⟨fun spells => ⟨?_, spells.lt⟩, fun ⟨read, small⟩ => ?_⟩
  · have general : ∀ (chars : List Char) (digits : List Nat),
        chars.map charValue = digits.map some →
        (chars.flatMap String.utf8EncodeChar).map digitValue =
          digits.map fun n => some (UInt8.ofNat n) := by
      intro chars
      induction chars with
      | nil =>
        intro digits spells
        rw [List.map_eq_nil_iff.mp spells.symm]
        rfl
      | cons c rest ih =>
        intro digits spells
        obtain ⟨digit, digits, rfl, value, spells⟩ := List.map_eq_cons_iff.mp spells.symm
        rw [List.flatMap_cons, List.map_append, utf8_of_digit c digit value.symm, ih digits spells.symm]
        rfl
    exact general text.toList digits spells
  · have general : ∀ (chars : List Char) (digits : List Nat),
        (chars.flatMap String.utf8EncodeChar).map digitValue =
          digits.map (fun n => some (UInt8.ofNat n)) → (∀ digit ∈ digits, digit < 16) →
        chars.map charValue = digits.map some := by
      intro chars
      induction chars with
      | nil =>
        intro digits read small
        rw [List.map_eq_nil_iff.mp read.symm]
        rfl
      | cons c rest ih =>
        intro digits read small
        rw [List.flatMap_cons, List.map_append] at read
        cases value : charValue c with
        | none =>
          -- A byte that is none of a digit is not among the values.
          have member := List.mem_append_left
            ((rest.flatMap String.utf8EncodeChar).map digitValue) (utf8_of_other c value)
          rw [read] at member
          simp at member
        | some digit =>
          rw [utf8_of_digit c digit value, List.singleton_append] at read
          obtain ⟨first, digits, rfl, same, others⟩ := List.map_eq_cons_iff.mp read.symm
          have first_lt := small first (by simp)
          have digit_lt := charValue_lt value
          have equal := congrArg UInt8.toNat (Option.some.inj same)
          simp only [UInt8.toNat_ofNat'] at equal
          obtain rfl : first = digit := by omega
          rw [List.map_cons, List.map_cons, value,
            ih digits others.symm fun digit member => small digit (by simp [member])]
    exact general text.toList digits read small

end Characters

section Reading

/-- Two digits make up the byte that has them as its halves. -/
theorem halves_of_digits {high low h l : UInt8} (first : digitValue high = some h)
    (second : digitValue low = some l) : (h <<< 4 ||| l) >>> 4 = h ∧ (h <<< 4 ||| l) &&& 0x0F = l := by
  have small : ∀ {c value : UInt8}, digitValue c = some value → value < 16 := by
    intro c value read
    obtain ⟨-, -, -, bounded, -⟩ := byte_checked c
    simpa [read] using bounded
  obtain ⟨-, -, joined⟩ := half_table h.toNat (small first)
  have both := joined l.toNat (small second)
  simpa using both

/-- An even number of bytes is read as the bytes that have them as their halves. -/
theorem pairs_eq_ok_iff (index : Nat) (text : List UInt8) (even : text.length % 2 = 0)
    (bytes : List UInt8) : decode.pairs index text = .ok bytes ↔
      text.map digitValue = bytes.flatMap fun byte : UInt8 => [some (byte >>> 4), some (byte &&& 0x0F)] := by
  induction index, text using decode.pairs.induct generalizing bytes with
  | case1 index high low rest ih =>
    have even : rest.length % 2 = 0 := by
      simp only [List.length_cons] at even
      omega
    rw [decode.pairs]
    constructor
    · intro read
      -- Both digits are read, and then the rest.
      cases first : digitValue high with
      | none => simp [val, first, bind, Except.bind] at read
      | some h =>
        cases second : digitValue low with
        | none => simp [val, first, second, bind, Except.bind] at read
        | some l =>
          cases others : decode.pairs (index + 2) rest with
          | error error => simp [val, first, second, others, bind, Except.bind] at read
          | ok tail =>
            simp only [val, first, second, others, bind, Except.bind, pure, Except.pure] at read
            obtain rfl := Except.ok.inj read
            obtain ⟨upper, lower⟩ := halves_of_digits first second
            rw [List.map_cons, List.map_cons, List.flatMap_cons, upper, lower, first, second,
              (ih even tail).mp others]
            rfl
    · intro read
      cases bytes with
      | nil => cases read
      | cons byte tail =>
        simp only [List.map_cons, List.flatMap_cons, List.cons_append, List.nil_append,
          List.cons.injEq] at read
        obtain ⟨first, second, others⟩ := read
        simp only [val, first, second, (ih even tail).mpr others, bind, Except.bind, pure,
          Except.pure]
        exact congrArg (fun byte => Except.ok (byte :: tail)) (halves byte)
  | case2 text index short =>
    cases text with
    | nil =>
      rw [decode.pairs]
      · cases bytes <;> simp
      · simp
    | cons high tail =>
      cases tail with
      | nil => cases even
      | cons low rest => exact absurd rfl (short high low rest)

/-- What a text is read as, if it is read: the bytes whose halves are its digits. -/
theorem decode_eq_ok_iff {text : String} {bytes : List UInt8} :
    decode text = .ok bytes ↔ Spells text (bytes.flatMap nibbles) := by
  -- The halves of a byte are small, so they are the values of their digits.
  have halves : ((bytes.flatMap nibbles).map fun n => some (UInt8.ofNat n)) =
      bytes.flatMap fun byte : UInt8 => [some (byte >>> 4), some (byte &&& 0x0F)] := by
    rw [List.map_flatMap]
    refine List.flatMap_congr fun byte _ => ?_
    rw [(nibbles_eq byte).1, List.map_cons, List.map_singleton, UInt8.ofNat_toNat,
      UInt8.ofNat_toNat]
  have small : ∀ digit ∈ bytes.flatMap nibbles, digit < 16 := by
    intro digit member
    obtain ⟨byte, _, member⟩ := List.mem_flatMap.mp member
    have bound := byte.toNat_lt
    simp only [nibbles, List.mem_cons, List.not_mem_nil, or_false] at member
    omega
  rw [spells_iff, halves, decode]
  constructor
  · intro read
    split at read
    · cases read
    · rename_i even
      exact ⟨(pairs_eq_ok_iff 0 _ (by omega) bytes).mp read, small⟩
  · rintro ⟨read, -⟩
    have length := congrArg List.length read
    rw [← halves, List.length_map, List.length_map, length_nibbles] at length
    rw [if_neg (by omega)]
    exact (pairs_eq_ok_iff 0 _ (by omega) bytes).mpr read

end Reading

end Hex
