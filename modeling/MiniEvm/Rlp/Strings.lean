import MiniEvm.Rlp.Format

/-! Lists of strings: a decoder that reads them whole, and every other way to write them. -/

namespace RlpFormat

open BigEndian

section Decoding

/-- The payload of one item, which must be a string and nothing else. -/
def decodeString (item : List UInt8) : Option (List UInt8) :=
  match header item with
  | none => none
  | some found =>
    if found.isList = false ∧ found.offset + found.length = item.length ∧ redundant item = false then
      some (item.drop found.offset)
    else none

/-- Reads a list of strings from the front of some bytes, and yields what is left of them. -/
def readStrings (bytes : List UInt8) : Option (List (List UInt8) × List UInt8) := do
  let (item, rest) ← takeItem bytes
  let items ← splitList item
  let strings ← items.mapM decodeString
  return (strings, rest)

theorem decodeString_encodeString {bytes : List UInt8} (small : bytes.length < 2 ^ 64) :
    decodeString (encodeString bytes) = some bytes := by
  obtain ⟨found, reads, isString, _, whole, payload⟩ := reads_encodeString small
  -- An item that was split off alone is not redundant.
  have plain : redundant (encodeString bytes) = false := by
    have isItem := isItem_encodeString small
    unfold IsItem takeItem at isItem
    rw [header_eq_some_iff.mpr reads] at isItem
    simp only at isItem
    split at isItem
    · rename_i passes
      exact passes.2
    · cases isItem
  unfold decodeString
  rw [header_eq_some_iff.mpr reads]
  simp only [isString, whole, plain, payload, and_self, if_true]

/-- A string that decodes was encoded in the only way that is accepted. -/
theorem encodeString_of_decodeString {item bytes : List UInt8}
    (decoded : decodeString item = some bytes) : item = encodeString bytes := by
  unfold decodeString at decoded
  cases read : header item with
  | none => simp [read] at decoded
  | some found =>
    simp only [read] at decoded
    split at decoded
    · rename_i passes
      obtain ⟨isString, whole, plain⟩ := passes
      obtain rfl := Option.some.inj decoded
      cases header_eq_some_iff.mp read with
      | @single first rest small =>
        -- The one byte is its own payload.
        obtain rfl : rest = [] := by simpa using whole
        have below : first < 0x80 := UInt8.lt_iff_toNat_lt.mpr small
        simp [encodeString, below]
      | @shortString first rest above below =>
        simp only [List.length_cons, List.drop_succ_cons, List.drop_zero] at whole ⊢
        have prefixed : UInt8.ofNat (0x80 + rest.length) = first := by
          apply UInt8.toNat_inj.mp
          rw [UInt8.toNat_ofNat']
          omega
        have large : ¬ (rest.length = 1 ∧ rest.all (· < 0x80)) := by
          rintro ⟨one, small⟩
          obtain ⟨byte, rfl⟩ := List.length_eq_one_iff.mp one
          have isPrefix : first = 0x81 := by
            apply UInt8.toNat_inj.mp
            simp only [List.length_singleton] at whole
            show first.toNat = 0x81
            omega
          have below : byte < 0x80 := by simpa using small
          have above : 0x80 ≤ byte := by simpa [redundant, isPrefix] using plain
          exact absurd below (UInt8.not_lt.mpr above)
        rw [encodeString, if_neg large, if_pos (by omega), prefixed]
      | @longString first rest length above below long =>
        obtain ⟨written, few, many⟩ := longLength_eq_some long
        simp only [List.length_cons, Nat.add_comm 1, List.drop_succ_cons] at whole ⊢
        have size : (rest.drop (first.toNat - 0xb7)).length = length := by
          rw [List.length_drop]
          omega
        have prefixed : UInt8.ofNat (0xb7 + (digits length).length) = first := by
          apply UInt8.toNat_inj.mp
          rw [UInt8.toNat_ofNat']
          omega
        rw [encodeString, if_neg (by omega), if_neg (by omega), size, prefixed, ← written,
          List.take_append_drop]
      | shortList _ _ => cases isString
      | longList _ _ => cases isString
    · cases decoded

theorem mapM_decodeString {strings : List (List UInt8)}
    (small : ∀ bytes ∈ strings, bytes.length < 2 ^ 64) :
    (strings.map encodeString).mapM decodeString = some strings := by
  induction strings with
  | nil => rfl
  | cons bytes rest ih =>
    rw [List.map_cons, List.mapM_cons, decodeString_encodeString (small bytes List.mem_cons_self),
      ih fun other member => small other (List.mem_cons_of_mem _ member)]
    rfl

theorem map_encodeString_of_mapM {items strings : List (List UInt8)}
    (decoded : items.mapM decodeString = some strings) : items = strings.map encodeString := by
  induction items generalizing strings with
  | nil =>
    cases decoded
    rfl
  | cons item rest ih =>
    rw [List.mapM_cons] at decoded
    obtain ⟨bytes, here, decoded⟩ := Option.bind_eq_some_iff.mp decoded
    obtain ⟨others, there, decoded⟩ := Option.bind_eq_some_iff.mp decoded
    cases decoded
    rw [List.map_cons, ← encodeString_of_decodeString here, ← ih there]

/-- Every string is no longer than the list it is in. -/
theorem length_le_flatten {strings : List (List UInt8)} {bytes : List UInt8}
    (member : bytes ∈ strings) :
    bytes.length ≤ (strings.map encodeString).flatten.length := by
  have inside : encodeString bytes ∈ strings.map encodeString := List.mem_map_of_mem member
  have part := (List.sublist_flatten_of_mem inside).length_le
  exact (length_le_encodeString bytes).trans part

/-- An encoded list of strings reads back, down to its last byte. -/
theorem readStrings_encodeList {strings : List (List UInt8)}
    (small : (strings.map encodeString).flatten.length < 2 ^ 64) :
    readStrings (encodeList (strings.map encodeString)) = some (strings, []) := by
  have each : ∀ bytes ∈ strings, bytes.length < 2 ^ 64 := fun bytes member =>
    Nat.lt_of_le_of_lt (length_le_flatten member) small
  have items : ∀ item ∈ strings.map encodeString, IsItem item := by
    intro item member
    obtain ⟨bytes, there, rfl⟩ := List.mem_map.mp member
    exact isItem_encodeString (each bytes there)
  have taken : takeItem (encodeList (strings.map encodeString)) = some (_, []) :=
    isItem_encodeList small
  unfold readStrings
  simp only [taken, Option.bind_eq_bind, Option.bind_some, splitList_encodeList small items,
    mapM_decodeString each]
  rfl

/-- What reads as a list of strings, with nothing left, is their encoded list. -/
theorem encodeList_of_readStrings {bytes : List UInt8} {strings : List (List UInt8)}
    (read : readStrings bytes = some (strings, [])) :
    bytes = encodeList (strings.map encodeString) := by
  unfold readStrings at read
  obtain ⟨⟨item, rest⟩, taken, read⟩ := Option.bind_eq_some_iff.mp read
  obtain ⟨items, split, read⟩ := Option.bind_eq_some_iff.mp read
  obtain ⟨decoded, each, read⟩ := Option.bind_eq_some_iff.mp read
  cases read
  rw [takeItem_eq_some taken, List.append_nil, ← map_encodeString_of_mapM each]
  exact (encodeList_of_splitList split).1

end Decoding

section Forms

/-- Every way to write a string, with redundant prefixes and zeros in front of lengths too. -/
inductive StringForm (bytes : List UInt8) : List UInt8 → Prop
  | single : bytes.length = 1 → bytes.all (· < 0x80) → StringForm bytes bytes
  | short : bytes.length ≤ 55 → StringForm bytes (UInt8.ofNat (0x80 + bytes.length) :: bytes)
  | long {size} : value size = bytes.length → 1 ≤ size.length → size.length ≤ 8 →
      StringForm bytes (UInt8.ofNat (0xb7 + size.length) :: (size ++ bytes))

/-- Every way to put a payload into a list. -/
inductive ListForm (payload : List UInt8) : List UInt8 → Prop
  | short : payload.length ≤ 55 → ListForm payload (UInt8.ofNat (0xc0 + payload.length) :: payload)
  | long {size} : value size = payload.length → 1 ≤ size.length → size.length ≤ 8 →
      ListForm payload (UInt8.ofNat (0xf7 + size.length) :: (size ++ payload))

/-- Some bytes write a list of strings, each of which may be in any form. -/
def StringsForm (strings : List (List UInt8)) (bytes : List UInt8) : Prop :=
  ∃ items, List.Forall₂ StringForm strings items ∧ ListForm items.flatten bytes

variable {bytes form : List UInt8}

/-- A long length takes the bytes of its digits at least, as the digits have no zero in front. -/
theorem length_digits_le_of_value {size : List UInt8} {number : Nat} (le : number ≤ value size) :
    (digits number).length ≤ size.length :=
  length_digits_le (Nat.lt_of_le_of_lt le (value_lt size))

/-- The encoding of a string is one of its forms. -/
theorem stringForm_encodeString (small : bytes.length < 2 ^ 64) :
    StringForm bytes (encodeString bytes) := by
  unfold encodeString
  split
  · rename_i single
    exact .single single.1 single.2
  · split
    · exact .short ‹_›
    · rename_i long
      have some_ := List.length_pos_iff.mpr (digits_ne_nil (by omega : 0 < bytes.length))
      exact .long (value_digits _) some_ (length_digits_le small)

/-- And a shortest one. -/
theorem length_encodeString_le (written : StringForm bytes form) :
    (encodeString bytes).length ≤ form.length := by
  unfold encodeString
  split
  · cases written with
    | single _ _ => exact Nat.le_refl _
    | short _ => simp
    | long _ _ _ => simp only [List.length_cons, List.length_append]; omega
  · rename_i large
    split
    · -- One byte in front is what every form but the bare one has at least.
      cases written with
      | single one small => exact absurd ⟨one, small⟩ large
      | short _ => simp
      | long _ _ _ => simp only [List.length_cons, List.length_append]; omega
    · rename_i long
      cases written with
      | single one small => exact absurd ⟨one, small⟩ large
      | short few => exact absurd few long
      | long names _ _ =>
        have few := length_digits_le_of_value (Nat.le_of_eq names.symm)
        simp only [List.length_cons, List.length_append]
        omega

theorem length_flatten_le {strings items : List (List UInt8)}
    (written : List.Forall₂ StringForm strings items) :
    (strings.map encodeString).flatten.length ≤ items.flatten.length := by
  induction written with
  | nil => exact Nat.le_refl _
  | cons here _ ih =>
    have first := length_encodeString_le here
    simp only [List.map_cons, List.flatten_cons, List.length_append]
    omega

/-- A list of strings is written in no fewer bytes than in its encoding. -/
theorem length_encodeList_le {strings : List (List UInt8)} (written : StringsForm strings form) :
    (encodeList (strings.map encodeString)).length ≤ form.length := by
  obtain ⟨items, each, whole⟩ := written
  have payload := length_flatten_le each
  unfold encodeList
  split
  · cases whole with
    | short _ => simp only [List.length_cons]; omega
    | long _ _ _ => simp only [List.length_cons, List.length_append]; omega
  · -- A payload that is longer still has no short form either.
    rename_i long
    cases whole with
    | short few => omega
    | long names _ _ =>
      have few := length_digits_le_of_value (payload.trans (Nat.le_of_eq names.symm))
      simp only [List.length_cons, List.length_append]
      omega

theorem stringsForm_encodeList {strings : List (List UInt8)}
    (small : (strings.map encodeString).flatten.length < 2 ^ 64) :
    StringsForm strings (encodeList (strings.map encodeString)) := by
  refine ⟨strings.map encodeString, ?_, ?_⟩
  · rw [List.forall₂_map_right_iff, List.forall₂_same]
    intro bytes member
    exact stringForm_encodeString (Nat.lt_of_le_of_lt (length_le_flatten member) small)
  · unfold encodeList
    split
    · exact .short ‹_›
    · rename_i long
      have some_ := List.length_pos_iff.mpr
        (digits_ne_nil (by omega : 0 < (strings.map encodeString).flatten.length))
      exact .long (value_digits _) some_ (length_digits_le small)

end Forms

end RlpFormat
