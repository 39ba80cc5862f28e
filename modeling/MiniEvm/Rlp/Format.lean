import Mathlib.Data.Nat.Digits.Lemmas
import MiniEvm.Bytes.BigEndian

/-! Recursive length prefix encoding: strings and lists, and how a decoder splits them. -/

namespace RlpFormat

open BigEndian

/-- A number in as few bytes as it needs. -/
def digits (number : Nat) : List UInt8 := ((Nat.digits 256 number).map UInt8.ofNat).reverse

/-- The encoding of a string. -/
def encodeString (bytes : List UInt8) : List UInt8 :=
  -- A single small byte stands for itself.
  if bytes.length = 1 ∧ bytes.all (· < 0x80) then bytes
  else if bytes.length ≤ 55 then UInt8.ofNat (0x80 + bytes.length) :: bytes
  else UInt8.ofNat (0xb7 + (digits bytes.length).length) :: (digits bytes.length ++ bytes)

/-- The encoding of a number, as a string without a zero in front. -/
def encodeNumber (number : Nat) : List UInt8 := encodeString (digits number)

/-- The encoding of a list whose items are encoded already. -/
def encodeList (items : List (List UInt8)) : List UInt8 :=
  if items.flatten.length ≤ 55 then UInt8.ofNat (0xc0 + items.flatten.length) :: items.flatten
  else UInt8.ofNat (0xf7 + (digits items.flatten.length).length) ::
    (digits items.flatten.length ++ items.flatten)

/-- What the first bytes say about an item. -/
structure Header where
  isList : Bool
  -- How many bytes come before the payload.
  offset : Nat
  length : Nat
  deriving DecidableEq

/-- The length of a long payload, which must need all of its bytes and exceed the short form. -/
def longLength (size : Nat) (rest : List UInt8) : Option Nat :=
  if (rest.take size).length < size ∨ (rest.take size).head? = some 0 ∨
    value (rest.take size) ≤ 55 then none
  else some (value (rest.take size))

/-- Reads the header of the first item. -/
def header : List UInt8 → Option Header
  | [] => none
  | first :: rest =>
    if first.toNat < 0x80 then some ⟨false, 0, 1⟩
    else if first.toNat < 0xb8 then some ⟨false, 1, first.toNat - 0x80⟩
    else if first.toNat < 0xc0 then
      (longLength (first.toNat - 0xb7) rest).map (⟨false, 1 + (first.toNat - 0xb7), ·⟩)
    else if first.toNat < 0xf8 then some ⟨true, 1, first.toNat - 0xc0⟩
    else (longLength (first.toNat - 0xf7) rest).map (⟨true, 1 + (first.toNat - 0xf7), ·⟩)

/-- Whether a single small byte is written as a string of length one. -/
def redundant : List UInt8 → Bool
  | first :: byte :: _ => first = 0x81 && byte < 0x80
  | _ => false

/-- Splits the first item off. -/
def takeItem (bytes : List UInt8) : Option (List UInt8 × List UInt8) :=
  match header bytes with
  | none => none
  | some found =>
    if found.offset + found.length ≤ bytes.length ∧ redundant bytes = false then
      some (bytes.take (found.offset + found.length), bytes.drop (found.offset + found.length))
    else none

/-- Splits a payload into items, down to its last byte. -/
def splitItems : Nat → List UInt8 → Option (List (List UInt8))
  | _, [] => some []
  | 0, _ :: _ => none
  | fuel + 1, byte :: rest =>
    match takeItem (byte :: rest) with
    | none => none
    | some (item, more) => (splitItems fuel more).map (item :: ·)

/-- Splits an encoded list into its items; nothing may come behind it. -/
def splitList (bytes : List UInt8) : Option (List (List UInt8)) :=
  match header bytes with
  | none => none
  | some found =>
    if found.isList = true ∧ found.offset + found.length = bytes.length then
      -- Every item takes a byte at least, so the length bounds their number.
      splitItems found.length (bytes.drop found.offset)
    else none

/-- One item and nothing else. -/
def IsItem (bytes : List UInt8) : Prop := takeItem bytes = some (bytes, [])

instance (bytes : List UInt8) : Decidable (IsItem bytes) :=
  inferInstanceAs (Decidable (takeItem bytes = some (bytes, [])))

section Digits

/-- Digits from the last to the first write their sum of powers. -/
theorem value_reverse_map (numbers : List Nat) (small : ∀ digit ∈ numbers, digit < 256) :
    value ((numbers.map UInt8.ofNat).reverse) = Nat.ofDigits 256 numbers := by
  induction numbers with
  | nil => rfl
  | cons digit rest ih =>
    have here := small digit List.mem_cons_self
    rw [List.map_cons, List.reverse_cons, value_concat, Nat.ofDigits_cons,
      ih fun other member => small other (List.mem_cons_of_mem _ member), UInt8.toNat_ofNat',
      Nat.mod_eq_of_lt here]
    omega

/-- A number is read back from its digits. -/
theorem value_digits (number : Nat) : value (digits number) = number := by
  rw [digits, value_reverse_map _ fun digit member => Nat.digits_lt_base (by decide) member,
    Nat.ofDigits_digits]

/-- The digits of a number have no zero in front. -/
theorem shortest_digits (number : Nat) : Shortest (digits number) := by
  unfold Shortest digits
  intro zero
  rw [List.head?_reverse, List.getLast?_map, Option.map_eq_some_iff] at zero
  obtain ⟨last, found, zero⟩ := zero
  by_cases none_ : number = 0
  · subst none_
    simp at found
  · have nonempty : Nat.digits 256 number ≠ [] := Nat.digits_ne_nil_iff_ne_zero.mpr none_
    -- The leading digit of a number is not zero, and it fits a byte.
    have lead := Nat.getLast_digit_ne_zero 256 none_
    rw [List.getLast?_eq_some_getLast nonempty] at found
    have small : last < 256 := by
      rw [← Option.some.inj found]
      exact Nat.digits_lt_base (by decide) (List.getLast_mem nonempty)
    have number := congrArg UInt8.toNat zero
    rw [UInt8.toNat_ofNat', Nat.mod_eq_of_lt small] at number
    exact lead ((Option.some.inj found).trans number)

/-- A number with digits to spare needs few of them. -/
theorem length_digits_le {number size : Nat} (small : number < 256 ^ size) :
    (digits number).length ≤ size := by
  rw [digits, List.length_reverse, List.length_map]
  exact Nat.digits_length_le_iff (by decide) number |>.mpr small

/-- Only zero has no digits. -/
theorem digits_ne_nil {number : Nat} (positive : 0 < number) : digits number ≠ [] := by
  intro empty
  have zero := value_digits number
  rw [empty, value_nil] at zero
  omega

end Digits

section Splitting

/-- A length that is read is written in its digits. -/
theorem longLength_eq_some {size length : Nat} {rest : List UInt8}
    (read : longLength size rest = some length) :
    rest.take size = digits length ∧ (digits length).length = size ∧ 55 < length := by
  unfold longLength at read
  split at read
  · cases read
  rename_i passes
  rw [not_or, not_or] at passes
  have number : value (rest.take size) = length := Option.some.inj read
  -- Without a zero in front, the bytes are the shortest ones of the length.
  have same : rest.take size = digits length :=
    Shortest.eq_of_value_eq passes.2.1 (shortest_digits length)
      (number.trans (value_digits length).symm)
  have taken := passes.1
  rw [List.length_take] at taken
  refine ⟨same, ?_, by omega⟩
  rw [← same, List.length_take]
  omega

/-- A length of at most eight bytes fits into 64 bits. -/
theorem lt_of_length_digits {length size : Nat} (few : (digits length).length ≤ size) :
    length < 256 ^ size := by
  have bound := value_lt (digits length)
  rw [value_digits] at bound
  exact Nat.lt_of_lt_of_le bound (Nat.pow_le_pow_right (by decide) few)

/-- A length is read from the bytes it takes, whatever follows. -/
theorem longLength_append {size length : Nat} {rest : List UInt8}
    (read : longLength size rest = some length) (more : List UInt8) :
    longLength size (rest ++ more) = some length := by
  -- All the bytes of the length were there already.
  have enough : size ≤ rest.length := by
    unfold longLength at read
    split at read
    · cases read
    · rename_i passes
      rw [not_or] at passes
      have long := passes.1
      rw [List.length_take] at long
      omega
  unfold longLength at read ⊢
  rwa [List.take_append_of_le_length enough]

/-- The five kinds of item, told apart by the first byte. -/
inductive Reads : List UInt8 → Header → Prop
  | single {first rest} : first.toNat < 0x80 → Reads (first :: rest) ⟨false, 0, 1⟩
  | shortString {first rest} : 0x80 ≤ first.toNat → first.toNat < 0xb8 →
      Reads (first :: rest) ⟨false, 1, first.toNat - 0x80⟩
  | longString {first rest length} : 0xb8 ≤ first.toNat → first.toNat < 0xc0 →
      longLength (first.toNat - 0xb7) rest = some length →
      Reads (first :: rest) ⟨false, 1 + (first.toNat - 0xb7), length⟩
  | shortList {first rest} : 0xc0 ≤ first.toNat → first.toNat < 0xf8 →
      Reads (first :: rest) ⟨true, 1, first.toNat - 0xc0⟩
  | longList {first rest length} : 0xf8 ≤ first.toNat →
      longLength (first.toNat - 0xf7) rest = some length →
      Reads (first :: rest) ⟨true, 1 + (first.toNat - 0xf7), length⟩

/-- The header that is found is the one that is there. -/
theorem header_eq_some_iff {bytes : List UInt8} {found : Header} :
    header bytes = some found ↔ Reads bytes found := by
  constructor
  · intro read
    cases bytes with
    | nil => cases read
    | cons first rest =>
      simp only [header] at read
      -- Each comparison with the first byte rules one kind out.
      split at read
      · cases read
        exact .single ‹_›
      · split at read
        · cases read
          exact .shortString (by omega) ‹_›
        · split at read
          · obtain ⟨length, long, rfl⟩ := Option.map_eq_some_iff.mp read
            exact .longString (by omega) ‹_› long
          · split at read
            · cases read
              exact .shortList (by omega) ‹_›
            · obtain ⟨length, long, rfl⟩ := Option.map_eq_some_iff.mp read
              exact .longList (by omega) long
  · intro reads
    cases reads with
    | single small => rw [header, if_pos small]
    | shortString above below => rw [header, if_neg (by omega), if_pos below]
    | longString above below long =>
      rw [header, if_neg (by omega), if_neg (by omega), if_pos below, long]
      rfl
    | shortList above below =>
      rw [header, if_neg (by omega), if_neg (by omega), if_neg (by omega), if_pos below]
    | longList above long =>
      rw [header, if_neg (by omega), if_neg (by omega), if_neg (by omega), if_neg (by omega), long]
      rfl

/-- A header is read from the bytes it takes, whatever follows. -/
theorem Reads.append {bytes : List UInt8} {found : Header} (reads : Reads bytes found)
    (more : List UInt8) : Reads (bytes ++ more) found := by
  cases reads with
  | single small => exact .single small
  | shortString above below => exact .shortString above below
  | longString above below long => exact .longString above below (longLength_append long more)
  | shortList above below => exact .shortList above below
  | longList above long => exact .longList above (longLength_append long more)

/-- Bytes behind the length do not matter to it. -/
theorem longLength_take {size length limit : Nat} {rest : List UInt8}
    (read : longLength size rest = some length) (within : size ≤ limit) :
    longLength size (rest.take limit) = some length := by
  unfold longLength at read ⊢
  rwa [List.take_take, Nat.min_eq_left within]

/-- A header is read from the item that it begins, without what follows. -/
theorem Reads.take {bytes : List UInt8} {found : Header} (reads : Reads bytes found) :
    Reads (bytes.take (found.offset + found.length)) found := by
  cases reads with
  | single small => exact .single small
  | @shortString first rest above below =>
    simp only [Nat.add_comm 1, List.take_succ_cons]
    exact .shortString above below
  -- The item goes on behind the bytes of its length, so it holds them all.
  | @longString first rest length above below long =>
    rw [Nat.add_assoc, Nat.add_comm 1, List.take_succ_cons]
    exact .longString above below (longLength_take long (Nat.le_add_right _ _))
  | @shortList first rest above below =>
    simp only [Nat.add_comm 1, List.take_succ_cons]
    exact .shortList above below
  | @longList first rest length above long =>
    rw [Nat.add_assoc, Nat.add_comm 1, List.take_succ_cons]
    exact .longList above (longLength_take long (Nat.le_add_right _ _))

/-- The header and a payload that is not empty take some bytes. -/
theorem Reads.positive {bytes : List UInt8} {found : Header} (reads : Reads bytes found) :
    0 < found.offset + found.length := by
  cases reads <;> simp only <;> omega

/-- What follows an item does not make it redundant. -/
theorem redundant_append {item : List UInt8} {found : Header} (plain : redundant item = false)
    (reads : Reads item found) (whole : found.offset + found.length = item.length)
    (more : List UInt8) : redundant (item ++ more) = false := by
  cases item with
  | nil => cases reads
  | cons first rest =>
    cases rest with
    | cons byte rest => exact plain
    | nil =>
      -- The prefix of a string of length one is not a whole item.
      have other : first ≠ 0x81 := by
        rintro rfl
        have read := header_eq_some_iff.mpr reads
        have same : found = ⟨false, 1, 1⟩ := (Option.some.inj read).symm
        subst same
        simp at whole
      cases more with
      | nil => rfl
      | cons byte more => simp [redundant, other]

/-- One item reads as itself in front of anything. -/
theorem takeItem_append {item : List UInt8} (isItem : IsItem item) (more : List UInt8) :
    takeItem (item ++ more) = some (item, more) := by
  unfold IsItem takeItem at isItem
  unfold takeItem
  cases read : header item with
  | none => simp [read] at isItem
  | some found =>
    simp only [read] at isItem
    split at isItem
    · rename_i passes
      obtain ⟨whole, none_⟩ := Prod.mk.inj (Option.some.inj isItem)
      -- The item ends where its header says.
      have length : found.offset + found.length = item.length := by
        have taken := congrArg List.length whole
        rw [List.length_take] at taken
        omega
      -- The same header is read in front of more, and what follows does not make it redundant.
      have reads := header_eq_some_iff.mp read
      have kept : redundant (item ++ more) = false :=
        redundant_append passes.2 reads length more
      rw [header_eq_some_iff.mpr (reads.append more)]
      simp only [length, List.length_append, kept, and_true, Nat.le_add_right, if_true,
        List.take_left, List.drop_left]
    · cases isItem

/-- An item is not empty. -/
theorem IsItem.ne_nil {item : List UInt8} (isItem : IsItem item) : item ≠ [] := by
  rintro rfl
  cases isItem

/-- A payload of items splits into them. -/
theorem splitItems_flatten {items : List (List UInt8)} (all : ∀ item ∈ items, IsItem item)
    {fuel : Nat} (enough : items.flatten.length ≤ fuel) :
    splitItems fuel items.flatten = some items := by
  induction items generalizing fuel with
  | nil => cases fuel <;> rfl
  | cons item rest ih =>
    have isItem := all item List.mem_cons_self
    have later := fun other member => all other (List.mem_cons_of_mem _ member)
    rw [List.flatten_cons] at enough ⊢
    rw [List.length_append] at enough
    cases item with
    -- An item takes at least one byte, and so does a step of the splitting.
    | nil => exact absurd rfl isItem.ne_nil
    | cons first bytes =>
      cases fuel with
      | zero => simp at enough
      | succ fuel =>
        have taken := takeItem_append isItem rest.flatten
        rw [List.cons_append] at taken ⊢
        have fits : rest.flatten.length ≤ fuel := by
          rw [List.length_cons] at enough
          omega
        simp only [splitItems, taken, ih later fits, Option.map_some]

/-- What is split off and what is left are the whole. -/
theorem takeItem_eq_some {bytes item more : List UInt8}
    (taken : takeItem bytes = some (item, more)) : bytes = item ++ more := by
  unfold takeItem at taken
  split at taken
  · cases taken
  · split at taken
    · obtain ⟨rfl, rfl⟩ := Prod.mk.inj (Option.some.inj taken)
      exact (List.take_append_drop _ _).symm
    · cases taken

/-- An item that ends where its header says is one item. -/
theorem isItem_of_reads {bytes : List UInt8} {found : Header} (reads : Reads bytes found)
    (whole : bytes.length = found.offset + found.length) (plain : redundant bytes = false) :
    IsItem bytes := by
  unfold IsItem takeItem
  rw [header_eq_some_iff.mpr reads]
  simp only [← whole, plain, Nat.le_refl, and_self, if_true, List.take_length, List.drop_length]

/-- A prefix is not redundant if the whole is not. -/
theorem redundant_take {bytes : List UInt8} (plain : redundant bytes = false) (limit : Nat) :
    redundant (bytes.take limit) = false := by
  cases limit with
  | zero => rfl
  | succ limit =>
    cases limit with
    | zero => cases bytes <;> rfl
    | succ limit =>
      cases bytes with
      | nil => rfl
      | cons first rest =>
        cases rest with
        | nil => rfl
        | cons byte rest => exact plain

/-- What is split off is one item. -/
theorem isItem_of_takeItem {bytes item more : List UInt8}
    (taken : takeItem bytes = some (item, more)) : IsItem item := by
  unfold takeItem at taken
  cases read : header bytes with
  | none => simp [read] at taken
  | some found =>
    simp only [read] at taken
    split at taken
    · rename_i passes
      -- What was cut off is as long as its header says.
      obtain ⟨rfl, rfl⟩ := Prod.mk.inj (Option.some.inj taken)
      have length := List.length_take_of_le passes.1
      exact isItem_of_reads (header_eq_some_iff.mp read).take length (redundant_take passes.2 _)
    · cases taken

/-- What is split into items is all items. -/
theorem isItem_of_splitItems {fuel : Nat} {bytes : List UInt8} {items : List (List UInt8)}
    (split : splitItems fuel bytes = some items) : ∀ item ∈ items, IsItem item := by
  induction fuel generalizing bytes items with
  | zero =>
    cases bytes with
    | nil =>
      cases split
      exact fun item member => nomatch member
    | cons byte rest => cases split
  | succ fuel ih =>
    cases bytes with
    | nil =>
      cases split
      exact fun item member => nomatch member
    | cons byte rest =>
      simp only [splitItems] at split
      cases taken : takeItem (byte :: rest) with
      | none => simp [taken] at split
      | some pair =>
        obtain ⟨first, more⟩ := pair
        simp only [taken] at split
        obtain ⟨later, rest', rfl⟩ := Option.map_eq_some_iff.mp split
        intro item member
        rcases List.mem_cons.mp member with rfl | member
        · exact isItem_of_takeItem taken
        · exact ih rest' item member

/-- The items are the payload. -/
theorem flatten_of_splitItems {fuel : Nat} {bytes : List UInt8} {items : List (List UInt8)}
    (split : splitItems fuel bytes = some items) : items.flatten = bytes := by
  induction fuel generalizing bytes items with
  | zero =>
    cases bytes with
    | nil =>
      cases split
      rfl
    | cons byte rest => cases split
  | succ fuel ih =>
    cases bytes with
    | nil =>
      cases split
      rfl
    | cons byte rest =>
      simp only [splitItems] at split
      cases taken : takeItem (byte :: rest) with
      | none => simp [taken] at split
      | some pair =>
        obtain ⟨item, more⟩ := pair
        simp only [taken] at split
        obtain ⟨later, rest', rfl⟩ := Option.map_eq_some_iff.mp split
        rw [List.flatten_cons, ih rest', ← takeItem_eq_some taken]

end Splitting

section Encoding

/-- A length of more than one byte's worth reads back from its digits. -/
theorem longLength_digits {length : Nat} (long : 55 < length) (rest : List UInt8) :
    longLength (digits length).length (digits length ++ rest) = some length := by
  unfold longLength
  rw [List.take_left, value_digits, if_neg]
  have lead : (digits length).head? ≠ some 0 := shortest_digits length
  simp only [Nat.lt_irrefl, lead, false_or, Nat.not_le]
  exact long

/-- The first byte of a long header says how many bytes the length takes, and these say it. -/
theorem longHeader_reads {base length : Nat} (low : base ≤ 0xf7) (long : 55 < length)
    (small : length < 2 ^ 64) :
    0 < (digits length).length ∧ (digits length).length ≤ 8 ∧
      (UInt8.ofNat (base + (digits length).length)).toNat = base + (digits length).length ∧
      ∀ rest, longLength ((UInt8.ofNat (base + (digits length).length)).toNat - base)
        (digits length ++ rest) = some length := by
  have positive := List.length_pos_of_ne_nil (digits_ne_nil (by omega : 0 < length))
  have few : (digits length).length ≤ 8 := length_digits_le small
  -- Eight is the most that can be added to the larger base in one byte.
  have first : (UInt8.ofNat (base + (digits length).length)).toNat =
      base + (digits length).length := by
    rw [UInt8.toNat_ofNat']
    omega
  refine ⟨positive, few, first, fun rest => ?_⟩
  rw [first, Nat.add_sub_cancel_left]
  exact longLength_digits long rest

/-- An encoding is no shorter than what it encodes. -/
theorem length_le_encodeString (bytes : List UInt8) :
    bytes.length ≤ (encodeString bytes).length := by
  unfold encodeString
  split
  · exact Nat.le_refl _
  · split
    · simp
    · simp only [List.length_cons, List.length_append]
      omega

/-- A list is no shorter than its items. -/
theorem length_le_encodeList (items : List (List UInt8)) :
    items.flatten.length ≤ (encodeList items).length := by
  unfold encodeList
  split
  · simp
  · simp only [List.length_cons, List.length_append]
    omega

/-- The header of an encoded list, and where its payload begins. -/
theorem reads_encodeList {items : List (List UInt8)} (small : items.flatten.length < 2 ^ 64) :
    ∃ found, Reads (encodeList items) found ∧ found.isList = true ∧
      found.length = items.flatten.length ∧
      (encodeList items).length = found.offset + found.length ∧
      (encodeList items).drop found.offset = items.flatten := by
  unfold encodeList
  split
  · rename_i short
    have first : (UInt8.ofNat (0xc0 + items.flatten.length)).toNat = 0xc0 + items.flatten.length := by
      rw [UInt8.toNat_ofNat']
      omega
    refine ⟨_, .shortList (by omega) (by omega), rfl, ?_, ?_, rfl⟩
    · simp only [first]
      omega
    · simp only [first, List.length_cons]
      omega
  · rename_i long
    obtain ⟨positive, few, first, read⟩ :=
      longHeader_reads (by decide : 0xf7 ≤ 0xf7) (Nat.not_le.mp long) small
    have size : (UInt8.ofNat (0xf7 + (digits items.flatten.length).length)).toNat - 0xf7 =
        (digits items.flatten.length).length := by omega
    refine ⟨_, .longList (by omega) (read _), rfl, rfl, ?_, ?_⟩
    · simp only [size, List.length_cons, List.length_append]
      omega
    · simp only [size, Nat.add_comm 1, List.drop_succ_cons, List.drop_left]

/-- The header of an encoded string, and where its payload begins. -/
theorem reads_encodeString {bytes : List UInt8} (small : bytes.length < 2 ^ 64) :
    ∃ found, Reads (encodeString bytes) found ∧ found.isList = false ∧
      found.length = bytes.length ∧
      (encodeString bytes).length = found.offset + found.length ∧
      (encodeString bytes).drop found.offset = bytes := by
  unfold encodeString
  split
  · rename_i single
    obtain ⟨byte, rfl⟩ := List.length_eq_one_iff.mp single.1
    have below : byte.toNat < 0x80 := by simpa [UInt8.lt_iff_toNat_lt] using single.2
    exact ⟨_, .single below, rfl, rfl, rfl, rfl⟩
  · split
    · rename_i short
      have first : (UInt8.ofNat (0x80 + bytes.length)).toNat = 0x80 + bytes.length := by
        rw [UInt8.toNat_ofNat']
        omega
      refine ⟨_, .shortString (by omega) (by omega), rfl, ?_, ?_, rfl⟩
      · simp only [first]
        omega
      · simp only [first, List.length_cons]
        omega
    · rename_i long
      obtain ⟨positive, few, first, read⟩ :=
        longHeader_reads (by decide : 0xb7 ≤ 0xf7) (Nat.not_le.mp long) small
      have size : (UInt8.ofNat (0xb7 + (digits bytes.length).length)).toNat - 0xb7 =
          (digits bytes.length).length := by omega
      refine ⟨_, .longString (by omega) (by omega) (read _), rfl, rfl, ?_, ?_⟩
      · simp only [size, List.length_cons, List.length_append]
        omega
      · simp only [size, Nat.add_comm 1, List.drop_succ_cons, List.drop_left]

/-- Only a single byte can have a redundant header. -/
theorem redundant_of_ne {first : UInt8} (rest : List UInt8) (other : first.toNat ≠ 0x81) :
    redundant (first :: rest) = false := by
  have different : first ≠ 0x81 := fun same => other (congrArg UInt8.toNat same)
  cases rest with
  | nil => rfl
  | cons byte rest => simp [redundant, different]

/-- The encoding of a list is an item. -/
theorem isItem_encodeList {items : List (List UInt8)} (small : items.flatten.length < 2 ^ 64) :
    IsItem (encodeList items) := by
  obtain ⟨found, reads, isList, _, whole, _⟩ := reads_encodeList small
  generalize encodeList items = bytes at reads whole
  apply isItem_of_reads reads whole
  -- A list begins with a byte of its own kind.
  cases reads with
  | single _ => cases isList
  | shortString _ _ => cases isList
  | longString _ _ _ => cases isList
  | shortList above _ => exact redundant_of_ne _ (by omega)
  | longList above _ => exact redundant_of_ne _ (by omega)

/-- The encoding of a string is an item. -/
theorem isItem_encodeString {bytes : List UInt8} (small : bytes.length < 2 ^ 64) :
    IsItem (encodeString bytes) := by
  obtain ⟨found, reads, _, _, whole, _⟩ := reads_encodeString small
  apply isItem_of_reads reads whole
  unfold encodeString
  split
  · rename_i single
    obtain ⟨byte, rfl⟩ := List.length_eq_one_iff.mp single.1
    rfl
  · rename_i large
    split
    · rename_i short
      have first : (UInt8.ofNat (0x80 + bytes.length)).toNat = 0x80 + bytes.length := by
        rw [UInt8.toNat_ofNat']
        omega
      by_cases one : bytes.length = 1
      · -- A single byte that gets a prefix is not small.
        obtain ⟨byte, rfl⟩ := List.length_eq_one_iff.mp one
        simpa [redundant] using large
      · exact redundant_of_ne _ (by omega)
    · have few : (digits bytes.length).length ≤ 8 := length_digits_le small
      apply redundant_of_ne
      rw [UInt8.toNat_ofNat']
      omega

/-- A number of at most 256 bits encodes as an item. -/
theorem isItem_encodeNumber {number : Nat} (small : number < 2 ^ 256) :
    IsItem (encodeNumber number) := by
  have few : (digits number).length ≤ 32 := length_digits_le small
  exact isItem_encodeString (Nat.lt_of_le_of_lt few (by decide))

/-- An encoded list splits into its items. -/
theorem splitList_encodeList {items : List (List UInt8)} (small : items.flatten.length < 2 ^ 64)
    (all : ∀ item ∈ items, IsItem item) : splitList (encodeList items) = some items := by
  obtain ⟨found, reads, isList, length, whole, payload⟩ := reads_encodeList small
  unfold splitList
  rw [header_eq_some_iff.mpr reads]
  simp only [isList, whole, payload, length, and_self, if_true]
  exact splitItems_flatten all (Nat.le_refl _)

/-- What splits into items is their encoded list. -/
theorem encodeList_of_splitList {bytes : List UInt8} {items : List (List UInt8)}
    (split : splitList bytes = some items) :
    bytes = encodeList items ∧ (∀ item ∈ items, IsItem item) ∧ items.flatten.length < 2 ^ 64 := by
  unfold splitList at split
  cases read : header bytes with
  | none => simp [read] at split
  | some found =>
    simp only [read] at split
    split at split
    · rename_i passes
      obtain ⟨isList, length⟩ := passes
      have payload := flatten_of_splitItems split
      have items_ := isItem_of_splitItems split
      have reads := header_eq_some_iff.mp read
      cases reads with
      | single _ => cases isList
      | shortString _ _ => cases isList
      | longString _ _ _ => cases isList
      | @shortList first rest above below =>
        simp only [List.drop_succ_cons, List.drop_zero, List.length_cons] at payload length
        have short : items.flatten.length = first.toNat - 0xc0 := by
          rw [payload]
          omega
        have prefixed : UInt8.ofNat (0xc0 + items.flatten.length) = first := by
          apply UInt8.toNat_inj.mp
          rw [UInt8.toNat_ofNat']
          omega
        refine ⟨?_, items_, by omega⟩
        rw [encodeList, if_pos (by omega), prefixed, payload]
      | @longList first rest size above long =>
        have small := first.toNat_lt
        obtain ⟨written, few, above_⟩ := longLength_eq_some long
        simp only [Nat.add_comm 1, List.drop_succ_cons, List.length_cons] at payload length
        have long_ : items.flatten.length = size := by
          rw [payload, List.length_drop]
          omega
        have prefixed : UInt8.ofNat (0xf7 + (digits items.flatten.length).length) = first := by
          apply UInt8.toNat_inj.mp
          rw [UInt8.toNat_ofNat', long_]
          omega
        refine ⟨?_, items_, ?_⟩
        · rw [encodeList, if_neg (by omega), prefixed, long_, ← written, payload,
            List.take_append_drop]
        · rw [long_]
          exact lt_of_length_digits (by omega : _ ≤ 8)
    · cases split

/-- However an encoded list splits, the parts are its payload. -/
theorem flatten_of_splitList {items parts : List (List UInt8)}
    (small : items.flatten.length < 2 ^ 64) (split : splitList (encodeList items) = some parts) :
    parts.flatten = items.flatten := by
  obtain ⟨found, reads, isList, _, whole, payload⟩ := reads_encodeList small
  unfold splitList at split
  rw [header_eq_some_iff.mpr reads] at split
  simp only [isList, whole, payload, and_self, if_true] at split
  exact flatten_of_splitItems split

/-- Different payloads have different encodings. -/
theorem flatten_eq_of_encodeList {items items' : List (List UInt8)}
    (small : items.flatten.length < 2 ^ 64) (small' : items'.flatten.length < 2 ^ 64)
    (same : encodeList items = encodeList items') : items.flatten = items'.flatten := by
  obtain ⟨found, reads, _, _, _, payload⟩ := reads_encodeList small
  obtain ⟨found', reads', _, _, _, payload'⟩ := reads_encodeList small'
  rw [same] at reads payload
  have headers := (header_eq_some_iff.mpr reads).symm.trans (header_eq_some_iff.mpr reads')
  obtain rfl := Option.some.inj headers
  exact payload.symm.trans payload'

/-- Different strings have different encodings. -/
theorem encodeString_inj {left right : List UInt8} (small : left.length < 2 ^ 64)
    (small' : right.length < 2 ^ 64) (same : encodeString left = encodeString right) :
    left = right := by
  obtain ⟨found, reads, _, _, _, payload⟩ := reads_encodeString small
  obtain ⟨found', reads', _, _, _, payload'⟩ := reads_encodeString small'
  rw [same] at reads payload
  have headers := (header_eq_some_iff.mpr reads).symm.trans (header_eq_some_iff.mpr reads')
  obtain rfl := Option.some.inj headers
  exact payload.symm.trans payload'

end Encoding

end RlpFormat
