import MiniEvm.Bytes.HexDigits
import MiniEvm.Proofs.Data.Word
import MiniEvm.Rpc.Notifications

/-! A filter of texts chooses logs by the addresses and words that the texts name. -/

namespace MiniEvm

open Hex

/-- A text names a number of some width: a prefix and all of its digits, in either case. -/
def Names (width : Nat) (text : String) (number : Nat) : Prop :=
  ∃ rest digits, (text = "0x" ++ rest ∨ text = "0X" ++ rest) ∧ Spells rest digits ∧
    digits.length = 2 * width ∧ ofDigits digits = number

section Naming

/-- The digits of a number of some width are those of its bytes. -/
theorem digits_of_width {width number : Nat} {digits : List Nat}
    (small : ∀ digit ∈ digits, digit < 16) (fits : number < 256 ^ width) :
    digits.length = 2 * width ∧ ofDigits digits = number ↔
      digits = (beBytes width number).flatMap nibbles := by
  -- The bytes of a number in a width that holds it write the number.
  have value : BigEndian.value (beBytes width number) = number := by
    rw [value_beBytes, Nat.mod_eq_of_lt fits]
  constructor
  · rintro ⟨length, same⟩
    obtain ⟨bytes, rfl⟩ := exists_nibbles digits small (by omega)
    rw [length_nibbles] at length
    rw [ofDigits_nibbles] at same
    rw [BigEndian.eq_of_value_eq (by rw [length_beBytes]; omega) (same.trans value.symm)]
  · rintro rfl
    exact ⟨by rw [length_nibbles, length_beBytes], by rw [ofDigits_nibbles, value]⟩

/-- The usual prefix in either case, and what comes behind it. -/
theorem prefixed_iff {text digits : String} :
    text.toList.map Char.toLower = ("0x" ++ digits).toList.map Char.toLower ↔
      ∃ rest, (text = "0x" ++ rest ∨ text = "0X" ++ rest) ∧
        rest.toList.map Char.toLower = digits.toList.map Char.toLower := by
  have lower : ∀ rest : String, ("0x" ++ rest).toList = '0' :: 'x' :: rest.toList := by
    simp [String.toList_append]
  have upper : ∀ rest : String, ("0X" ++ rest).toList = '0' :: 'X' :: rest.toList := by
    simp [String.toList_append]
  have zero : Char.toLower '0' = '0' := by decide
  have small : Char.toLower 'x' = 'x' := by decide
  have large : Char.toLower 'X' = 'x' := by decide
  -- Lower case is taken of both sides, character by character.
  rw [lower, List.map_cons, List.map_cons, zero, small]
  constructor
  · intro same
    obtain ⟨first, tail, chars, isZero, same⟩ := List.map_eq_cons_iff.mp same
    obtain ⟨second, rest, rfl, isX, same⟩ := List.map_eq_cons_iff.mp same
    obtain rfl := (toLower_eq_zero_iff first).mp isZero
    refine ⟨String.ofList rest, ?_, by rw [String.toList_ofList, same]⟩
    rcases (toLower_eq_x_iff second).mp isX with rfl | rfl
    · exact .inl (String.toList_inj.mp (by rw [lower, String.toList_ofList, chars]))
    · exact .inr (String.toList_inj.mp (by rw [upper, String.toList_ofList, chars]))
  · rintro ⟨rest, rfl | rfl, same⟩
    · rw [lower, List.map_cons, List.map_cons, zero, small, same]
    · rw [upper, List.map_cons, List.map_cons, zero, large, same]

/-- A text is equal to a number that is written out, but for the case, if it names the number. -/
theorem eqIgnoreAsciiCase_iff {width number : Nat} (text : String) (fits : number < 256 ^ width) :
    eqIgnoreAsciiCase text ("0x" ++ encode (beBytes width number)) = true ↔
      Names width text number := by
  rw [eqIgnoreAsciiCase, decide_eq_true_iff, prefixed_iff, Names]
  -- Behind the prefix the digits are compared without their case.
  refine exists_congr fun rest => ?_
  rw [← spells_iff_toLower]
  constructor
  · rintro ⟨front, spells⟩
    obtain ⟨length, value⟩ := (digits_of_width spells.lt fits).mpr rfl
    exact ⟨_, front, spells, length, value⟩
  · rintro ⟨digits, front, spells, length, value⟩
    exact ⟨front, (digits_of_width spells.lt fits).mp ⟨length, value⟩ ▸ spells⟩

theorem address_iff (text : String) (address : Address) :
    eqIgnoreAsciiCase text (formatAddress address) = true ↔ Names 20 text address.toNat :=
  eqIgnoreAsciiCase_iff text (by have := address.isLt; omega)

theorem word_iff (text : String) (word : Word) :
    eqIgnoreAsciiCase text (hexWord word) = true ↔ Names 32 text word.toNat :=
  eqIgnoreAsciiCase_iff text (by have := word.isLt; omega)

end Naming

section Choosing

/-- A log has the address, if any is asked for. -/
def LogFilter.FromAddress (filter : LogFilter) (address : Address) : Prop :=
  ∀ addresses, filter.address = some addresses → ∃ text ∈ addresses, Names 20 text address.toNat

/-- A log has a topic at every position for which any is asked for. -/
def LogFilter.OnTopics (filter : LogFilter) (topics : List Word) : Prop :=
  ∀ filters, filter.topics = some filters → ∀ (position : Nat) (allowed : List String),
    filters[position]? = some (some allowed) →
      ∃ topic, topics[position]? = some topic ∧ ∃ text ∈ allowed, Names 32 text topic.toNat

/-- From one position on, every topic is one that is asked for. -/
theorem topicsMatch_iff (topics : List Word) (index : Nat)
    (filters : List (Option (List String))) :
    LogFilter.topicsMatch (topics.map hexWord) index filters = true ↔
      ∀ (position : Nat) (allowed : List String), filters[position]? = some (some allowed) →
        ∃ topic, topics[index + position]? = some topic ∧
          ∃ text ∈ allowed, Names 32 text topic.toNat := by
  induction filters generalizing index with
  | nil => simp [LogFilter.topicsMatch]
  | cons filter rest ih =>
    -- The first position is this one, and the others are those of the rest.
    have split : (∀ (position : Nat) (allowed : List String),
        (filter :: rest)[position]? = some (some allowed) →
          ∃ topic, topics[index + position]? = some topic ∧
            ∃ text ∈ allowed, Names 32 text topic.toNat) ↔
        (∀ allowed, filter = some allowed → ∃ topic, topics[index]? = some topic ∧
          ∃ text ∈ allowed, Names 32 text topic.toNat) ∧
        LogFilter.topicsMatch (topics.map hexWord) (index + 1) rest = true := by
      rw [ih]
      constructor
      · intro all
        refine ⟨fun allowed here => all 0 allowed (by simp [here]), fun position allowed here => ?_⟩
        have later := all (position + 1) allowed (by simpa using here)
        rwa [← Nat.add_assoc, Nat.add_right_comm] at later
      · rintro ⟨first, later⟩ position allowed here
        cases position with
        | zero => exact first allowed (by simpa using here)
        | succ position =>
          have found := later position allowed (by simpa using here)
          rwa [Nat.add_right_comm] at found
    rw [split]
    cases filter with
    | none => simp [LogFilter.topicsMatch]
    | some allowed =>
      rw [LogFilter.topicsMatch, List.getElem?_map]
      cases topics[index]? with
      | none => simp
      | some topic =>
        have any : (allowed.any fun text => eqIgnoreAsciiCase text (hexWord topic)) = true ↔
            ∃ text ∈ allowed, Names 32 text topic.toNat := by
          rw [List.any_eq_true]
          exact exists_congr fun text => and_congr_right fun _ => word_iff text topic
        simp only [Option.map_some]
        by_cases asked : ∃ text ∈ allowed, Names 32 text topic.toNat
        · rw [if_pos (any.mpr asked)]
          simp [asked]
        · rw [if_neg (any.not.mpr asked)]
          simp [asked]

/-- Both parts of a filter have to let a log through. -/
theorem matches_iff (filter : LogFilter) (log : LogNotification) :
    filter.matches log = true ↔
      (∀ addresses, filter.address = some addresses →
        (addresses.any fun text => eqIgnoreAsciiCase text log.address) = true) ∧
      ∀ filters, filter.topics = some filters →
        LogFilter.topicsMatch log.topics 0 filters = true := by
  obtain ⟨address, topics⟩ := filter
  -- A part that is not asked for lets everything through.
  cases address with
  | none => cases topics <;> simp [LogFilter.matches]
  | some addresses =>
    simp only [LogFilter.matches, Option.any_some, Option.some.injEq, forall_eq']
    cases addresses.any fun text => eqIgnoreAsciiCase text log.address with
    | false => simp
    | true => cases topics <;> simp

/--
Filters choose logs by value.

A filter of texts lets a log through exactly if the log comes from an address that one of its texts
names, should it ask for addresses, and has a topic that one of the texts names at every position
where it asks for topics; a text names a number by the prefix and all of its digits, in either case.
-/
theorem filters_choose_by_value (filter : LogFilter) (record : LogRecord) (blockHash : Word)
    (blockNumber : Nat) (transactionHash : Word) (logIndex : Nat) :
    filter.matches (logNotification record blockHash blockNumber transactionHash logIndex) = true ↔
      filter.FromAddress record.address ∧ filter.OnTopics record.topics := by
  rw [matches_iff]
  refine and_congr (forall_congr' fun addresses => imp_congr_right fun _ => ?_)
    (forall_congr' fun filters => imp_congr_right fun _ => ?_)
  · rw [List.any_eq_true]
    exact exists_congr fun text => and_congr_right fun _ => address_iff text record.address
  · -- Topics are compared from the first position on.
    have matched := topicsMatch_iff record.topics 0 filters
    simp only [Nat.zero_add] at matched
    exact matched

end Choosing

end MiniEvm
