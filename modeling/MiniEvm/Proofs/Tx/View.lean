import MiniEvm.Proofs.Tx.Rlp
import MiniEvm.Tx.Decoder

/-! Which items a view of a list finds, whatever its caches hold. -/

namespace MiniEvm

open BigEndian RlpFormat

section Sequences

/-- Items that come one after the other, up to where no further one begins. -/
inductive Consecutive : Bytes → List Bytes → Prop
  | nil {bytes} : (∀ found, ¬ Holds bytes found) → Consecutive bytes []
  | cons {bytes found items} : Holds bytes found →
      Consecutive (bytes.drop (found.offset + found.length)) items →
      Consecutive bytes (bytes.take (found.offset + found.length) :: items)

/-- The items from the start of some bytes on. -/
def itemsFrom : (fuel : Nat) → Bytes → List Bytes
  | 0, _ => []
  | fuel + 1, bytes =>
    match payloadInfo bytes with
    | .ok info => bytes.take info.total :: itemsFrom fuel (bytes.drop info.total)
    | .error _ => []

/-- Every item takes a byte, so the length is fuel enough. -/
theorem consecutive_itemsFrom {fuel : Nat} {bytes : Bytes} (enough : bytes.length ≤ fuel) :
    Consecutive bytes (itemsFrom fuel bytes) := by
  induction fuel generalizing bytes with
  | zero =>
    obtain rfl := List.eq_nil_of_length_eq_zero (Nat.le_zero.mp enough)
    exact .nil fun found holds => nomatch holds.1
  | succ fuel ih =>
    unfold itemsFrom
    -- An item here, and by induction those behind it; or there is none at all.
    rcases payloadInfo_cases bytes with ⟨found, holds⟩ | ⟨none_, cause, refused⟩
    · rw [payloadInfo_of_holds holds]
      refine .cons holds (ih ?_)
      have positive := holds.1.positive
      rw [List.length_drop]
      omega
    · rw [refused]
      exact .nil none_

/-- Items are left behind one by one, and with them their bytes. -/
theorem Consecutive.consumeItems {bytes : Bytes} {items : List Bytes}
    (consecutive : Consecutive bytes items) {count : Nat} (enough : count ≤ items.length)
    (consumed : Nat) :
    Rlp.consumeItems count bytes consumed =
        .ok (bytes.drop (items.take count).flatten.length,
          consumed + (items.take count).flatten.length) ∧
      Consecutive (bytes.drop (items.take count).flatten.length) (items.drop count) := by
  induction consecutive generalizing count consumed with
  | nil none_ =>
    obtain rfl := Nat.le_zero.mp enough
    exact ⟨rfl, .nil none_⟩
  | @cons bytes found items holds later ih =>
    -- The first item is left behind, and the induction goes on in the bytes after it.
    cases count with
    | zero => exact ⟨rfl, .cons holds later⟩
    | succ count =>
      have inside := holds.2
      have total : (bytes.take (found.offset + found.length)).length =
          found.offset + found.length := List.length_take_of_le inside
      obtain ⟨step, rest⟩ := ih (Nat.le_of_succ_le_succ enough)
        (consumed + (found.offset + found.length))
      rw [List.drop_drop] at step rest
      rw [List.take_succ_cons, List.flatten_cons, List.length_append, total, List.drop_succ_cons]
      refine ⟨?_, rest⟩
      have consume : Rlp.consume bytes (found.offset + found.length) =
          .ok (bytes.drop (found.offset + found.length)) := if_pos inside
      simp only [Rlp.consumeItems, payloadInfo_of_holds holds, PayloadInfo.total, bind,
        Except.bind, consume, step, Nat.add_assoc]

/-- The items are the bytes that they were found in, up to a rest. -/
theorem Consecutive.flatten {bytes : Bytes} {items : List Bytes}
    (consecutive : Consecutive bytes items) : ∃ rest, bytes = items.flatten ++ rest := by
  induction consecutive with
  | @nil bytes none_ => exact ⟨bytes, rfl⟩
  | @cons bytes found items holds later ih =>
    -- The rest is the same for all of the items, since each begins where the last one ended.
    obtain ⟨rest, same⟩ := ih
    refine ⟨rest, ?_⟩
    rw [List.flatten_cons, List.append_assoc, ← same, List.take_append_drop]

/-- Every one of the items is whole. -/
theorem Consecutive.whole {bytes : Bytes} {items : List Bytes}
    (consecutive : Consecutive bytes items) {item : Bytes} (member : item ∈ items) :
    ∃ found, Whole item found := by
  -- An item is the first of those that stand one behind the other, or among the rest.
  induction consecutive with
  | nil none_ => cases member
  | @cons bytes found items holds later ih =>
    rcases List.mem_cons.mp member with rfl | member
    · exact ⟨found, holds.1.take, (List.length_take_of_le holds.2).symm⟩
    · exact ih member

/-- There are no more of them than bytes. -/
theorem Consecutive.length_le {bytes : Bytes} {items : List Bytes}
    (consecutive : Consecutive bytes items) : items.length ≤ bytes.length := by
  induction consecutive with
  | nil none_ => exact Nat.zero_le _
  | @cons bytes found items holds later ih =>
    -- No item is without its header.
    have positive := holds.1.positive
    have inside := holds.2
    rw [List.length_drop] at ih
    rw [List.length_cons]
    omega

/-- The first item is what its header spans. -/
theorem Consecutive.head {bytes item : Bytes} {items : List Bytes}
    (consecutive : Consecutive bytes (item :: items)) :
    ∃ found, Holds bytes found ∧ item = bytes.take (found.offset + found.length) := by
  cases consecutive with
  | cons holds later => exact ⟨_, holds, rfl⟩

/-- Behind the last item there is no header. -/
theorem Consecutive.ended {bytes : Bytes} (consecutive : Consecutive bytes []) (found : Header) :
    ¬ Holds bytes found := by
  cases consecutive with
  | nil none_ => exact none_ found

end Sequences

section Views

/-- The items that a view finds: the first inside of the list, the others wherever bytes go on. -/
def listItems (bytes : Bytes) : List Bytes :=
  if (Rlp.new bytes).isList then
    match payloadInfo bytes with
    | .error _ => []
    | .ok info =>
      match payloadInfo (slice bytes info.headerLen info.total) with
      | .error _ => []
      | .ok _ => itemsFrom bytes.length (bytes.drop info.headerLen)
  else []

/-- A list with a first item, and the others that follow it. -/
structure Listed (bytes : Bytes) (found : Header) (items : List Bytes) : Prop where
  list : (Rlp.new bytes).isList = true
  holds : Holds bytes found
  first : ∃ inner, Holds (slice bytes found.offset (found.offset + found.length)) inner
  consecutive : Consecutive (bytes.drop found.offset) items

/-- A view of some bytes whose cache knows where the item of an index begins. -/
structure Rlp.At (bytes : Bytes) (found : Header) (items : List Bytes) (index : Nat) (rlp : Rlp) :
    Prop where
  same : rlp.bytes = bytes
  cached : rlp.offsetCache = some ⟨index, found.offset + (items.take index).flatten.length⟩

/-- A view that begins again at the first item. -/
structure Rlp.Fresh (bytes : Bytes) (rlp : Rlp) : Prop where
  same : rlp.bytes = bytes
  cached : ∀ cache, rlp.offsetCache = some cache → 0 < cache.index

section Reading

variable {bytes : Bytes} {found : Header} {items : List Bytes} {rlp : Rlp}

/-- Bytes with an item hand out a view of that item; others are refused. -/
theorem at_of_seek (list : rlp.isList = true) {index offset : Nat} {rest : Bytes}
    (sought : rlp.seek index = .ok (rest, offset)) :
    Rlp.at_ index rlp =
      ((do
        let found ← payloadInfo rest
        let item ← bytesBetween rest 0 found.total
        pure (Rlp.new item)), { rlp with offsetCache := some ⟨index, offset⟩ }) := by
  simp only [Rlp.at_, Rlp.atWithOffset, bind, pure, list, if_true, sought]
  cases payloadInfo rest with
  | error failure => rfl
  | ok found =>
    simp only [Except.bind]
    -- Past the check of the length the slice is there.
    cases (bytesBetween rest 0 found.total : Decoded Bytes) with
    | error failure => rfl
    | ok item => rfl

/-- Where an item begins, the view finds it. -/
theorem at_of_holds (list : rlp.isList = true) {index offset : Nat} {rest : Bytes}
    (sought : rlp.seek index = .ok (rest, offset)) {found : Header} (holds : Holds rest found) :
    Rlp.at_ index rlp = (.ok (Rlp.new (rest.take (found.offset + found.length))),
      { rlp with offsetCache := some ⟨index, offset⟩ }) := by
  rw [at_of_seek list sought, payloadInfo_of_holds holds]
  simp only [bind, Except.bind, PayloadInfo.total]
  rw [bytesBetween_eq (Nat.zero_le _) holds.2]
  rfl

/-- Two views of the same bytes are lists both or none. -/
theorem isList_of_same (same : rlp.bytes = bytes) (list : (Rlp.new bytes).isList = true) :
    rlp.isList = true := by
  subst same
  exact list

/-- The header of a list, its payload, and what follows. -/
theorem drop_offset (holds : Holds bytes found) :
    bytes.drop found.offset = slice bytes found.offset (found.offset + found.length) ++
      bytes.drop (found.offset + found.length) := by
  have inside := holds.2
  rw [slice]
  nth_rewrite 1 [← List.take_append_drop (found.offset + found.length) bytes]
  rw [List.drop_append_of_le_length]
  rw [List.length_take]
  omega

/-- The first item is found from the start. -/
theorem at_of_fresh (listed : Listed bytes found items) (fresh : rlp.Fresh bytes) :
    ∃ item next, items[0]? = some item ∧ Rlp.at_ 0 rlp = (.ok (Rlp.new item), next) ∧
      next.At bytes found items 0 := by
  obtain ⟨inner, inside⟩ := listed.first
  have list := isList_of_same fresh.same listed.list
  -- Without a cached offset the position is the start of the list's payload.
  have payload : rlp.consumeListPayload =
      .ok (slice bytes found.offset (found.offset + found.length), found.offset) := by
    have bounds := listed.holds.2
    simp only [Rlp.consumeListPayload, fresh.same, payloadInfo_of_holds listed.holds, bind,
      Except.bind, PayloadInfo.total]
    rw [if_neg (by omega), bytesBetween_eq (by omega) bounds]
    rfl
  have sought : rlp.seek 0 =
      .ok (slice bytes found.offset (found.offset + found.length), found.offset) := by
    unfold Rlp.seek
    rw [payload]
    cases cached : rlp.offsetCache with
    | none => rfl
    | some cache =>
      have later := fresh.cached cache cached
      simp only
      rw [if_neg (by omega)]
      rfl
  -- The item lies inside of the list, so it is the first that follows the header.
  have first : items[0]? =
      some ((slice bytes found.offset (found.offset + found.length)).take
        (inner.offset + inner.length)) := by
    have consecutive := listed.consecutive
    rw [drop_offset listed.holds] at consecutive
    have outside := inside.append (bytes.drop (found.offset + found.length))
    cases consecutive with
    | nil none_ => exact absurd outside (none_ inner)
    | @cons _ other rest holds later =>
      have same := (header_eq_some_iff.mpr holds.1).symm.trans (header_eq_some_iff.mpr outside.1)
      obtain rfl := Option.some.inj same
      rw [List.getElem?_cons_zero, List.take_append_of_le_length inside.2]
  exact ⟨_, _, first, at_of_holds list sought inside, fresh.same, rfl⟩

/-- From a known position on, the view goes from item to item, up to where there is none. -/
theorem at_of_at (listed : Listed bytes found items) {index target : Nat}
    (known : rlp.At bytes found items index) (later : index ≤ target)
    (within : target ≤ items.length) :
    (∃ item next, items[target]? = some item ∧ Rlp.at_ target rlp = (.ok (Rlp.new item), next) ∧
      next.At bytes found items target) ∨
    (target = items.length ∧ ∃ cause next, Rlp.at_ target rlp = (refuse cause, next) ∧
      next.At bytes found items target) := by
  have list := isList_of_same known.same listed.list
  have bounds := listed.holds.2
  -- The cached offset is inside of the bytes, and the remaining items begin there.
  obtain ⟨_, remaining⟩ := listed.consecutive.consumeItems (Nat.le_trans later within) 0
  rw [List.drop_drop] at remaining
  have offset : found.offset + (items.take index).flatten.length ≤ bytes.length := by
    obtain ⟨rest, whole⟩ := listed.consecutive.flatten
    have lengths := congrArg List.length whole
    have part := (List.take_sublist index items).flatten.length_le
    rw [List.length_drop, List.length_append] at lengths
    omega
  obtain ⟨steps, rest⟩ := remaining.consumeItems
    (by rw [List.length_drop]; omega : target - index ≤ (items.drop index).length) 0
  -- The items up to the target are those that were skipped before and those skipped now.
  have split : (items.take index).flatten.length +
      ((items.drop index).take (target - index)).flatten.length =
        (items.take target).flatten.length := by
    rw [← List.length_append, ← List.flatten_append]
    congr 2
    rw [← List.take_add, Nat.add_sub_cancel' later]
  rw [Nat.zero_add] at steps
  rw [List.drop_drop, List.drop_drop, Nat.add_assoc, split, Nat.add_sub_cancel' later] at rest
  have sought : rlp.seek target =
      .ok (bytes.drop (found.offset + (items.take target).flatten.length),
        found.offset + (items.take target).flatten.length) := by
    have consume : Rlp.consume bytes (found.offset + (items.take index).flatten.length) =
        .ok (bytes.drop (found.offset + (items.take index).flatten.length)) := if_pos offset
    simp only [Rlp.seek, known.cached, known.same]
    rw [if_pos later, consume]
    simp only [bind, Except.bind, steps]
    rw [List.drop_drop, Nat.add_assoc, split]
    rfl
  -- An item of the list begins at the target, or the items end there.
  rcases Nat.lt_or_eq_of_le within with inside | ended
  · left
    rw [List.drop_eq_getElem_cons inside] at rest
    obtain ⟨here, holds, item⟩ := rest.head
    have step := at_of_holds list sought holds
    rw [← item] at step
    exact ⟨_, _, List.getElem?_eq_getElem inside, step, known.same, rfl⟩
  · right
    rw [ended, List.drop_length] at rest
    rw [← ended] at rest
    have step := at_of_seek list sought
    rcases payloadInfo_cases (bytes.drop (found.offset + (items.take target).flatten.length)) with
      ⟨here, holds⟩ | ⟨_, cause, refused⟩
    · exact absurd holds (rest.ended here)
    · rw [refused] at step
      exact ⟨ended, cause, _, step, known.same, rfl⟩

/-- Counting goes through all items and no further. -/
theorem count_of_at (listed : Listed bytes found items) {fuel index : Nat}
    (known : rlp.At bytes found items index) (within : index < items.length)
    (enough : items.length ≤ fuel + index) :
    ∃ next, Rlp.itemCount.count fuel (index + 1) rlp = (.ok items.length, next) ∧
      next.At bytes found items items.length := by
  induction fuel generalizing index rlp with
  | zero => omega
  | succ fuel ih =>
    unfold Rlp.itemCount.count
    -- The count goes on as long as the next index has an item.
    rcases at_of_at listed known (Nat.le_succ index) within with
      ⟨item, next, member, step, moved⟩ | ⟨ended, cause, next, step, moved⟩
    · simp only [step]
      have inside : index + 1 < items.length := (List.getElem?_eq_some_iff.mp member).1
      exact ih moved inside (by omega)
    · simp only [step]
      rw [← ended]
      exact ⟨next, rfl, moved⟩

end Reading

/-- A list either has a first item or is refused at once. -/
theorem listed_or_empty {bytes : Bytes} (list : (Rlp.new bytes).isList = true) :
    (∃ found, Listed bytes found (listItems bytes)) ∨
    (listItems bytes = [] ∧ ∃ cause next, Rlp.at_ 0 (Rlp.new bytes) = (refuse cause, next)) := by
  rcases payloadInfo_cases bytes with ⟨found, holds⟩ | ⟨_, cause, refused⟩
  · have inside := holds.2
    have payload : (Rlp.new bytes).seek 0 =
        .ok (slice bytes found.offset (found.offset + found.length), found.offset) := by
      have read : payloadInfo (Rlp.new bytes).bytes = .ok ⟨found.offset, found.length⟩ :=
        payloadInfo_of_holds holds
      have between : (bytesBetween (Rlp.new bytes).bytes found.offset
          (found.offset + found.length) : Decoded Bytes) =
            .ok (slice bytes found.offset (found.offset + found.length)) :=
        bytesBetween_eq (by omega) inside
      have enough : ¬ (Rlp.new bytes).bytes.length < found.offset + found.length :=
        Nat.not_lt.mpr inside
      simp only [Rlp.seek, Rlp.consumeListPayload, read, bind, Except.bind, PayloadInfo.total,
        enough, if_false, between]
      rfl
    unfold listItems
    simp only [list, if_true, payloadInfo_of_holds holds, PayloadInfo.total]
    -- The view looks for the first item inside of the list, and for no other one.
    rcases payloadInfo_cases (slice bytes found.offset (found.offset + found.length)) with
      ⟨inner, first⟩ | ⟨_, cause, refused⟩
    · left
      simp only [payloadInfo_of_holds first]
      refine ⟨found, list, holds, ⟨inner, first⟩, consecutive_itemsFrom ?_⟩
      rw [List.length_drop]
      omega
    · right
      have step := at_of_seek list payload
      rw [refused] at step
      simp only [refused]
      exact ⟨rfl, cause, _, step⟩
  · right
    have sought : (Rlp.new bytes).seek 0 = refuse cause := by
      have read : payloadInfo (Rlp.new bytes).bytes = refuse cause := refused
      simp only [Rlp.seek, Rlp.consumeListPayload, read]
      rfl
    refine ⟨?_, cause, Rlp.new bytes, ?_⟩
    · rw [listItems, if_pos list, refused]
      rfl
    · simp only [Rlp.at_, Rlp.atWithOffset, bind, list, if_true, sought]
      rfl

/-- A new view is fresh. -/
theorem fresh_new (bytes : Bytes) : (Rlp.new bytes).Fresh bytes where
  same := rfl
  cached := by
    intro cache cached
    cases cached

/-- A list is counted to its last item, and then read from its first again. -/
theorem itemCount_of_listed {bytes : Bytes} {found : Header} {items : List Bytes}
    (listed : Listed bytes found items) :
    ∃ next, Rlp.itemCount (Rlp.new bytes) = (.ok items.length, next) ∧ next.Fresh bytes := by
  obtain ⟨item, next, member, step, known⟩ := at_of_fresh listed (fresh_new bytes)
  have inside := (List.getElem?_eq_some_iff.mp member).1
  -- No more items than bytes, so the count comes to its end.
  have fuel : items.length ≤ (Rlp.new bytes).bytes.length + 0 :=
    Nat.le_trans listed.consecutive.length_le (List.length_drop ▸ Nat.sub_le _ _)
  obtain ⟨last, counted, ended⟩ := count_of_at listed known inside fuel
  have uncounted : (Rlp.new bytes).countCache = none := rfl
  simp only [Rlp.itemCount, listed.list, if_true, uncounted, Rlp.itemCount.count, step, counted]
  -- The cache is left behind the last item, so the first is read from the start again.
  refine ⟨_, rfl, ended.same, ?_⟩
  intro cache cached
  rw [ended.cached] at cached
  cases cached
  exact inside

/-- The required number of items is there, or the bytes are refused. -/
theorem requireItems_eq {bytes : Bytes} {count : Nat} (some_ : 0 < count) :
    (count ≤ (listItems bytes).length ∧ ∃ found next, Listed bytes found (listItems bytes) ∧
      requireItems count (Rlp.new bytes) = (.ok (), next) ∧ next.Fresh bytes) ∨
    ((listItems bytes).length < count ∧
      (requireItems count (Rlp.new bytes)).1 = refuse .invalidRlp) := by
  unfold requireItems Reading.orInvalid
  -- A string has no items, which is the same to the decoder as too few of them.
  cases list : (Rlp.new bytes).isList with
  | false =>
    right
    refine ⟨?_, rfl⟩
    simp only [listItems, list]
    exact some_
  | true =>
    rw [if_pos rfl]
    rcases listed_or_empty list with ⟨found, listed⟩ | ⟨empty, cause, next, step⟩
    · obtain ⟨next, counted, fresh⟩ := itemCount_of_listed listed
      simp only [counted, orInvalidRlp]
      by_cases few : (listItems bytes).length < count
      · right
        exact ⟨few, by rw [if_pos few]⟩
      · left
        rw [if_neg few]
        exact ⟨Nat.not_lt.mp few, found, next, listed, rfl, fresh⟩
    · right
      have uncounted : (Rlp.new bytes).countCache = none := rfl
      rw [empty]
      refine ⟨some_, ?_⟩
      simp only [Rlp.itemCount, list, if_true, uncounted, Rlp.itemCount.count, step, refuse,
        orInvalidRlp, some_]

end Views

section Following

/-- A reading that gives a result in every view before it, and leaves one of those after it. -/
def Reading.Follows {ε α : Type} (before : Rlp → Prop) (reading : Reading ε α)
    (result : Except (Failure ε) α) (after : Rlp → Prop) : Prop :=
  ∀ rlp, before rlp → (reading rlp).1 = result ∧ ∀ value, result = .ok value → after (reading rlp).2

/-- Readings may follow each other, with what the cache holds in between. -/
theorem Reading.Follows.bind {ε α β : Type} {before middle after : Rlp → Prop}
    {reading : Reading ε α} {result : Except (Failure ε) α} {next : α → Reading ε β}
    {then_ : α → Except (Failure ε) β} (first : reading.Follows before result middle)
    (rest : ∀ value, (next value).Follows middle (then_ value) after) :
    (reading >>= next).Follows before (result >>= then_) after := by
  intro rlp ready
  obtain ⟨same, moved⟩ := first rlp ready
  simp only [Bind.bind]
  generalize reading rlp = read at same moved
  obtain ⟨outcome, view⟩ := read
  subst same
  -- After an error nothing more is read, so the view that is left does not matter.
  cases outcome with
  | error failure => exact ⟨rfl, fun value impossible => nomatch impossible⟩
  | ok value => exact rest value view (moved value rfl)

/-- A result needs no reading. -/
theorem Reading.follows_pure {ε α : Type} (before : Rlp → Prop) (value : α) :
    (pure value : Reading ε α).Follows before (pure value) before :=
  fun _ ready => ⟨rfl, fun _ _ => ready⟩

/-- What was computed before needs no reading. -/
theorem Reading.follows_lift {ε α : Type} (before : Rlp → Prop) (result : Except (Failure ε) α) :
    (Reading.lift result).Follows before result before :=
  fun _ ready => ⟨rfl, fun _ _ => ready⟩

/-- A view that has found an item up to some index. -/
def Rlp.Past (bytes : Bytes) (found : Header) (items : List Bytes) (index : Nat) (rlp : Rlp) :
    Prop :=
  ∃ earlier ≤ index, rlp.At bytes found items earlier

/-- What the item of an index decodes to. -/
def fieldAt {α : Type} (decode : Bytes → Decoded α) (items : List Bytes) (index : Nat) :
    Except (Failure TxDecodeError) α :=
  orInvalidRlp (decode (items.getD index []))

section Fields

variable {bytes : Bytes} {found : Header} {items : List Bytes} {α : Type}

/-- Reading a value follows from finding its item. -/
theorem follows_of_at {before : Rlp → Prop} (decode : Bytes → Decoded α) {index : Nat}
    (finds : ∀ rlp, before rlp → ∃ item next, items[index]? = some item ∧
      Rlp.at_ index rlp = (.ok (Rlp.new item), next) ∧ next.At bytes found items index) :
    (Rlp.valAt decode index).orInvalid.Follows before (fieldAt decode items index)
      (Rlp.Past bytes found items index) := by
  intro rlp ready
  obtain ⟨item, next, member, step, moved⟩ := finds rlp ready
  -- The view stands before the item of the index.
  have same : items.getD index [] = item := by rw [List.getD_eq_getElem?_getD, member]; rfl
  simp only [Reading.orInvalid, Rlp.valAt, step, fieldAt, same]
  exact ⟨rfl, fun _ _ => ⟨index, Nat.le_refl _, moved⟩⟩

/-- The first item is read from the start. -/
theorem follows_first (listed : Listed bytes found items) (decode : Bytes → Decoded α) :
    (Rlp.valAt decode 0).orInvalid.Follows (Rlp.Fresh bytes) (fieldAt decode items 0)
      (Rlp.Past bytes found items 0) :=
  follows_of_at decode fun _ fresh => at_of_fresh listed fresh

/-- A later item is read from an earlier one on. -/
theorem follows_later (listed : Listed bytes found items) (decode : Bytes → Decoded α)
    {earlier index : Nat} (later : earlier < index) (inside : index < items.length) :
    (Rlp.valAt decode index).orInvalid.Follows (Rlp.Past bytes found items earlier)
      (fieldAt decode items index) (Rlp.Past bytes found items index) := by
  apply follows_of_at
  rintro rlp ⟨position, before, known⟩
  -- The cache is at an earlier item, from which this one is reached.
  rcases at_of_at listed known (by omega) (Nat.le_of_lt inside) with finds | ⟨ended, _⟩
  · exact finds
  · omega

end Fields

/-- What the items of a dynamic fee transaction decode to. -/
def eip1559Fields (items : List Bytes) : Except (Failure TxDecodeError) TxFields := do
  let chainId ← fieldAt decodeU64 items 0
  let nonce ← fieldAt decodeU64 items 1
  let maxPriorityFeePerGas ← fieldAt decodeU256 items 2
  let maxFeePerGas ← fieldAt decodeU256 items 3
  let gasLimit ← fieldAt decodeU64 items 4
  let toBytes ← fieldAt decodeBytes items 5
  let to_ ← receiver toBytes
  let value ← fieldAt decodeU256 items 6
  let data ← fieldAt decodeBytes items 7
  let yParity ← fieldAt decodeU8 items 9
  let r ← fieldAt decodeBytes items 10
  let s ← fieldAt decodeBytes items 11
  pure {
    chainId := some chainId, nonce, gasLimit, maxFeePerGas, maxPriorityFeePerGas, to_, value, data,
    r, s, recId := yParity }

/-- What the items of a legacy transaction decode to. -/
def legacyFields (items : List Bytes) : Except (Failure TxDecodeError) TxFields := do
  let nonce ← fieldAt decodeU64 items 0
  let gasPrice ← fieldAt decodeU256 items 1
  let gasLimit ← fieldAt decodeU64 items 2
  let toBytes ← fieldAt decodeBytes items 3
  let to_ ← receiver toBytes
  let value ← fieldAt decodeU256 items 4
  let data ← fieldAt decodeBytes items 5
  let v ← fieldAt decodeU64 items 6
  let r ← fieldAt decodeBytes items 7
  let s ← fieldAt decodeBytes items 8
  let parity ← signatureParity v
  pure {
    chainId := parity.1, nonce, gasLimit, maxFeePerGas := gasPrice,
    maxPriorityFeePerGas := gasPrice, to_, value, data, r, s, recId := parity.2 }

/-- Reading behind the check of the count is refused, or follows what the items decode to. -/
theorem reading_eq {α : Type} {bytes : Bytes} {count : Nat} (some_ : 0 < count)
    {rest : Reading TxDecodeError α} {fields : List Bytes → Except (Failure TxDecodeError) α}
    (follows : ∀ found, count ≤ (listItems bytes).length → Listed bytes found (listItems bytes) →
      rest.Follows (Rlp.Fresh bytes) (fields (listItems bytes))
        (Rlp.Past bytes found (listItems bytes) (count - 1))) :
    ((requireItems count >>= fun _ => rest) (Rlp.new bytes)).1 =
      if (listItems bytes).length < count then refuse .invalidRlp
      else fields (listItems bytes) := by
  simp only [Bind.bind]
  -- The count is checked before anything is read.
  rcases @requireItems_eq bytes count some_ with
    ⟨enough, found, next, listed, step, fresh⟩ | ⟨few, step⟩
  · rw [if_neg (by omega), step]
    exact (follows found enough listed next fresh).1
  · rw [if_pos few]
    generalize requireItems count (Rlp.new bytes) = required at step
    obtain ⟨outcome, view⟩ := required
    subst step
    rfl

/-- The fields of a dynamic fee transaction are those of its first twelve items. -/
theorem readEip1559_eq (bytes : Bytes) :
    (readEip1559 (Rlp.new bytes)).1 =
      if (listItems bytes).length < 12 then refuse .invalidRlp
      else eip1559Fields (listItems bytes) := by
  apply reading_eq (by decide)
  intro found enough listed
  -- The items are read in their order, past the access list.
  refine .bind (follows_first listed _) fun chainId => ?_
  refine .bind (follows_later listed _ (by omega) (by omega)) fun nonce => ?_
  refine .bind (follows_later listed _ (by omega) (by omega)) fun maxPriorityFeePerGas => ?_
  refine .bind (follows_later listed _ (by omega) (by omega)) fun maxFeePerGas => ?_
  refine .bind (follows_later listed _ (by omega) (by omega)) fun gasLimit => ?_
  refine .bind (follows_later listed _ (by omega) (by omega)) fun toBytes => ?_
  refine .bind (Reading.follows_lift _ _) fun to_ => ?_
  refine .bind (follows_later listed _ (by omega) (by omega)) fun value => ?_
  refine .bind (follows_later listed _ (by omega) (by omega)) fun data => ?_
  refine .bind (follows_later listed _ (by omega) (by omega)) fun yParity => ?_
  refine .bind (follows_later listed _ (by omega) (by omega)) fun r => ?_
  refine .bind (follows_later listed _ (by omega) (by omega)) fun s => ?_
  exact Reading.follows_pure _ _

/-- The fields of a legacy transaction are those of its first nine items. -/
theorem readLegacy_eq (bytes : Bytes) :
    (readLegacy (Rlp.new bytes)).1 =
      if (listItems bytes).length < 9 then refuse .invalidRlp
      else legacyFields (listItems bytes) := by
  apply reading_eq (by decide)
  intro found enough listed
  -- Only the first item is found from the start; each other one follows an earlier item.
  refine .bind (follows_first listed _) fun nonce => ?_
  refine .bind (follows_later listed _ (by omega) (by omega)) fun gasPrice => ?_
  refine .bind (follows_later listed _ (by omega) (by omega)) fun gasLimit => ?_
  refine .bind (follows_later listed _ (by omega) (by omega)) fun toBytes => ?_
  refine .bind (Reading.follows_lift _ _) fun to_ => ?_
  refine .bind (follows_later listed _ (by omega) (by omega)) fun value => ?_
  refine .bind (follows_later listed _ (by omega) (by omega)) fun data => ?_
  refine .bind (follows_later listed _ (by omega) (by omega)) fun v => ?_
  refine .bind (follows_later listed _ (by omega) (by omega)) fun r => ?_
  refine .bind (follows_later listed _ (by omega) (by omega)) fun s => ?_
  refine .bind (Reading.follows_lift _ _) fun parity => ?_
  exact Reading.follows_pure _ _

end Following

end MiniEvm
