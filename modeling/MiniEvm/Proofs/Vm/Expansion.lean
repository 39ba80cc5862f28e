import MiniEvm.Proofs.Vm.Runs

/-! What memory growth costs, one range at a time or over several ranges at once. -/

namespace MiniEvm

open EvmM Frames Frames.Program

section Prices

/-- What a memory of so many words costs in all, over the unbounded numbers. -/
def memoryGas (words : Nat) : Nat := 3 * words + words * words / 512

/-- The words that cover everything up to an end. -/
def wordsFor (stop : Nat) : Nat := (stop + 31) / 32

/-- The words that a range asks for when it is touched, which are none if it is empty. -/
def touchedWords (offset size : Nat) : Nat := if size = 0 then 0 else wordsFor (offset + size)

/-- What growing to so many words costs a memory of this length. -/
def growthPrice (length words : Nat) : Nat := memoryGas words - memoryGas (length / 32)

/-- More words cost more. -/
theorem memoryGas_mono {few many : Nat} (le : few ≤ many) : memoryGas few ≤ memoryGas many := by
  have squares : few * few ≤ many * many := Nat.mul_le_mul le le
  have quotients : few * few / 512 ≤ many * many / 512 := Nat.div_le_div_right squares
  unfold memoryGas
  omega

/-- Memory that is long enough costs nothing more. -/
theorem growthPrice_of_covered {length words : Nat} (covered : words ≤ length / 32) :
    growthPrice length words = 0 :=
  Nat.sub_eq_zero_of_le (memoryGas_mono covered)

/-- Growing further costs more. -/
theorem growthPrice_mono {length few many : Nat} (le : few ≤ many) :
    growthPrice length few ≤ growthPrice length many :=
  Nat.sub_le_sub_right (memoryGas_mono le) _

/-- There is nothing to pay for words that are there. -/
theorem growthPrice_max {length words : Nat} :
    growthPrice length (max (length / 32) words) = growthPrice length words := by
  by_cases covered : words ≤ length / 32
  · -- Memory has the words already, so neither form asks for anything.
    rw [Nat.max_eq_left covered, growthPrice_of_covered covered,
      growthPrice_of_covered (Nat.le_refl _)]
  · rw [Nat.max_eq_right (Nat.le_of_not_le covered)]

/-- The square of fewer than 2^32 words is a 64-bit number. -/
theorem square_le {words : Nat} (small : words < 2 ^ 32) : words * words ≤ u64Max := by
  have bound : words * words ≤ (2 ^ 32 - 1) * (2 ^ 32 - 1) :=
    Nat.mul_le_mul (Nat.le_pred_of_lt small) (Nat.le_pred_of_lt small)
  exact bound.trans (by decide)

/-- From 2^32 words on it is none. -/
theorem lt_square {words : Nat} (large : 2 ^ 32 ≤ words) : u64Max < words * words :=
  Nat.lt_of_lt_of_le (by decide : u64Max < 2 ^ 32 * 2 ^ 32) (Nat.mul_le_mul large large)

/-- The price of fewer than 2^32 words is far from the 64-bit bound. -/
theorem memoryGas_lt {words : Nat} (small : words < 2 ^ 32) : memoryGas words < 2 ^ 56 := by
  -- The quadratic part is below 2^55 and the linear one below 2^34.
  have square : words * words / 512 ≤ u64Max / 512 := Nat.div_le_div_right (square_le small)
  unfold memoryGas
  unfold u64Max at square
  omega

/-- The cost of less than 2^32 words is a 64-bit number. -/
theorem memoryGas_le {words : Nat} (small : words < 2 ^ 32) : memoryGas words ≤ u64Max :=
  (Nat.le_of_lt (memoryGas_lt small)).trans (by decide)

end Prices

section Growth

/-- The frame with so much less gas. -/
def Evm.spend (evm : Evm) (cost : Nat) : Evm := { evm with gasLeft := evm.gasLeft - cost }

/-- The frame once it has paid for so many words of memory, if it did not have them before. -/
def Evm.grownTo (evm : Evm) (words : Nat) : Evm :=
  if evm.memory.length / 32 < words then
    { evm with
      gasLeft := evm.gasLeft - growthPrice evm.memory.length words
      memory := resize evm.memory (words * 32) }
  else evm

variable {evm : Evm} {words : Nat}

/-- Memory that reaches as far is left as it is. -/
theorem Evm.grownTo_of_covered (covered : words ≤ evm.memory.length / 32) :
    evm.grownTo words = evm := if_neg (Nat.not_lt.mpr covered)

/-- Memory never shrinks. -/
theorem Evm.length_le_grownTo : evm.memory.length ≤ (evm.grownTo words).memory.length := by
  unfold grownTo
  split
  · rw [length_resize]
    omega
  · exact Nat.le_refl _

/-- Memory ends at a word after the growth, if it did before. -/
theorem Evm.length_grownTo (whole : evm.memory.length % 32 = 0) :
    (evm.grownTo words).memory.length = max (evm.memory.length / 32) words * 32 := by
  unfold grownTo
  split
  · rw [length_resize]
    omega
  · omega

/-- The growth has been paid for. -/
theorem Evm.grownTo_gasLeft :
    (evm.grownTo words).gasLeft = evm.gasLeft - growthPrice evm.memory.length words := by
  unfold grownTo
  split
  · rfl
  · rename_i covered
    rw [growthPrice_of_covered (Nat.not_lt.mp covered), Nat.sub_zero]

/-- Growth costs the difference between what the two lengths cost in all. -/
theorem Evm.grownTo_price (paid : growthPrice evm.memory.length words ≤ evm.gasLeft) :
    (evm.grownTo words).gasLeft + memoryGas ((evm.grownTo words).memory.length / 32) =
      evm.gasLeft + memoryGas (evm.memory.length / 32) := by
  rw [grownTo_gasLeft]
  unfold grownTo
  split
  · rename_i grows
    -- The longer memory costs more in all, so the differences add up.
    have more := memoryGas_mono (Nat.le_of_lt grows)
    rw [length_resize, Nat.mul_div_cancel _ (by decide)]
    unfold growthPrice at paid ⊢
    omega
  · rename_i covered
    rw [growthPrice_of_covered (Nat.not_lt.mp covered), Nat.sub_zero]

end Growth

section Touching

variable {host : Host} {evm : Evm} {offset size words : Nat}

/-- In range both builds agree. -/
theorem uncheckedU64_of_le {result : Nat} (small : result ≤ u64Max) :
    uncheckedU64 host result = pure result := if_pos small

/-- As long as the square fits, the price is the unbounded one. -/
theorem memoryCost_of_small (small : words < 2 ^ 32) :
    memoryCost host words = pure (memoryGas words) := by
  have total := memoryGas_le small
  have linear : 3 * words ≤ u64Max := by
    unfold memoryGas at total
    omega
  -- Each operation is shown to stay in range before it is run.
  unfold memoryCost
  rw [uncheckedU64_of_le linear, uncheckedU64_of_le (square_le small)]
  show uncheckedU64 host (memoryGas words) = _
  exact uncheckedU64_of_le total

/-- Touching an empty range, or a range that memory covers, does nothing. -/
theorem touchMemory_of_covered (fits : offset + size + 31 ≤ u64Max)
    (covered : touchedWords offset size ≤ evm.memory.length / 32) :
    touchMemory host offset size evm = .next () evm := by
  unfold touchedWords wordsFor at covered
  unfold touchMemory
  by_cases empty : size = 0
  · -- The empty range is let through before anything is computed.
    rw [if_pos empty]
    rfl
  · rw [if_neg empty] at covered ⊢
    have inside : ¬ evm.memory.length / 32 < (offset + size + 31) / 32 := Nat.not_lt.mpr covered
    simp only [checkedAdd, if_pos (by omega : offset + size ≤ u64Max), if_pos fits, bind_apply,
      get_apply, Tree.bind, gt_iff_lt, if_neg inside]
    rfl

/-- A range out of the 64-bit range is priced out. -/
theorem touchMemory_of_outside (nonempty : size ≠ 0) (outside : u64Max < offset + size + 31) :
    touchMemory host offset size evm = .exit .outOfGas evm := by
  unfold touchMemory
  rw [if_neg nonempty]
  -- Either the end itself or its rounding is out of range, and both are answered the same.
  by_cases sum : offset + size ≤ u64Max
  · simp only [checkedAdd, if_pos sum, if_neg (Nat.not_le.mpr outside)]
    rfl
  · simp only [checkedAdd, if_neg sum]
    rfl

/-- What touching a range comes to, once it is known to reach past memory. -/
theorem touchMemory_of_growing (nonempty : size ≠ 0) (fits : offset + size + 31 ≤ u64Max)
    (grows : evm.memory.length / 32 < wordsFor (offset + size)) :
    touchMemory host offset size evm = (do
      let costNew ← memoryCost host (wordsFor (offset + size))
      let costOld ← memoryCost host (evm.memory.length / 32)
      let expansionCost ← uncheckedSub host costNew costOld
      charge expansionCost
      modify fun evm =>
        { evm with memory := resize evm.memory (wordsFor (offset + size) * 32) }) evm := by
  unfold wordsFor at grows
  unfold touchMemory
  rw [if_neg nonempty]
  simp only [checkedAdd, if_pos (by omega : offset + size ≤ u64Max), if_pos fits]
  rw [bind_apply, get_apply]
  simp only [Tree.bind, gt_iff_lt, if_pos grows]
  rfl

/-- With fewer than 2^32 words, touching pays the exact difference or changes nothing. -/
theorem touchMemory_of_small (small : touchedWords offset size < 2 ^ 32) :
    touchMemory host offset size evm =
      if evm.gasLeft < growthPrice evm.memory.length (touchedWords offset size) then
        .exit .outOfGas evm
      else .next () (evm.grownTo (touchedWords offset size)) := by
  by_cases covered : touchedWords offset size ≤ evm.memory.length / 32
  · rw [growthPrice_of_covered covered, if_neg (Nat.not_lt_zero _), Evm.grownTo_of_covered covered]
    by_cases empty : size = 0
    · rw [empty]
      rfl
    · refine touchMemory_of_covered ?_ covered
      rw [touchedWords, if_neg empty, wordsFor] at small
      unfold u64Max
      omega
  · have nonempty : size ≠ 0 := by
      rintro rfl
      exact covered (Nat.zero_le _)
    rw [touchedWords, if_neg nonempty] at small covered ⊢
    -- Fewer than 2^32 words also keep the end of the range inside 64 bits.
    have grows := Nat.not_le.mp covered
    have fits : offset + size + 31 ≤ u64Max := by
      unfold wordsFor at small
      unfold u64Max
      omega
    rw [touchMemory_of_growing nonempty fits grows, memoryCost_of_small small,
      memoryCost_of_small (Nat.lt_trans grows small)]
    -- None of the unchecked operations left its range, so only the charge is left to decide.
    have ordered := memoryGas_mono (Nat.le_of_lt grows)
    have difference : uncheckedSub host (memoryGas (wordsFor (offset + size)))
        (memoryGas (evm.memory.length / 32)) =
        pure (growthPrice evm.memory.length (wordsFor (offset + size))) := if_pos ordered
    simp only [difference, Evm.grownTo, if_pos grows, bind_apply, pure_apply, Tree.bind, charge,
      get_apply]
    by_cases short : evm.gasLeft < growthPrice evm.memory.length (wordsFor (offset + size))
    · rw [if_pos short, if_pos short]
      rfl
    · rw [if_neg short, if_neg short]
      rfl

/-- From 2^32 words on, a build that checks its arithmetic aborts on the square. -/
theorem memoryCost_of_checked (large : 2 ^ 32 ≤ words) (linear : 3 * words ≤ u64Max)
    (checks : host.overflowChecks = true) :
    memoryCost host words = fault .arithmeticOverflow := by
  have exceeds := Nat.not_le.mpr (lt_square large)
  -- The product of the words with themselves is the operation that gives way.
  have square : uncheckedU64 host (words * words) = fault .arithmeticOverflow := by
    rw [uncheckedU64, if_neg exceeds, checks]
    rfl
  unfold memoryCost
  rw [uncheckedU64_of_le linear, square]
  rfl

/-- In a build with checks too many words abort. -/
theorem touchMemory_of_checked (nonempty : size ≠ 0) (fits : offset + size + 31 ≤ u64Max)
    (grows : evm.memory.length / 32 < wordsFor (offset + size))
    (large : 2 ^ 32 ≤ wordsFor (offset + size)) (checks : host.overflowChecks = true) :
    touchMemory host offset size evm = .fault .arithmeticOverflow := by
  have linear : 3 * wordsFor (offset + size) ≤ u64Max := by
    unfold wordsFor
    omega
  rw [touchMemory_of_growing nonempty fits grows, memoryCost_of_checked large linear checks]
  rfl

/-- Touching the range ends the frame for want of gas, or costs what the two lengths differ by. -/
def ExactlyPriced (host : Host) (offset size : Nat) (evm : Evm) : Prop :=
  touchMemory host offset size evm = .exit .outOfGas evm ∨
    ∃ after, touchMemory host offset size evm = .next () after ∧
      evm.memory.length ≤ after.memory.length ∧
      after.gasLeft + memoryGas (after.memory.length / 32) =
        evm.gasLeft + memoryGas (evm.memory.length / 32)

/-- Less than 2^32 words are priced exactly. -/
theorem exactlyPriced_of_small (small : touchedWords offset size < 2 ^ 32) :
    ExactlyPriced host offset size evm := by
  unfold ExactlyPriced
  rw [touchMemory_of_small small]
  -- The frame either cannot pay, and is as it was, or pays the price.
  by_cases short : evm.gasLeft < growthPrice evm.memory.length (touchedWords offset size)
  · exact .inl (if_pos short)
  · right
    refine ⟨_, if_neg short, ?_, Evm.grownTo_price (Nat.not_lt.mp short)⟩
    exact Evm.length_le_grownTo

/-- An abort is neither of the two. -/
theorem not_exactlyPriced_of_fault {cause : Fault}
    (aborts : touchMemory host offset size evm = .fault cause) :
    ¬ ExactlyPriced host offset size evm := by
  unfold ExactlyPriced
  rw [aborts]
  rintro (ended | ⟨after, ended, _⟩) <;> cases ended

/--
Memory growth is exactly priced in every build as long as the square of the words fits.

Otherwise the range must be empty, past the 64-bit range, or inside memory as it is.
-/
theorem exactlyPriced_iff (evm : Evm) (offset size : Nat) :
    (∀ host, ExactlyPriced host offset size evm) ↔
      size = 0 ∨ u64Max < offset + size + 31 ∨
        wordsFor (offset + size) ≤ evm.memory.length / 32 ∨
        wordsFor (offset + size) < 2 ^ 32 := by
  constructor
  · intro priced
    by_contra unsafeRange
    simp only [not_or, Nat.not_lt, Nat.not_le] at unsafeRange
    obtain ⟨nonempty, fits, grows, large⟩ := unsafeRange
    -- One build that checks its arithmetic is enough to tell.
    exact not_exactlyPriced_of_fault (touchMemory_of_checked nonempty fits grows large rfl)
      (priced (tableHost []))
  · intro safe host
    by_cases outside : u64Max < offset + size + 31 ∧ size ≠ 0
    · exact .inl (touchMemory_of_outside outside.2 outside.1)
    by_cases covered : touchedWords offset size ≤ evm.memory.length / 32
    · by_cases empty : size = 0
      · subst empty
        exact exactlyPriced_of_small (by decide : 0 < 2 ^ 32)
      · have fits : offset + size + 31 ≤ u64Max := by omega
        exact .inr ⟨evm, touchMemory_of_covered fits covered, Nat.le_refl _, rfl⟩
    · apply exactlyPriced_of_small
      unfold touchedWords at covered ⊢
      split at covered
      · exact absurd (Nat.zero_le _) covered
      · rename_i nonempty
        rw [if_neg nonempty]
        omega

/-- A build like the one of the table, but without overflow checks. -/
def wrappingHost : Host := { tableHost [] with overflowChecks := false }

/--
One word past 2^32 aborts a build with overflow checks, whatever the gas.

Without the checks the square wraps, and the growth costs less than a millionth of its price.
-/
theorem touchMemory_misprices :
    ¬ (∀ host, ExactlyPriced host (2 ^ 37) 32 (Evm.newWithGas [] u64Max)) ∧
      touchMemory (tableHost []) (2 ^ 37) 32 (Evm.newWithGas [] u64Max) =
        .fault .arithmeticOverflow ∧
      ∃ after, touchMemory wrappingHost (2 ^ 37) 32 (Evm.newWithGas [] u64Max) = .next () after ∧
        u64Max - after.gasLeft = 12901679107 ∧
        1000000 * 12901679107 < growthPrice 0 (2 ^ 32 + 1) := by
  have grows : (Evm.newWithGas [] u64Max).memory.length / 32 < wordsFor (2 ^ 37 + 32) := by decide
  have aborts : touchMemory (tableHost []) (2 ^ 37) 32 (Evm.newWithGas [] u64Max) =
      .fault .arithmeticOverflow :=
    touchMemory_of_checked (by decide) (by decide) grows (by decide) rfl
  refine ⟨fun priced => not_exactlyPriced_of_fault aborts (priced _), aborts, ?_⟩
  -- Both factors are 2^32 + 1, and their product wraps to 2^33 + 1.
  rw [touchMemory_of_growing (by decide) (by decide) grows]
  exact ⟨_, rfl, by decide, by decide⟩

end Touching

section Ranges

variable {host : Host} {evm : Evm} {ranges : List (Nat × Nat)} {length : Nat}

/-- The words that the ranges ask for when they are touched one by one. -/
def reach : List (Nat × Nat) → Nat
  | [] => 0
  | range :: ranges => max (touchedWords range.1 range.2) (reach ranges)

/-- The furthest end over the unbounded numbers, with the empty ranges counted. -/
def furthest (length : Nat) : List (Nat × Nat) → Nat
  | [] => length
  | range :: ranges => furthest (max length (range.1 + range.2)) ranges

/-- No range reaches further than the furthest one. -/
theorem reach_le {bound : Nat} :
    reach ranges ≤ bound ↔ ∀ range ∈ ranges, touchedWords range.1 range.2 ≤ bound := by
  induction ranges with
  | nil => simp [reach]
  | cons range rest ih => simp [reach, ih]

/-- The furthest end is the least that bounds memory and all ranges. -/
theorem furthest_le {bound : Nat} :
    furthest length ranges ≤ bound ↔
      length ≤ bound ∧ ∀ range ∈ ranges, range.1 + range.2 ≤ bound := by
  -- The running end takes one range in at a time.
  induction ranges generalizing length with
  | nil => simp [furthest]
  | cons range rest ih =>
    simp only [furthest, ih, List.forall_mem_cons, Nat.max_le, and_assoc]

/-- Memory does not reach past the furthest end. -/
theorem length_le_furthest : length ≤ furthest length ranges :=
  (furthest_le.mp (Nat.le_refl _)).1

/-- No range reaches past the furthest end. -/
theorem le_furthest (length : Nat) {range : Nat × Nat} (member : range ∈ ranges) :
    range.1 + range.2 ≤ furthest length ranges :=
  (furthest_le.mp (Nat.le_refl _)).2 range member

/-- As long as every end is a 64-bit number, the search finds the furthest one. -/
theorem requiredEnd_eq (fits : ∀ range ∈ ranges, range.1 + range.2 ≤ u64Max) :
    requiredEnd length ranges = some (furthest length ranges) := by
  induction ranges generalizing length with
  | nil => rfl
  | cons range rest ih =>
    -- The sum the search makes first is the one that the hypothesis bounds.
    have here := fits range (List.mem_cons_self ..)
    simp only [requiredEnd, checkedAdd, if_pos here, furthest]
    apply ih
    intro later member
    exact fits later (List.mem_cons_of_mem _ member)

/-- The checked cost of less than 2^32 words is their cost. -/
theorem checkedMemoryCost_of_small {words : Nat} (small : words < 2 ^ 32) :
    checkedMemoryCost words = some (memoryGas words) := by
  have total := memoryGas_le small
  have linear : words * 3 ≤ u64Max := by
    unfold memoryGas at total
    omega
  -- This form of the price has its factors the other way round.
  have same : memoryGas words = words * 3 + words * words / 512 := by
    unfold memoryGas
    omega
  rw [same] at total ⊢
  simp only [checkedMemoryCost, checkedMul, checkedAdd, if_pos linear, if_pos (square_le small),
    Option.bind_eq_bind, Option.bind_some, if_pos total]

/-- A further end takes more words. -/
theorem wordsFor_mono {near far : Nat} (le : near ≤ far) : wordsFor near ≤ wordsFor far :=
  Nat.div_le_div_right (Nat.add_le_add_right le 31)

/-- An end lies within so many words if it lies within their bytes. -/
theorem wordsFor_le {stop words : Nat} : wordsFor stop ≤ words ↔ stop ≤ words * 32 := by
  unfold wordsFor
  omega

/-- An end that takes less than 2^32 words can be rounded up. -/
theorem furthest_fits (small : wordsFor (furthest length ranges) < 2 ^ 32) :
    furthest length ranges + 31 ≤ u64Max := by
  unfold wordsFor at small
  unfold u64Max
  omega

/-- The furthest end is found without an overflow, if it takes less than 2^32 words. -/
theorem requiredEnd_of_small (small : wordsFor (furthest length ranges) < 2 ^ 32) :
    requiredEnd length ranges = some (furthest length ranges) := by
  have fits := furthest_fits small
  exact requiredEnd_eq fun range member => (le_furthest length member).trans (by omega)

/-- The words for an end reach it. -/
theorem le_wordsFor (stop : Nat) : stop ≤ wordsFor stop * 32 := wordsFor_le.mp (Nat.le_refl _)

/-- The two lengths are priced, and the price is their difference. -/
theorem memoryExpansionCost_of_small (small : wordsFor (furthest length ranges) < 2 ^ 32) :
    memoryExpansionCost length ranges =
      .ok (growthPrice length (wordsFor (furthest length ranges))) := by
  have longer : length ≤ furthest length ranges := length_le_furthest
  have shorter : length / 32 ≤ wordsFor (furthest length ranges) := by
    unfold wordsFor
    omega
  unfold memoryExpansionCost
  rw [requiredEnd_of_small small]
  by_cases nothing : furthest length ranges = 0
  · -- Nothing asks for memory, and there is none to price.
    have empty : length = 0 := by omega
    simp only [if_pos nothing]
    rw [nothing, empty]
    rfl
  · have rounded : (furthest length ranges + 31) / 32 = wordsFor (furthest length ranges) := rfl
    simp only [if_neg nothing, checkedAdd, if_pos (furthest_fits small), rounded,
      checkedMemoryCost_of_small small,
      checkedMemoryCost_of_small (Nat.lt_of_le_of_lt shorter small)]
    exact if_pos (memoryGas_mono shorter)

/-- Growing twice is growing to the larger of the two, at the price of the larger. -/
theorem Evm.grownTo_grownTo {few many : Nat} :
    (evm.grownTo few).grownTo many = evm.grownTo (max few many) := by
  -- The cases are which of the two steps grows memory at all.
  by_cases first : evm.memory.length / 32 < few
  · have grown : (evm.grownTo few).memory.length = few * 32 := by
      rw [grownTo, if_pos first]
      exact length_resize _ _
    by_cases second : few < many
    · have more := memoryGas_mono (Nat.le_of_lt first)
      have most := memoryGas_mono (Nat.le_of_lt second)
      -- The price of the first step is part of what both cost together.
      have price : evm.gasLeft - growthPrice evm.memory.length few - growthPrice (few * 32) many =
          evm.gasLeft - growthPrice evm.memory.length many := by
        unfold growthPrice
        rw [Nat.mul_div_cancel _ (by decide)]
        omega
      have longer : evm.memory.length ≤ few * 32 := by omega
      have again : resize (resize evm.memory (few * 32)) (many * 32) =
          resize evm.memory (many * 32) := resize_resize longer (by omega)
      rw [Nat.max_eq_right (Nat.le_of_lt second), grownTo, grown, Nat.mul_div_cancel _ (by decide),
        if_pos second]
      simp only [grownTo, if_pos first, if_pos (Nat.lt_trans first second), price, again]
    · -- The second length is the smaller one, and the first step reached it.
      have covered : many ≤ (evm.grownTo few).memory.length / 32 := by omega
      rw [grownTo_of_covered covered, Nat.max_eq_left (Nat.not_lt.mp second)]
  · have covered := Nat.not_lt.mp first
    rw [grownTo_of_covered covered]
    by_cases second : few ≤ many
    · rw [Nat.max_eq_right second]
    · have less := Nat.le_of_lt (Nat.not_le.mp second)
      rw [Nat.max_eq_left less, grownTo_of_covered covered,
        grownTo_of_covered (less.trans covered)]

/-- Whoever can pay for the larger length can pay for it in two steps. -/
theorem Evm.grownTo_affords {few many : Nat}
    (funded : growthPrice evm.memory.length (max few many) ≤ evm.gasLeft) :
    growthPrice (evm.grownTo few).memory.length many ≤ (evm.grownTo few).gasLeft := by
  have first := (growthPrice_mono (Nat.le_max_left few many)).trans funded
  have paid := grownTo_price first
  have most := memoryGas_mono (Nat.le_max_right few many)
  -- Gas and price together stay the same, so the step left is the difference to the larger length.
  unfold growthPrice at funded ⊢
  omega

/-- Touches one range after another. -/
def touchAll (host : Host) : List (Nat × Nat) → EvmM Unit
  | [] => pure ()
  | range :: ranges => do
    touchMemory host range.1 range.2
    touchAll host ranges

/-- Charges for all ranges at once and then grows over all of them. -/
def chargeAndExpand (ranges : List (Nat × Nat)) : EvmM Unit := do
  let evm ← get
  let expansionCost ← orVmError (memoryExpansionCost evm.memory.length ranges)
  charge expansionCost
  expandMemoryWithoutCharge ranges

/-- Touching range after range pays and grows as if the furthest had been touched alone. -/
theorem touchAll_of_small (small : ∀ range ∈ ranges, touchedWords range.1 range.2 < 2 ^ 32)
    (funded : growthPrice evm.memory.length (reach ranges) ≤ evm.gasLeft) :
    touchAll host ranges evm = .next () (evm.grownTo (reach ranges)) := by
  induction ranges generalizing evm with
  | nil => rw [reach, Evm.grownTo_of_covered (Nat.zero_le _)]; rfl
  | cons range rest ih =>
    -- The whole list costs at least what its first range does.
    have cheaper : growthPrice evm.memory.length (touchedWords range.1 range.2) ≤
        growthPrice evm.memory.length (reach (range :: rest)) :=
      growthPrice_mono (Nat.le_max_left ..)
    have enough := Nat.not_lt.mpr (cheaper.trans funded)
    have here : touchMemory host range.1 range.2 evm =
        .next () (evm.grownTo (touchedWords range.1 range.2)) := by
      rw [touchMemory_of_small (small range (List.mem_cons_self ..)), if_neg enough]
    -- What the first range leaves is enough for the rest.
    have remaining : touchAll host rest (evm.grownTo (touchedWords range.1 range.2)) =
        .next () ((evm.grownTo (touchedWords range.1 range.2)).grownTo (reach rest)) :=
      ih (fun later member => small later (List.mem_cons_of_mem _ member))
        (Evm.grownTo_affords funded)
    rw [touchAll, bind_of_next here, remaining, Evm.grownTo_grownTo]
    rfl

/-- Growing over all ranges reaches the furthest end, rounded up to whole words. -/
theorem expandMemory_of_small (known : evm.memory.length = length)
    (small : wordsFor (furthest length ranges) < 2 ^ 32) :
    expandMemoryWithoutCharge ranges evm =
      .next () { evm with
        memory := resize evm.memory (wordsFor (furthest length ranges) * 32) } := by
  have rounded : (furthest length ranges + 31) / 32 = wordsFor (furthest length ranges) := rfl
  unfold expandMemoryWithoutCharge
  rw [bind_of_next (get_apply evm), known, requiredEnd_of_small small]
  simp only [checkedAdd, if_pos (furthest_fits small), rounded, gt_iff_lt]
  by_cases longer : length < wordsFor (furthest length ranges) * 32
  · rw [if_pos longer]
    rfl
  · -- The furthest end is no shorter than memory, so memory ends there already.
    have least : length ≤ furthest length ranges := length_le_furthest
    have ends := le_wordsFor (furthest length ranges)
    have same : wordsFor (furthest length ranges) * 32 = evm.memory.length := by omega
    rw [if_neg longer, same, resize_length]
    rfl

/-- Charging for everything at once pays for the furthest end, an empty range's among them. -/
theorem chargeAndExpand_of_small (whole : evm.memory.length % 32 = 0)
    (small : wordsFor (furthest evm.memory.length ranges) < 2 ^ 32)
    (funded : growthPrice evm.memory.length (wordsFor (furthest evm.memory.length ranges)) ≤
      evm.gasLeft) :
    chargeAndExpand ranges evm =
      .next () (evm.grownTo (wordsFor (furthest evm.memory.length ranges))) := by
  have charged : charge (growthPrice evm.memory.length
      (wordsFor (furthest evm.memory.length ranges))) evm = .next () (evm.spend _) :=
    charge_of_enough funded
  have kept : (evm.spend (growthPrice evm.memory.length
      (wordsFor (furthest evm.memory.length ranges)))).memory.length = evm.memory.length := rfl
  unfold chargeAndExpand
  rw [bind_of_next (get_apply evm), memoryExpansionCost_of_small small]
  show (charge _ >>= fun _ => expandMemoryWithoutCharge ranges) evm = _
  -- The charge leaves memory alone, so growing starts from the length that was priced.
  rw [bind_of_next charged, expandMemory_of_small kept small]
  by_cases grows : evm.memory.length / 32 < wordsFor (furthest evm.memory.length ranges)
  · rw [Evm.grownTo, if_pos grows]
    rfl
  · have least : evm.memory.length ≤ furthest evm.memory.length ranges := length_le_furthest
    have ends := le_wordsFor (furthest evm.memory.length ranges)
    have same : wordsFor (furthest evm.memory.length ranges) * 32 = evm.memory.length := by omega
    rw [Evm.grownTo, if_neg grows, growthPrice_of_covered (Nat.not_lt.mp grows), same]
    show Tree.next () { evm with memory := resize evm.memory evm.memory.length } = _
    rw [resize_length]

/-- The two forms agree when no empty range lies past what the others and memory come to. -/
theorem wordsFor_furthest (whole : length % 32 = 0)
    (inside : ∀ range ∈ ranges, range.2 = 0 → wordsFor range.1 ≤ max (length / 32) (reach ranges)) :
    wordsFor (furthest length ranges) = max (length / 32) (reach ranges) := by
  have longer : length ≤ furthest length ranges := length_le_furthest
  apply Nat.le_antisymm
  · -- Every end lies inside the words asked for, those of the empty ranges by assumption.
    rw [wordsFor_le, furthest_le]
    refine ⟨by omega, fun range member => ?_⟩
    rw [← wordsFor_le]
    by_cases empty : range.2 = 0
    · rw [empty]
      exact inside range member empty
    · have touched := reach_le.mp (Nat.le_refl (reach ranges)) range member
      rw [touchedWords, if_neg empty] at touched
      exact touched.trans (Nat.le_max_right ..)
  · -- The furthest end is no nearer than memory or than any range that is touched.
    rw [Nat.max_le, reach_le]
    constructor
    · unfold wordsFor
      omega
    · intro range member
      unfold touchedWords
      split
      · exact Nat.zero_le _
      · exact wordsFor_mono (le_furthest length member)

/-- Once the checked form completes, memory reaches up to the offset of every empty range. -/
theorem covers_of_chargeAndExpand {after : Evm}
    (completes : chargeAndExpand ranges evm = .next () after) :
    ∀ range ∈ ranges, range.1 + range.2 ≤ after.memory.length := by
  -- Only the growing itself says anything of memory, and it comes last.
  have calm : Calm (fun _ => True) evm (chargeAndExpand ranges) fun _ final =>
      ∀ range ∈ ranges, range.1 + range.2 ≤ final.memory.length := by
    refine Calm.get.bind fun _ _ _ _ => (calm_orVmError _).bind fun _ _ _ _ => ?_
    refine (calm_charge _).bind fun _ _ _ _ => ?_
    exact (calm_expandMemory ranges).weaken fun _ _ _ ends => ends.1
  unfold Calm Meets at calm
  rw [completes] at calm
  exact calm.2

/--
The two forms of growing memory agree exactly when no empty range starts past the rest.

The checked form takes an empty range for the end it starts at, and touching takes it for nothing.
-/
theorem chargeAndExpand_eq_touchAll_iff (host : Host) (evm : Evm) (ranges : List (Nat × Nat))
    (whole : evm.memory.length % 32 = 0) (short : evm.memory.length / 32 < 2 ^ 32)
    (small : ∀ range ∈ ranges, touchedWords range.1 range.2 < 2 ^ 32)
    (funded : growthPrice evm.memory.length (reach ranges) ≤ evm.gasLeft) :
    (∃ after, chargeAndExpand ranges evm = .next () after ∧
        touchAll host ranges evm = .next () after) ↔
      ∀ range ∈ ranges, range.2 = 0 →
        wordsFor range.1 ≤ max (evm.memory.length / 32) (reach ranges) := by
  have touched : touchAll host ranges evm = .next () (evm.grownTo (reach ranges)) :=
    touchAll_of_small small funded
  constructor
  · intro ⟨after, completes, same⟩ range member empty
    -- The checked form covers the empty range, so touching must have done so too.
    have covered := covers_of_chargeAndExpand completes range member
    rw [touched] at same
    cases same
    rw [Evm.length_grownTo whole, empty] at covered
    exact wordsFor_le.mpr covered
  · intro inside
    have stop := wordsFor_furthest whole inside
    have reached : reach ranges < 2 ^ 32 :=
      Nat.lt_of_le_of_lt (reach_le.mpr fun range member => Nat.le_pred_of_lt (small range member))
        (by decide)
    have price : growthPrice evm.memory.length (max (evm.memory.length / 32) (reach ranges)) =
        growthPrice evm.memory.length (reach ranges) := growthPrice_max
    -- Both grow to the same number of words at the same price.
    refine ⟨_, ?_, touched⟩
    rw [chargeAndExpand_of_small whole, stop, ← Evm.grownTo_grownTo,
      Evm.grownTo_of_covered (Nat.le_refl _)]
    · rw [stop]
      exact Nat.max_lt.mpr ⟨short, reached⟩
    · rw [stop, price]
      exact funded

/-- An empty range that starts where the other one's last word ends makes no difference. -/
theorem chargeAndExpand_eq_touchAll :
    ∃ after, chargeAndExpand [(0, 40), (64, 0)] (Evm.newWithGas [] 100) = .next () after ∧
      touchAll (tableHost []) [(0, 40), (64, 0)] (Evm.newWithGas [] 100) = .next () after :=
  (chargeAndExpand_eq_touchAll_iff (tableHost []) (Evm.newWithGas [] 100) [(0, 40), (64, 0)]
    (by decide) (by decide) (by decide) (by decide)).mpr (by decide)

/-- An empty range on its own is free when touched, and costs two words in the checked form. -/
theorem chargeAndExpand_ne_touchAll :
    touchAll (tableHost []) [(64, 0)] (Evm.newWithGas [] 100) =
        .next () (Evm.newWithGas [] 100) ∧
      chargeAndExpand [(64, 0)] (Evm.newWithGas [] 100) =
        .next () { Evm.newWithGas [] 94 with memory := List.replicate 64 0 } ∧
      ¬ ∃ after, chargeAndExpand [(64, 0)] (Evm.newWithGas [] 100) = .next () after ∧
        touchAll (tableHost []) [(64, 0)] (Evm.newWithGas [] 100) = .next () after := by
  -- The ends are computed, and they differ both in gas and in memory.
  have free : touchAll (tableHost []) [(64, 0)] (Evm.newWithGas [] 100) =
    .next () (Evm.newWithGas [] 100) := rfl
  have charged : chargeAndExpand [(64, 0)] (Evm.newWithGas [] 100) =
    .next () { Evm.newWithGas [] 94 with memory := List.replicate 64 0 } := rfl
  refine ⟨free, charged, ?_⟩
  intro ⟨after, expanded, touched⟩
  rw [charged] at expanded
  rw [free] at touched
  cases expanded
  cases touched

end Ranges

end MiniEvm
