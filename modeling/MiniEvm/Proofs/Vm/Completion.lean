import MiniEvm.Proofs.Vm.Expansion

/-! Handlers reach their ends when operands, gas and memory are there. -/

namespace MiniEvm

open EvmM Frames Frames.Program

variable {evm : Evm}

/-- Nothing but the stack differs. -/
def StackOnly (before after : Evm) : Prop := after = { before with stack := after.stack }

namespace StackOnly

variable {a b c : Evm}

/-- Nothing but the stack changes where nothing does. -/
theorem refl (evm : Evm) : StackOnly evm evm := rfl

/-- Changes of the stack may follow each other. -/
theorem trans (first : StackOnly a b) (second : StackOnly b c) : StackOnly a c := by
  -- The second stack is the one that counts.
  unfold StackOnly at first second ⊢
  rw [second, first]

/-- Whatever does not look at the stack reads the same. -/
theorem read {γ : Type} (only : StackOnly a b) (field : Evm → γ)
    (blind : ∀ evm stack, field { evm with stack } = field evm) : field b = field a := by
  unfold StackOnly at only
  rw [only, blind]

/-- Changes of the stack leave the memory alone. -/
theorem memory (only : StackOnly a b) : b.memory = a.memory :=
  only.read Evm.memory fun _ _ => rfl

/-- Changes of the stack leave the gas alone. -/
theorem gasLeft (only : StackOnly a b) : b.gasLeft = a.gasLeft :=
  only.read Evm.gasLeft fun _ _ => rfl

end StackOnly

/-- Popping completes as long as there is something on the stack. -/
theorem completes_pop (underflow : ExecutionResult) {value : Word} {rest : List Word}
    (operand : evm.stack.data = value :: rest) :
    (pop underflow).Completes evm fun popped after =>
      popped = value ∧ StackOnly evm after ∧ after.stack.data = rest := by
  obtain ⟨stack, ended, data⟩ := pop_of_cons underflow operand
  exact ⟨value, _, ended, rfl, rfl, data⟩

/-- Pushing completes as long as the stack has room. -/
theorem completes_push (value : Word) (overflow : ExecutionResult)
    (room : evm.stack.data.length < 1024) :
    (push value overflow).Completes evm fun _ after =>
      StackOnly evm after ∧ after.stack.data = value :: evm.stack.data := by
  -- The test for room is the only thing that could fail.
  have ended : push value overflow evm = .next ()
      { evm with stack := ⟨value :: evm.stack.data, room⟩ } := by
    simp only [push, bind_apply, get_apply, Tree.bind, Stack.push, Nat.not_le.mpr room, dif_neg,
      not_false_eq_true, modify_apply]
  exact ⟨(), _, ended, rfl, rfl⟩

/-- A price that is there is paid. -/
theorem completes_charge {cost : Nat} (enough : cost ≤ evm.gasLeft) :
    (charge cost).Completes evm fun _ after => after = evm.spend cost :=
  -- What is taken is there.
  ⟨(), _, charge_of_enough enough, rfl⟩

/-- A success goes on with its value. -/
theorem completes_orVmError (value : Nat) :
    (orVmError (.ok value)).Completes evm fun result after => result = value ∧ after = evm :=
  Completes.pure ⟨rfl, rfl⟩

/-- A word in range goes on as its number. -/
theorem completes_toUsize {word : Word} (fits : word.toNat ≤ u64Max) :
    (toUsize word).Completes evm fun size after => size = word.toNat ∧ after = evm := by
  -- The conversion tests for just this.
  unfold toUsize toU64
  rw [if_pos fits]
  exact Completes.pure ⟨rfl, rfl⟩

/-- A range inside the memory is read. -/
theorem completes_readMemory {start stop : Nat} (ordered : start ≤ stop)
    (inside : stop ≤ evm.memory.length) :
    (readMemory start stop).Completes evm fun bytes after =>
      bytes = slice evm.memory start stop ∧ after = evm := by
  -- Both bounds are tested when memory is sliced.
  have ended : readMemory start stop evm = .next (slice evm.memory start stop) evm := by
    simp only [readMemory, bind_apply, get_apply, Tree.bind, if_pos (And.intro ordered inside)]
    rfl
  exact ⟨_, _, ended, rfl, rfl⟩

/-- A range inside the memory is written over. -/
theorem completes_writeMemory {offset : Nat} {source : Bytes}
    (inside : offset + source.length ≤ evm.memory.length) :
    (writeMemory offset source).Completes evm fun _ after =>
      after = { evm with memory := overwrite evm.memory offset source } := by
  -- One test guards the whole write.
  have ended : writeMemory offset source evm =
      .next () { evm with memory := overwrite evm.memory offset source } := by
    simp only [writeMemory, bind_apply, get_apply, Tree.bind, if_pos inside]
    rfl
  exact ⟨_, _, ended, rfl⟩

/-- Memory grows to the furthest end, if that takes less than 2^32 words. -/
theorem completes_expandMemory {ranges : List (Nat × Nat)}
    (small : wordsFor (furthest evm.memory.length ranges) < 2 ^ 32) :
    (expandMemoryWithoutCharge ranges).Completes evm fun _ after =>
      after = { evm with
        memory := resize evm.memory (wordsFor (furthest evm.memory.length ranges) * 32) } :=
  ⟨(), _, expandMemory_of_small rfl small, rfl⟩

/-- The price of a copy is found as long as it is a 64-bit number. -/
theorem calcCopyGas_eq (size : Word) : calcCopyGas size =
    if wordsFor size.toNat * 3 ≤ u64Max then .ok (wordsFor size.toNat * 3) else .error .overflow := by
  unfold calcCopyGas
  -- The two tests before the last one only ever fail where that fails, too.
  by_cases fits : wordsFor size.toNat * 3 ≤ u64Max
  · have near : wordsFor size.toNat ≤ u64Max := by omega
    have small : size.toNat + 31 < 2 ^ 256 := by
      unfold wordsFor u64Max at fits
      omega
    rw [if_pos fits, if_pos small]
    simp only [show (size.toNat + 31) / 32 = wordsFor size.toNat from rfl, if_pos near, checkedMul]
    rw [if_pos fits]
  · rw [if_neg fits]
    split
    · simp only [show (size.toNat + 31) / 32 = wordsFor size.toNat from rfl, checkedMul,
        if_neg fits]
      split <;> rfl
    · rfl

section Deliveries

/-- A charge takes some of the gas, and can be paid if there is enough. -/
theorem delivers_charge (cost : Nat) :
    (charge cost).Delivers evm (cost ≤ evm.gasLeft) fun _ after => after = evm.spend cost := by
  constructor
  · intro _ after ended
    by_cases enough : cost ≤ evm.gasLeft
    · rw [charge_of_enough enough] at ended
      cases ended
      rfl
    · -- Too little gas ends the frame.
      simp only [charge, bind_apply, get_apply, Tree.bind, if_pos (Nat.not_le.mp enough)] at ended
      cases ended
  · exact fun enough => ⟨(), _, charge_of_enough enough⟩

/-- So does the charge of a sum, if that is a 64-bit number. -/
theorem delivers_chargeSum (first second third : Nat) :
    (chargeSum first second third).Delivers evm
      (first + second + third ≤ evm.gasLeft ∧ first + second + third ≤ u64Max)
      fun _ after => ∃ cost, after = evm.spend cost := by
  constructor
  · intro _ after ended
    -- Without a 64-bit sum there is nothing to charge.
    unfold chargeSum at ended
    cases both : (checkedAdd first second).bind fun cost => checkedAdd cost third with
    | none =>
      rw [both] at ended
      cases ended
    | some totalCost =>
      rw [both] at ended
      exact ⟨_, (delivers_charge totalCost).yields _ _ ended⟩
  · rintro ⟨enough, fits⟩
    have both : (checkedAdd first second).bind (fun cost => checkedAdd cost third) =
        some (first + second + third) := by
      have less : first + second ≤ u64Max := by omega
      simp only [checkedAdd, if_pos less, Option.bind_some, if_pos fits]
    unfold chargeSum
    rw [both]
    exact ⟨(), _, charge_of_enough enough⟩

/-- Going on with a value needs one. -/
theorem delivers_orVmError (attempt : Except VmError Nat) :
    (orVmError attempt).Delivers evm (∃ value, attempt = .ok value)
      fun value after => attempt = .ok value ∧ after = evm := by
  -- An error ends the frame, and a value is handed on.
  cases attempt with
  | ok value => exact (completes_orVmError value).weaken (by simp) |>.delivers
  | error error =>
    refine ⟨fun _ _ ended => (by cases ended), ?_⟩
    rintro ⟨_, impossible⟩
    cases impossible

/-- The frame once its memory covers all ranges, with so much gas left. -/
def Evm.covering (evm : Evm) (ranges : List (Nat × Nat)) (gas : Nat) : Evm :=
  { evm with
    gasLeft := gas
    memory := resize evm.memory (wordsFor (furthest evm.memory.length ranges) * 32) }

/-- Memory that covers the ranges already stays as it is. -/
theorem Evm.covering_of_covered {ranges : List (Nat × Nat)}
    (covered : wordsFor (furthest evm.memory.length ranges) * 32 = evm.memory.length) :
    evm.covering ranges evm.gasLeft = evm := by
  unfold covering
  rw [covered, resize_length]

/-- The only range past memory is where the furthest end is. -/
theorem furthest_singleton (length offset size : Nat) :
    furthest length [(offset, size)] = max length (offset + size) := rfl

/-- What is looked at to price memory does not change the frame. -/
theorem yields_uncheckedU64 (host : Host) (result : Nat) :
    (uncheckedU64 host result).Yields evm fun _ after => after = evm := by
  unfold uncheckedU64
  split
  · exact Yields.pure rfl
  · split
    · exact fun _ _ ended => by cases ended
    · exact Yields.pure rfl

/-- The cost of a memory leaves the frame alone. -/
theorem yields_memoryCost (host : Host) (words : Nat) :
    (memoryCost host words).Yields evm fun _ after => after = evm := by
  -- Each of the three operations may abort, and none changes the frame.
  unfold memoryCost
  refine Yields.bind (yields_uncheckedU64 host _) fun _ _ same => ?_
  subst same
  refine Yields.bind (yields_uncheckedU64 host _) fun _ _ same => ?_
  subst same
  exact yields_uncheckedU64 host _

/-- A difference of costs leaves the frame alone. -/
theorem yields_uncheckedSub (host : Host) (a b : Nat) :
    (uncheckedSub host a b).Yields evm fun _ after => after = evm := by
  unfold uncheckedSub
  split
  · exact Yields.pure rfl
  · split
    · exact fun _ _ ended => by cases ended
    · exact Yields.pure rfl

/--
Touching a range makes memory cover it, whatever the build does with its price.

It can be paid for if there is gas for the exact price and no square leaves the 64-bit range.
-/
theorem delivers_touchMemory (host : Host) {offset size : Nat} (nonempty : 0 < size)
    (whole : evm.memory.length % 32 = 0) :
    (touchMemory host offset size).Delivers evm
      (wordsFor (furthest evm.memory.length [(offset, size)]) < 2 ^ 32 ∧
        growthPrice evm.memory.length (wordsFor (furthest evm.memory.length [(offset, size)])) ≤
          evm.gasLeft)
      fun _ after => ∃ gas, after = evm.covering [(offset, size)] gas := by
  have some_ : size ≠ 0 := Nat.ne_of_gt nonempty
  constructor
  · -- A range is priced out, or is covered already, or makes memory grow.
    by_cases outside : u64Max < offset + size + 31
    · intro _ after ended
      rw [touchMemory_of_outside some_ outside] at ended
      cases ended
    by_cases covered : wordsFor (offset + size) ≤ evm.memory.length / 32
    · have inside : touchedWords offset size ≤ evm.memory.length / 32 := by
        rw [touchedWords, if_neg some_]
        exact covered
      refine Yields.of_eq (touchMemory_of_covered (Nat.not_lt.mp outside) inside) ?_
      refine Yields.pure ⟨evm.gasLeft, (Evm.covering_of_covered ?_).symm⟩
      rw [furthest_singleton]
      unfold wordsFor at covered ⊢
      omega
    · -- The price is charged, whatever it came to, and memory grows.
      have grows := Nat.not_le.mp covered
      have grown : wordsFor (furthest evm.memory.length [(offset, size)]) =
          wordsFor (offset + size) := by
        rw [furthest_singleton]
        unfold wordsFor at grows ⊢
        omega
      refine Yields.of_eq (touchMemory_of_growing some_ (Nat.not_lt.mp outside) grows) ?_
      refine Yields.bind (yields_memoryCost host _) fun _ mid same => ?_
      subst same
      refine Yields.bind (yields_memoryCost host _) fun _ mid same => ?_
      subst same
      refine Yields.bind (yields_uncheckedSub host _ _) fun _ mid same => ?_
      subst same
      refine Yields.bind (delivers_charge _).yields fun _ mid charged => ?_
      subst charged
      intro _ final stands
      cases stands
      unfold Evm.covering
      rw [grown]
      exact ⟨_, rfl⟩
  · rintro ⟨small, funded⟩
    -- The exact price of the range is no more than that of the furthest end.
    have price : growthPrice evm.memory.length (touchedWords offset size) ≤
        growthPrice evm.memory.length (wordsFor (furthest evm.memory.length [(offset, size)])) := by
      rw [touchedWords, if_neg some_]
      exact growthPrice_mono (wordsFor_mono (Nat.le_max_right _ _))
    have less : touchedWords offset size < 2 ^ 32 := by
      rw [touchedWords, if_neg some_]
      exact Nat.lt_of_le_of_lt (wordsFor_mono (Nat.le_max_right _ _)) small
    rw [touchMemory_of_small less, if_neg (Nat.not_lt.mpr (price.trans funded))]
    exact ⟨(), _, rfl⟩

/-- The search for the furthest end finds it, if it finds any. -/
theorem furthest_of_requiredEnd {length required : Nat} {ranges : List (Nat × Nat)}
    (found : requiredEnd length ranges = some required) : required = furthest length ranges := by
  -- As long as every sum fits, the search keeps the larger of the two ends.
  induction ranges generalizing length with
  | nil => exact (Option.some.inj found).symm
  | cons range rest ih =>
    obtain ⟨offset, size⟩ := range
    simp only [requiredEnd] at found
    cases sum : checkedAdd offset size with
    | none =>
      rw [sum] at found
      cases found
    | some stop =>
      rw [sum] at found
      obtain ⟨rfl, _⟩ := checkedAdd_eq_some sum
      exact ih found

/-- Growing without a charge covers the ranges, and does so as long as the ends are not too far. -/
theorem delivers_expandMemory (ranges : List (Nat × Nat)) :
    (expandMemoryWithoutCharge ranges).Delivers evm
      (wordsFor (furthest evm.memory.length ranges) < 2 ^ 32)
      fun _ after => after = evm.covering ranges evm.gasLeft := by
  constructor
  · intro _ after ended
    unfold expandMemoryWithoutCharge at ended
    rw [bind_of_next (get_apply evm)] at ended
    cases found : requiredEnd evm.memory.length ranges with
    | none =>
      rw [found] at ended
      cases ended
    | some required =>
      obtain rfl := furthest_of_requiredEnd found
      have least : evm.memory.length ≤ furthest evm.memory.length ranges := length_le_furthest
      cases padded : checkedAdd (furthest evm.memory.length ranges) 31 with
      | none =>
        simp only [found, padded] at ended
        cases ended
      | some rounded =>
        simp only [found, padded] at ended
        obtain ⟨rfl, _⟩ := checkedAdd_eq_some padded
        -- Memory grows only if it is not long enough yet.
        split at ended
        · cases ended
          rfl
        · rename_i covered
          cases ended
          refine (Evm.covering_of_covered ?_).symm
          unfold wordsFor
          omega
  · exact fun small => ⟨(), _, expandMemory_of_small rfl small⟩

end Deliveries

end MiniEvm
