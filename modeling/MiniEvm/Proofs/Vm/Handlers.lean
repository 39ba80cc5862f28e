import MiniEvm.Proofs.Data.Word
import MiniEvm.Proofs.Vm.Quiet

/-! Which handlers are quiet, stay inside their buffers, and pay for themselves. -/

namespace MiniEvm

open EvmM Frames Frames.Program

variable {α β : Type}

/-- The only abort of handlers that stay inside their buffers: an overflow that the build checks. -/
inductive CheckedOverflow (host : Host) : Fault → Prop
  | overflow : host.overflowChecks = true → CheckedOverflow host .arithmeticOverflow

section Growth

variable {onFault : Fault → Prop} {evm : Evm} {host : Host}

/-- Unchecked arithmetic leaves the frame alone, and aborts only in a build that checks. -/
theorem calm_uncheckedU64 (allowed : host.overflowChecks = true → onFault .arithmeticOverflow) (result : Nat) :
    Calm onFault evm (uncheckedU64 host result) fun _ after => after = evm := by
  unfold uncheckedU64
  -- In range, or out of range in one of the two builds.
  split
  · exact Calm.pure rfl
  · split
    · rename_i checks
      exact Calm.fault (allowed checks)
    · exact Calm.pure rfl

/-- An unchecked subtraction leaves the frame alone, and aborts only in a build that checks. -/
theorem calm_uncheckedSub (allowed : host.overflowChecks = true → onFault .arithmeticOverflow) (a b : Nat) :
    Calm onFault evm (uncheckedSub host a b) fun _ after => after = evm := by
  unfold uncheckedSub
  split
  · exact Calm.pure rfl
  · split
    · rename_i checks
      exact Calm.fault (allowed checks)
    · exact Calm.pure rfl

/-- The cost of a memory leaves the frame alone, and aborts only in a build that checks. -/
theorem calm_memoryCost (allowed : host.overflowChecks = true → onFault .arithmeticOverflow) (words : Nat) :
    Calm onFault evm (memoryCost host words) fun _ after => after = evm := by
  -- Three unchecked results in a row, none of which touches the frame.
  refine (calm_uncheckedU64 allowed _).bind fun linear mid _ same => ?_
  subst same
  refine (calm_uncheckedU64 allowed _).bind fun square mid _ same => ?_
  subst same
  exact calm_uncheckedU64 allowed _

/--
Touching a range that is not empty makes memory cover it.

An empty range leaves the frame alone wherever it lies, which is why it says nothing about memory.
-/
theorem calm_touchMemory (allowed : host.overflowChecks = true → onFault .arithmeticOverflow) (offset size : Nat) :
    Calm onFault evm (touchMemory host offset size) fun _ after =>
      (size ≠ 0 → offset + size ≤ after.memory.length) ∧ (size = 0 → after = evm) ∧
        evm.memory.length ≤ after.memory.length ∧ after.stack = evm.stack := by
  unfold touchMemory
  -- Every range that leaves the 64-bit range ends the frame before memory is looked at.
  by_cases empty : size = 0
  · simp only [empty, if_true]
    exact Calm.pure ⟨fun nonempty => absurd rfl nonempty, fun _ => rfl, Nat.le_refl _, rfl⟩
  · simp only [empty, if_false]
    cases sum : checkedAdd offset size with
    | none => exact Calm.exit
    | some endBytes =>
      obtain ⟨rfl, _⟩ := checkedAdd_eq_some sum
      simp only
      cases padded : checkedAdd (offset + size) 31 with
      | none => exact Calm.exit
      | some roundedEnd =>
        obtain ⟨rfl, _⟩ := checkedAdd_eq_some padded
        refine Calm.get_bind ?_
        split
        · -- Memory grows to a whole number of words past the end of the range.
          rename_i grows
          refine (calm_memoryCost allowed _).bind fun costNew mid _ same => ?_
          subst same
          refine (calm_memoryCost allowed _).bind fun costOld mid _ same => ?_
          subst same
          refine (calm_uncheckedSub allowed _ _).bind fun cost mid _ same => ?_
          subst same
          refine (calm_charge cost).bind fun _ mid _ paid => ?_
          obtain ⟨_, rfl⟩ := paid
          refine (Calm.modify ?_).weaken fun _ after _ same => ?_
          · constructor <;> rfl
          · subst same
            refine ⟨fun _ => ?_, fun never => never.elim, ?_, rfl⟩ <;>
              simp only [length_resize] <;> omega
        · exact Calm.pure ⟨fun _ => by omega, fun never => never.elim, Nat.le_refl _, rfl⟩

/-- The furthest end reaches past memory and past every range. -/
theorem requiredEnd_covers {length required : Nat} {ranges : List (Nat × Nat)}
    (found : requiredEnd length ranges = some required) :
    length ≤ required ∧ ∀ range ∈ ranges, range.1 + range.2 ≤ required := by
  -- The running end only grows along the list.
  induction ranges generalizing length with
  | nil =>
    simp only [requiredEnd, Option.some.injEq] at found
    simp [found]
  | cons range rest ih =>
    obtain ⟨offset, size⟩ := range
    simp only [requiredEnd] at found
    cases sum : checkedAdd offset size with
    | none => simp [sum] at found
    | some stop =>
      obtain ⟨rfl, _⟩ := checkedAdd_eq_some sum
      simp only [sum] at found
      obtain ⟨longer, covered⟩ := ih found
      refine ⟨by omega, ?_⟩
      intro range member
      rcases List.mem_cons.mp member with rfl | later
      · show offset + size ≤ required
        omega
      · exact covered range later

/-- Expanding makes memory cover every range, an empty one up to its offset. -/
theorem calm_expandMemory (ranges : List (Nat × Nat)) :
    Calm onFault evm (expandMemoryWithoutCharge ranges) fun _ after =>
      (∀ range ∈ ranges, range.1 + range.2 ≤ after.memory.length) ∧
        after.gasLeft = evm.gasLeft ∧ after.stack = evm.stack := by
  -- The ends are rounded up, so they cover what they covered before.
  refine Calm.get_bind ?_
  cases found : requiredEnd evm.memory.length ranges with
  | none => exact Calm.exit
  | some required =>
    obtain ⟨longer, covered⟩ := requiredEnd_covers found
    cases padded : checkedAdd required 31 with
    | none => simp only [padded]; exact Calm.exit
    | some rounded =>
      obtain ⟨rfl, _⟩ := checkedAdd_eq_some padded
      simp only [padded]
      split
      · refine (Calm.modify ?_).weaken fun _ after _ same => ?_
        · constructor <;> rfl
        · subst same
          refine ⟨fun range member => ?_, rfl, rfl⟩
          have := covered range member
          simp only [length_resize]
          omega
      · -- Memory is long enough as it is.
        refine Calm.pure ⟨fun range member => ?_, rfl, rfl⟩
        have := covered range member
        omega

/-- A sum of prices is charged as one. -/
theorem calm_chargeSum (first second third : Nat) :
    Calm onFault evm (chargeSum first second third) fun _ after =>
      first + second + third ≤ evm.gasLeft ∧
        after = { evm with gasLeft := evm.gasLeft - (first + second + third) } := by
  -- A sum in range is the plain sum, and a sum out of range ends the frame.
  unfold chargeSum
  cases partial_ : checkedAdd first second with
  | none => exact Calm.exit
  | some cost =>
    obtain ⟨rfl, _⟩ := checkedAdd_eq_some partial_
    simp only [Option.bind_some]
    cases total : checkedAdd (first + second) third with
    | none => exact Calm.exit
    | some cost =>
      obtain ⟨rfl, _⟩ := checkedAdd_eq_some total
      exact calm_charge _

/-- A copy is charged what its size costs. -/
theorem calm_chargeCopy (sizeWord : Word) :
    Calm onFault evm (chargeCopy sizeWord) fun _ after =>
      ∃ cost, calcCopyGas sizeWord = .ok cost ∧ cost ≤ evm.gasLeft ∧
        after = { evm with gasLeft := evm.gasLeft - cost } := by
  unfold chargeCopy
  -- A size without a price ends the frame.
  cases calcCopyGas sizeWord with
  | ok cost => exact (calm_charge cost).weaken fun _ after _ paid => ⟨cost, rfl, paid⟩
  | error error => exact Calm.exit

/-- Only a frame that may modify something gets past this check. -/
theorem calm_requireMutable : Calm onFault evm requireMutable
    fun _ after => evm.isStatic = false ∧ after = evm := by
  -- Both outcomes leave the frame as it is.
  refine Calm.get_bind ?_
  cases frozen : evm.isStatic with
  | false => exact Calm.pure ⟨rfl, rfl⟩
  | true => exact Calm.exit

/-- Topics are popped in their order, and nothing else changes. -/
theorem calm_popTopics (count : Nat) : Calm onFault evm (popTopics count)
    fun topics after => topics.length = count ∧ evm.stack.data = topics ++ after.stack.data ∧
      after.memory = evm.memory ∧ after.gasLeft = evm.gasLeft := by
  -- Each round takes one topic off the front of what is left.
  induction count generalizing evm with
  | zero => exact Calm.pure ⟨rfl, rfl, rfl, rfl⟩
  | succ count ih =>
    refine (calm_pop _).bind fun topic mid _ popped => ?_
    refine ih.bind fun topics last _ rest => ?_
    obtain ⟨length, stack, memory, gas⟩ := rest
    refine Calm.pure ⟨by simp [length], ?_, memory.trans popped.2.1, gas.trans popped.2.2⟩
    rw [popped.1, stack, List.cons_append]

/-- The gas of a log, when it is in range, is the plain sum. -/
theorem logGas_eq_some {topicCount size gas : Nat} (priced : logGas topicCount size = some gas) :
    gas = 375 + 375 * topicCount + size * 8 := by
  -- None of the checked operations changed the value they were checked for.
  unfold logGas at priced
  simp only [Option.bind_eq_bind, Option.bind_eq_some_iff] at priced
  obtain ⟨dataGas, data, base, topics, total⟩ := priced
  obtain ⟨rfl, _⟩ := checkedAdd_eq_some total
  obtain ⟨rfl, _⟩ := checkedAdd_eq_some topics
  unfold checkedMul at data
  split at data
  · cases data
    omega
  · simp at data

end Growth

/-- From every state the handler is quiet and stays inside its buffers. -/
def Tame (host : Host) (handler : EvmM α) : Prop :=
  ∀ evm, Calm (CheckedOverflow host) evm handler fun _ _ => True

/-- A tame handler that only reaches its end after paying some gas. -/
def Burns (host : Host) (handler : EvmM α) : Prop :=
  ∀ evm, Calm (CheckedOverflow host) evm handler fun _ after => after.gasLeft < evm.gasLeft

section Composition

variable {host : Host}

namespace Tame

/-- Tame handlers may follow each other. -/
theorem bind {first : EvmM α} {rest : α → EvmM β} (head : Tame host first)
    (tail : ∀ value, Tame host (rest value)) : Tame host (first >>= rest) :=
  fun evm => (head evm).bind fun value mid _ _ => tail value mid

/-- What follows a tame handler may be the part that pays. -/
theorem bind_burns {first : EvmM α} {rest : α → EvmM β} (head : Tame host first)
    (tail : ∀ value, Burns host (rest value)) : Burns host (first >>= rest) := by
  -- The first part gave no gas back before the second part paid.
  intro evm
  refine (head evm).bind fun value mid quiet _ => ?_
  exact (tail value mid).weaken fun _ after _ paid => Nat.lt_of_lt_of_le paid quiet.gas

/-- A result is tame. -/
theorem pure (value : α) : Tame host (pure value) := fun _ => Calm.pure trivial

/-- An end is tame. -/
theorem exit (result : ExecutionResult) [Stops result] :
    Tame host (Frames.Program.exit result : EvmM α) := fun _ => Calm.exit

/-- Looking at the frame is tame. -/
theorem get : Tame host (Frames.Program.get : EvmM Evm) := fun _ => Calm.get.weaken fun _ _ _ _ => trivial

/-- The stack is popped in every frame without an abort. -/
theorem pop (underflow : ExecutionResult) [Stops underflow] : Tame host (pop underflow) :=
  fun _ => (calm_pop underflow).weaken fun _ _ _ _ => trivial

/-- It is pushed in every frame, too. -/
theorem push (value : Word) (overflow : ExecutionResult) [Stops overflow] :
    Tame host (push value overflow) :=
  fun _ => (calm_push value overflow).weaken fun _ _ _ _ => trivial

/-- A word out of range ends the frame. -/
theorem toUsize (word : Word) : Tame host (toUsize word) :=
  fun _ => (calm_toUsize word).weaken fun _ _ _ _ => trivial

/-- A failed attempt ends the frame. -/
theorem orVmError (attempt : Except VmError Nat) : Tame host (orVmError attempt) :=
  fun _ => (calm_orVmError attempt).weaken fun _ _ _ _ => trivial

/-- Marks cost nothing by themselves. -/
theorem markAccessed (address : Address) : Tame host (markAccessed address) :=
  fun _ => (calm_markAccessed address).weaken fun _ _ _ _ => trivial

/-- Slots are marked at no cost. -/
theorem markSlotWarm (key : Word) : Tame host (markSlotWarm key) :=
  fun _ => (calm_markSlotWarm key).weaken fun _ _ _ _ => trivial

end Tame

namespace Burns

/-- What follows a paying handler may be free. -/
theorem bind {first : EvmM α} {rest : α → EvmM β} (head : Burns host first)
    (tail : ∀ value, Tame host (rest value)) : Burns host (first >>= rest) := by
  intro evm
  refine (head evm).bind fun value mid _ paid => ?_
  exact (tail value mid).weaken fun _ after quiet _ => Nat.lt_of_le_of_lt quiet.gas paid

/-- A handler that always ends the frame never reaches its end. -/
theorem exit (result : ExecutionResult) [Stops result] :
    Burns host (Frames.Program.exit result : EvmM α) := fun _ => Calm.exit

/-- A price above zero is paid or ends the frame. -/
theorem charge {cost : Nat} (positive : 0 < cost) : Burns host (charge cost) := by
  intro evm
  refine (calm_charge cost).weaken fun _ after _ paid => ?_
  obtain ⟨enough, rfl⟩ := paid
  show evm.gasLeft - cost < evm.gasLeft
  omega

/-- It may also be the first part of a sum. -/
theorem chargeSum {first second third : Nat} (positive : 0 < first) :
    Burns host (chargeSum first second third) := by
  intro evm
  refine (calm_chargeSum first second third).weaken fun _ after _ paid => ?_
  obtain ⟨enough, rfl⟩ := paid
  show evm.gasLeft - (first + second + third) < evm.gasLeft
  omega

end Burns

end Composition

section Families

variable {host : Host}

/-- Functions of one operand are tame. -/
theorem tame_unary (underflow overflow : String) (compute : Evm → Word → Word) :
    Tame host (unary underflow overflow compute) :=
  (Tame.pop _).bind fun _ => Tame.get.bind fun _ => Tame.push _ _

/-- Functions of two operands are tame. -/
theorem tame_binary (name : String) (compute : Word → Word → Word) : Tame host (binary name compute) :=
  (Tame.pop _).bind fun _ => (Tame.pop _).bind fun _ => Tame.push _ _

/-- Functions of three operands are tame. -/
theorem tame_ternary (name : String) (compute : Word → Word → Word → Word) :
    Tame host (ternary name compute) :=
  (Tame.pop _).bind fun _ => (Tame.pop _).bind fun _ => (Tame.pop _).bind fun _ => Tame.push _ _

/-- Whatever is read from a frame can be pushed. -/
theorem tame_pushRead (overflow : String) (read : Evm → Word) : Tame host (pushRead overflow read) :=
  Tame.get.bind fun _ => Tame.push _ _

/-- A word that is too deep ends the frame. -/
theorem tame_opDup (depth : Nat) : Tame host (opDup depth) := by
  refine Tame.get.bind fun evm => ?_
  -- The word is there, or the frame ends.
  cases evm.stack.peek depth with
  | ok value => exact Tame.push _ _
  | error message => exact Tame.exit _

/-- A swap that is too deep ends the frame. -/
theorem tame_opSwap (depth : Nat) : Tame host (opSwap depth) := by
  refine Tame.get.bind fun evm => ?_
  cases evm.stack.swap depth with
  | ok stack => exact fun _ => (Calm.modify (by constructor <;> rfl)).weaken fun _ _ _ _ => trivial
  | error message => exact Tame.exit _

/-- An access is never free. -/
theorem accessCost_pos (evm : Evm) (address : Address) : 0 < accessCost evm address := by
  unfold accessCost
  split <;> decide

/-- So every query of an account pays for itself. -/
theorem burns_accountQuery (overflow : String) (read : Evm → Address → Word) :
    Burns host (accountQuery overflow read) := by
  refine (Tame.pop _).bind_burns fun word => ?_
  refine Burns.bind ?_ fun _ => Tame.get.bind fun _ => Tame.push _ _
  -- The charge comes before what is pushed.
  exact Tame.get.bind_burns fun evm =>
    (Tame.markAccessed _).bind_burns fun _ => Burns.charge (accessCost_pos evm _)

/-- A load of a slot pays for itself, since even a warm slot has a price. -/
theorem burns_opSload : Burns host opSload := by
  refine (Tame.pop _).bind_burns fun key => Tame.get.bind_burns fun evm => ?_
  refine (Tame.markSlotWarm key).bind_burns fun _ => ?_
  -- A warm slot costs something too.
  exact (Burns.charge (by split <;> decide)).bind fun _ => Tame.push _ _

end Families

section Memory

variable {host : Host}

/-- After touching a range of positive size, what lies in it can be accessed. -/
theorem tame_touch_then {offset size : Nat} (positive : size ≠ 0) {rest : EvmM α}
    (inside : ∀ evm : Evm, offset + size ≤ evm.memory.length →
      Calm (CheckedOverflow host) evm rest fun _ _ => True) :
    Tame host (touchMemory host offset size >>= fun _ => rest) := by
  -- The size is positive, so the touch covered the range.
  intro evm
  refine (calm_touchMemory .overflow offset size).bind fun _ mid _ touched => ?_
  exact inside mid (touched.1 positive)

/-- A store makes the memory that it writes to. -/
theorem tame_opMstore : Tame host (opMstore host) := by
  refine (Tame.pop _).bind fun offset => (Tame.pop _).bind fun val => ?_
  refine tame_touch_then (by decide) fun evm inside => ?_
  -- The first write keeps the length, so the second one is inside as well.
  refine (calm_writeMemory (by simp; omega)).bind fun _ mid _ wrote => ?_
  refine (calm_writeMemory ?_).weaken fun _ _ _ _ => trivial
  simp only [toBeBytes, length_beBytes, wrote.2.1]
  exact inside

/-- A store of a byte makes the memory that it writes to. -/
theorem tame_opMstore8 : Tame host (opMstore8 host) := by
  refine (Tame.pop _).bind fun offset => (Tame.pop _).bind fun val => ?_
  refine tame_touch_then (by decide) fun evm inside => ?_
  exact (calm_writeMemory (by simpa using inside)).weaken fun _ _ _ _ => trivial

/-- A load makes the memory that it reads. -/
theorem tame_opMload : Tame host (opMload host) := by
  refine (Tame.pop _).bind fun offset => ?_
  refine tame_touch_then (by decide) fun evm inside => ?_
  refine (calm_readMemory (by omega) inside).bind fun bytes mid _ _ => ?_
  exact Tame.push (fromBeBytes bytes) (.error _) mid

/-- A copy makes the memory that it writes to, if it copies anything. -/
theorem tame_copyOpcode (name : String) (source : Evm → Bytes) :
    Tame host (copyOpcode host name source) := by
  refine (Tame.pop _).bind fun dest => (Tame.pop _).bind fun offset => (Tame.pop _).bind fun size => ?_
  -- Only a copy of something touches memory at all.
  split
  · exact Tame.pure _
  · rename_i positive
    intro evm
    refine (calm_chargeCopy size).bind fun _ mid _ _ => ?_
    refine tame_touch_then positive (fun evm inside => ?_) mid
    refine Calm.get_bind ?_
    exact (calm_copyToMemory inside).weaken fun _ _ _ _ => trivial

/-- Expanding first makes every range accessible, empty ones included. -/
theorem tame_expand_then {ranges : List (Nat × Nat)} {rest : EvmM α}
    (inside : ∀ evm : Evm, (∀ range ∈ ranges, range.1 + range.2 ≤ evm.memory.length) →
      Calm (CheckedOverflow host) evm rest fun _ _ => True) :
    Tame host (expandMemoryWithoutCharge ranges >>= fun _ => rest) := by
  -- Unlike a touch, the expansion covers empty ranges too.
  intro evm
  refine (calm_expandMemory ranges).bind fun _ mid _ expanded => ?_
  exact inside mid expanded.1

/-- A move within memory pays for itself, and makes the memory at both ends. -/
theorem burns_opMcopy : Burns host opMcopy := by
  refine (Tame.pop _).bind_burns fun destWord => (Tame.pop _).bind_burns fun sourceWord => ?_
  refine (Tame.pop _).bind_burns fun sizeWord => (Tame.toUsize _).bind_burns fun size => ?_
  refine (Tame.orVmError _).bind_burns fun copyCost => ?_
  -- Even an empty copy pays the constant part.
  split
  · exact Burns.chargeSum (by decide)
  · refine (Tame.toUsize _).bind_burns fun dest => (Tame.toUsize _).bind_burns fun source => ?_
    refine Tame.get.bind_burns fun evm => (Tame.orVmError _).bind_burns fun memoryCost => ?_
    refine (Burns.chargeSum (by decide)).bind fun _ => tame_expand_then fun evm inside => ?_
    -- One expansion covered both the source and the destination.
    have destInside := inside (dest, size) (by simp)
    have sourceInside := inside (source, size) (by simp)
    refine (calm_readMemory (by omega) sourceInside).bind fun bytes mid _ same => ?_
    obtain ⟨rfl, rfl⟩ := same
    refine (calm_writeMemory ?_).weaken fun _ _ _ _ => trivial
    rw [length_slice sourceInside]
    simp only at destInside ⊢
    omega

/-- A copy of another account's code pays for the access. -/
theorem burns_opExtcodecopy : Burns host opExtcodecopy := by
  refine (Tame.pop _).bind_burns fun addressWord => (Tame.pop _).bind_burns fun destWord => ?_
  refine (Tame.pop _).bind_burns fun offsetWord => (Tame.pop _).bind_burns fun sizeWord => ?_
  refine (Tame.toUsize _).bind_burns fun dest => (Tame.toUsize _).bind_burns fun offset => ?_
  refine (Tame.toUsize _).bind_burns fun size => ?_
  cases calcCopyGas sizeWord with
  | error error => exact Burns.exit _
  | ok copyCost =>
    refine Tame.get.bind_burns fun evm => (Tame.markAccessed _).bind_burns fun _ => ?_
    refine (Tame.orVmError _).bind_burns fun memoryCost => ?_
    -- The access alone costs something.
    refine (Burns.chargeSum (accessCost_pos evm _)).bind fun _ => ?_
    refine tame_expand_then fun evm inside => ?_
    exact (calm_copyToMemory (inside (dest, size) (by simp))).weaken fun _ _ _ _ => trivial

/-- Returning and reverting never go on to the next opcode. -/
theorem burns_finishWith (finish : Bytes → ExecutionResult) [∀ bytes, Stops (finish bytes)] :
    Burns host (finishWith host finish) := by
  refine (Tame.pop _).bind_burns fun offset => (Tame.pop _).bind_burns fun size => ?_
  intro evm
  refine (calm_touchMemory .overflow _ _).bind fun _ mid _ _ => ?_
  refine Calm.get_bind ?_
  refine (calm_readMemory ?_ (Nat.min_le_right _ _)).bind fun bytes last _ _ => Calm.exit
  -- The start is a 64-bit number, so the saturated end does not fall behind it.
  unfold saturatingAdd
  have small : asUsize offset ≤ u64Max := by
    unfold asUsize u64Max
    omega
  omega

end Memory

end MiniEvm
