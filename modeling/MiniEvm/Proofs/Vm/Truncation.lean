import MiniEvm.Proofs.Vm.Operands
import MiniEvm.Proofs.Vm.Prices
import MiniEvm.Proofs.Vm.Tapes

/-! Offsets and sizes past 2^64, of which most handlers keep the lowest limb only. -/

namespace MiniEvm

open EvmM Frames Frames.Program BigEndian

/-- A word that no 64-bit number stands for. -/
def Far (word : Word) : Prop := 2 ^ 64 ≤ word.toNat

/-- The gas for copying or hashing so many bytes. -/
def copyPrice (size : Word) : Nat := wordsFor size.toNat * 3

/-- The gas for a log of so many topics and bytes. -/
def logPrice (topicCount size : Nat) : Nat := 375 + min (375 * topicCount) u64Max + size * 8

/-- An instruction with an offset or a size among its operands. -/
inductive RangeOp where
  | mload (offset : Word)
  | mstore (offset value : Word)
  | mstore8 (offset value : Word)
  | keccak256 (offset size : Word)
  | log (topics : List Word) (offset size : Word)
  | return_ (offset size : Word)
  | revert (offset size : Word)
  | calldataload (offset : Word)
  | copy (source : CopySource) (dest offset size : Word)
  | mcopy (dest source size : Word)

namespace RangeOp

def opcode : RangeOp → Opcode
  | mload _ => .mload
  | mstore _ _ => .mstore
  | mstore8 _ _ => .mstore8
  | keccak256 _ _ => .keccak256
  | log topics _ _ => .log topics.length
  | return_ _ _ => .return_
  | revert _ _ => .revert
  | calldataload _ => .calldataload
  | copy .calldata _ _ _ => .calldatacopy
  | copy .code _ _ _ => .codecopy
  | copy (.extcode _) _ _ _ => .extcodecopy
  | copy .returndata _ _ _ => .returndatacopy
  | mcopy _ _ _ => .mcopy

/-- The operands as they lie on the stack. -/
def operands : RangeOp → List Word
  | mload offset => [offset]
  | mstore offset value => [offset, value]
  | mstore8 offset value => [offset, value]
  | keccak256 offset size => [offset, size]
  | log topics offset size => offset :: size :: topics
  | return_ offset size => [offset, size]
  | revert offset size => [offset, size]
  | calldataload offset => [offset]
  | copy (.extcode account) dest offset size => [account, dest, offset, size]
  | copy _ dest offset size => [dest, offset, size]
  | mcopy dest source size => [dest, source, size]

/-- The ranges of memory that it names, by offset and size. -/
def ranges : RangeOp → List (Word × Word)
  | mload offset => [(offset, 32)]
  | mstore offset _ => [(offset, 32)]
  | mstore8 offset _ => [(offset, 1)]
  | keccak256 offset size => [(offset, size)]
  | log _ offset size => [(offset, size)]
  | return_ offset size => [(offset, size)]
  | revert offset size => [(offset, size)]
  | calldataload _ => []
  | copy _ dest _ size => [(dest, size)]
  | mcopy dest source size => [(dest, size), (source, size)]

/-- It names a range that is not empty, and that has an offset or a size past 2^64. -/
def NamesFarRange (op : RangeOp) : Prop :=
  ∃ range ∈ op.ranges, range.2 ≠ 0 ∧ (Far range.1 ∨ Far range.2)

/--
From a source offset past 2^64 it reads zeros, if it reads anything.

A copy of return data fails instead.
-/
def ReadsPastEnd (host : Host) (evm : Evm) (rest : List Word) : RangeOp → Prop
  | calldataload offset => Far offset → Pushes opCalldataload evm rest 0
  | copy .calldata dest offset size => Far offset →
    (opCalldatacopy host).Yields evm fun _ after =>
      ∀ i < size.toNat, after.memory[dest.toNat + i]? = some 0
  | copy .code dest offset size => Far offset →
    (opCodecopy host).Yields evm fun _ after =>
      ∀ i < size.toNat, after.memory[dest.toNat + i]? = some 0
  | copy .returndata _ offset _ => Far offset → Refuses evm.memory (opReturndatacopy host evm)
  | _ => True

/-- No operand past 2^64 is taken for a smaller one. -/
def NeverTruncates (host : Host) (evm : Evm) (rest : List Word) (op : RangeOp) : Prop :=
  (op.NamesFarRange → Refuses evm.memory (dispatch host op.opcode evm)) ∧
    op.ReadsPastEnd host evm rest

/-- A copy of return data asks for more than there is, by the lowest limbs. -/
def PastReturnData (evm : Evm) (offset size : Word) : Prop :=
  min evm.returnData.length u64Max < asUsize offset + asUsize size

/--
What the lowest limbs of the operands name is turned down.

The last two kinds of copies convert their operands with a check, and need nothing of the sort.
-/
def TurnedDown (host : Host) (evm : Evm) : RangeOp → Prop
  | mload offset => AccessRefused host evm 0 (asUsize offset) 32
  | mstore offset _ => AccessRefused host evm 0 (asUsize offset) 32
  | mstore8 offset _ => AccessRefused host evm 0 (asUsize offset) 1
  | keccak256 offset size =>
    AccessRefused host evm (copyPrice size) (asUsize offset) (asUsize size)
  | log topics offset size => evm.isStatic = true ∨
    AccessRefused host evm (logPrice topics.length (asUsize size)) (asUsize offset) (asUsize size)
  | return_ offset size => AccessRefused host evm 0 (asUsize offset) (asUsize size)
  | revert offset size => AccessRefused host evm 0 (asUsize offset) (asUsize size)
  | calldataload _ => False
  | copy .returndata dest offset size => PastReturnData evm offset size ∨
    AccessRefused host evm (copyPrice size) (asUsize dest) (asUsize size)
  | copy .calldata dest _ size => asUsize size ≠ 0 ∧
    AccessRefused host evm (copyPrice size) (asUsize dest) (asUsize size)
  | copy .code dest _ size => asUsize size ≠ 0 ∧
    AccessRefused host evm (copyPrice size) (asUsize dest) (asUsize size)
  | copy (.extcode _) _ _ _ => True
  | mcopy _ _ _ => True

/-- At the lowest limb of a source offset past 2^64 there is nothing, or it is not looked at. -/
def SourceIsClear (host : Host) (evm : Evm) : RangeOp → Prop
  | calldataload offset => Far offset →
    ∀ i < 32, evm.context.calldata[asUsize offset + i]?.getD 0 = 0
  | copy .calldata dest offset size => Far offset →
    AccessGranted host evm (copyPrice size) (asUsize dest) (asUsize size) →
    ∀ i < asUsize size, byteOrZero evm.context.calldata (asUsize offset) i = 0
  | copy .code dest offset size => Far offset →
    AccessGranted host evm (copyPrice size) (asUsize dest) (asUsize size) →
    ∀ i < asUsize size, byteOrZero evm.code (asUsize offset) i = 0
  | copy .returndata dest offset size => Far offset → PastReturnData evm offset size ∨
    AccessRefused host evm (copyPrice size) (asUsize dest) (asUsize size)
  | _ => True

end RangeOp

section Refusals

variable {host : Host} {evm mid : Evm} {rest below : List Word} {value offset size dest : Word}

/-- Popping an operand hands it to the rest, and only the stack changes. -/
theorem pop_then (operand : evm.stack.data = value :: below) :
    ∃ mid, StackOnly evm mid ∧ mid.stack.data = below ∧
      ∀ {β : Type} (underflow : ExecutionResult) (rest : Word → EvmM β),
        (pop underflow >>= rest) evm = rest value mid := by
  obtain ⟨lower, _, data⟩ := pop_of_cons .stackUnderflow operand
  refine ⟨{ evm with stack := lower }, rfl, data, fun underflow rest => ?_⟩
  obtain ⟨lower', ended, data'⟩ := pop_of_cons underflow operand
  -- A stack is known by its words.
  have same : lower' = lower := by
    cases lower
    cases lower'
    cases data
    cases data'
    rfl
  rw [bind_of_next ended, same]

/-- An access is turned down or not whatever is on the stack. -/
theorem StackOnly.refuses_iff {cost offset size : Nat} {rest : EvmM Unit}
    (only : StackOnly evm mid)
    (harmless : ∀ after, Touched offset size mid after → Harmless rest after fun _ _ => True) :
    Refuses evm.memory ((access host cost offset size >>= fun _ => rest) mid) ↔
      AccessRefused host evm cost offset size := by
  -- Whether an access is turned down depends on gas and memory alone.
  have same : AccessRefused host mid cost offset size = AccessRefused host evm cost offset size :=
    only.read (fun evm => AccessRefused host evm cost offset size) fun _ _ => rfl
  rw [← same, ← only.memory]
  exact refuses_access_iff harmless

/-- An access that costs nothing beside its range touches the range. -/
theorem access_zero (host : Host) (offset size : Nat) :
    access host 0 offset size = touchMemory host offset size := rfl

/-- What follows an access follows its charge and its range. -/
theorem access_then (host : Host) (cost offset size : Nat) (rest : EvmM Unit) :
    (access host cost offset size >>= fun _ => rest) =
      chargeWithin cost >>= fun _ => touchMemory host offset size >>= fun _ => rest :=
  bind_assoc _ _ _

/-- A copy is charged by a price that may be missing. -/
theorem chargeCopy_eq (size : Word) : chargeCopy size = chargeWithin (copyPrice size) := by
  unfold chargeCopy chargeWithin copyPrice
  rw [calcCopyGas_eq]
  by_cases fits : wordsFor size.toNat * 3 ≤ u64Max
  · rw [if_pos fits, if_pos fits]
  · rw [if_neg fits, if_neg fits]

/-- A log asks for its price, unless that is no 64-bit number. -/
theorem logGas_eq (topicCount size : Nat) : logGas topicCount size =
    if logPrice topicCount size ≤ u64Max then some (logPrice topicCount size) else none := by
  unfold logGas checkedMul
  -- The two checks before the last sum only fail where that fails, too.
  by_cases fits : logPrice topicCount size ≤ u64Max
  · have sized : size * 8 ≤ u64Max := by
      unfold logPrice at fits
      omega
    have based : 375 + min (375 * topicCount) u64Max ≤ u64Max := by
      unfold logPrice at fits
      omega
    rw [if_pos sized, if_pos fits]
    simp only [checkedAdd, if_pos based, Option.bind_eq_bind, Option.bind_some]
    exact if_pos fits
  · rw [if_neg fits]
    by_cases sized : size * 8 ≤ u64Max
    · rw [if_pos sized]
      by_cases based : 375 + min (375 * topicCount) u64Max ≤ u64Max
      · simp only [checkedAdd, if_pos based, Option.bind_eq_bind, Option.bind_some]
        exact if_neg fits
      · simp only [checkedAdd, if_neg based, Option.bind_eq_bind, Option.bind_some,
          Option.bind_none]
    · rw [if_neg sized]
      rfl

end Refusals

section Tails

variable {evm : Evm}

/-- A look at the frame does no harm. -/
theorem harmless_get :
    Harmless (get : EvmM Evm) evm fun value after => value = evm ∧ after = evm := ⟨rfl, rfl⟩

/-- Reading memory neither refuses nor changes anything. -/
theorem harmless_readMemory (start stop : Nat) :
    Harmless (readMemory start stop) evm fun _ after => after = evm := by
  unfold Harmless Meets readMemory
  simp only [bind_apply, get_apply, Tree.bind]
  -- A range past memory aborts, which is no failure of the frame.
  split
  · rfl
  · trivial

/-- Writing to memory does not refuse. -/
theorem harmless_writeMemory (offset : Nat) (source : Bytes) :
    Harmless (writeMemory offset source) evm fun _ _ => True := by
  unfold Harmless Meets writeMemory
  simp only [bind_apply, get_apply, Tree.bind]
  -- So does a write past memory.
  split <;> trivial

/-- Copying into memory does not refuse. -/
theorem harmless_copyToMemory (dest size : Nat) (source : Nat → UInt8) :
    Harmless (copyToMemory dest size source) evm fun _ _ => True := by
  unfold copyToMemory
  split
  · trivial
  · exact harmless_writeMemory _ _

/-- Pushing does not refuse, as long as there is room. -/
theorem harmless_push (value : Word) (overflow : ExecutionResult)
    (room : evm.stack.data.length < 1024) :
    Harmless (push value overflow) evm fun _ _ => True := by
  -- With room the word is pushed.
  obtain ⟨_, _, ended, _⟩ := completes_push value overflow room
  unfold Harmless Meets
  rw [ended]
  trivial

end Tails

section Handlers

variable {host : Host} {evm : Evm} {rest : List Word} {value offset size dest : Word}

/-- A load refuses what memory refuses. -/
theorem refuses_opMload (stack : evm.stack.data = offset :: rest) :
    Refuses evm.memory (opMload host evm) ↔ AccessRefused host evm 0 (asUsize offset) 32 := by
  obtain ⟨mid, only, data, popped⟩ := pop_then stack
  unfold opMload
  rw [popped, ← access_zero]
  refine only.refuses_iff fun after touched => ?_
  -- Once the range is there, it is read, and the word takes the place of the offset.
  have room : after.stack.data.length < 1024 := by
    rw [touched.read Evm.stack fun _ _ _ => rfl, data]
    exact room_below stack
  refine Meets.bind (harmless_readMemory _ _) fun bytes last same => ?_
  subst same
  exact harmless_push _ _ room

/-- A store refuses what memory refuses. -/
theorem refuses_opMstore (stack : evm.stack.data = offset :: value :: rest) :
    Refuses evm.memory (opMstore host evm) ↔ AccessRefused host evm 0 (asUsize offset) 32 := by
  obtain ⟨s1, only1, data1, popOffset⟩ := pop_then stack
  obtain ⟨s2, only2, data2, popValue⟩ := pop_then data1
  unfold opMstore
  rw [popOffset, popValue, ← access_zero]
  -- Neither of the two writes ends the frame.
  refine (only1.trans only2).refuses_iff fun after _ => ?_
  exact Meets.bind (harmless_writeMemory _ _) fun _ _ _ => harmless_writeMemory _ _

/-- A store of a byte refuses what memory refuses. -/
theorem refuses_opMstore8 (stack : evm.stack.data = offset :: value :: rest) :
    Refuses evm.memory (opMstore8 host evm) ↔ AccessRefused host evm 0 (asUsize offset) 1 := by
  obtain ⟨s1, only1, data1, popOffset⟩ := pop_then stack
  obtain ⟨s2, only2, data2, popValue⟩ := pop_then data1
  unfold opMstore8
  rw [popOffset, popValue, ← access_zero]
  exact (only1.trans only2).refuses_iff fun after _ => harmless_writeMemory _ _

/-- A hash refuses what it cannot pay for, too. -/
theorem refuses_opKeccak256 (stack : evm.stack.data = offset :: size :: rest) :
    Refuses evm.memory (opKeccak256 host evm) ↔
      AccessRefused host evm (copyPrice size) (asUsize offset) (asUsize size) := by
  obtain ⟨s1, only1, data1, popOffset⟩ := pop_then stack
  obtain ⟨s2, only2, data2, popSize⟩ := pop_then data1
  unfold opKeccak256
  rw [popOffset, popSize, chargeCopy_eq, ← access_then]
  -- The hash is pushed where two operands were.
  refine (only1.trans only2).refuses_iff fun after touched => ?_
  have room : after.stack.data.length < 1024 := by
    rw [touched.read Evm.stack fun _ _ _ => rfl, data2]
    exact room_below data1
  refine Meets.bind (harmless_readMemory _ _) fun bytes last same => ?_
  subst same
  exact harmless_push _ _ room

/-- Giving a range back refuses only what memory refuses. -/
theorem refuses_finishWith {finish : Bytes → ExecutionResult}
    (harmless : ∀ bytes, (finish bytes).isFailure = false)
    (stack : evm.stack.data = offset :: size :: rest) :
    Refuses evm.memory (finishWith host finish evm) ↔
      AccessRefused host evm 0 (asUsize offset) (asUsize size) := by
  obtain ⟨s1, only1, data1, popOffset⟩ := pop_then stack
  obtain ⟨s2, only2, data2, popSize⟩ := pop_then data1
  unfold finishWith
  rw [popOffset, popSize, ← access_zero]
  refine (only1.trans only2).refuses_iff fun after _ => ?_
  refine Meets.bind harmless_get fun _ mid _ => ?_
  refine Meets.bind (harmless_readMemory _ _) fun bytes last _ => ?_
  -- The frame ends here, and not by a failure.
  exact harmless bytes

/-- Popping topics hands all of them on. -/
theorem popTopics_of_append : ∀ {topics : List Word} {evm : Evm},
    evm.stack.data = topics ++ rest →
    ∃ mid, StackOnly evm mid ∧ popTopics topics.length evm = .next topics mid
  | [], evm, _ => ⟨evm, .refl evm, rfl⟩
  | topic :: topics, evm, stack => by
    -- The first topic comes off, and the others by induction.
    obtain ⟨s1, only1, data1, popTopic⟩ := pop_then stack
    obtain ⟨mid, only, popped⟩ := popTopics_of_append data1
    refine ⟨mid, only1.trans only, ?_⟩
    rw [List.length_cons, popTopics, popTopic, bind_of_next popped]
    rfl

/-- A log is refused in a static frame as well. -/
theorem refuses_opLog {topics : List Word}
    (stack : evm.stack.data = offset :: size :: (topics ++ rest)) :
    Refuses evm.memory (opLog host topics.length evm) ↔ evm.isStatic = true ∨
      AccessRefused host evm (logPrice topics.length (asUsize size)) (asUsize offset)
        (asUsize size) := by
  unfold opLog requireMutable
  cases static : evm.isStatic with
  | true =>
    -- A frame that may not write fails at once.
    refine iff_of_true ⟨.vmError .staticCallViolation, evm, ?_, rfl, rfl⟩ (.inl rfl)
    simp only [bind_apply, get_apply, Tree.bind, static, if_true, exit_apply]
  | false =>
    obtain ⟨s1, only1, data1, popOffset⟩ := pop_then stack
    obtain ⟨s2, only2, data2, popSize⟩ := pop_then data1
    obtain ⟨s3, only3, popped⟩ := popTopics_of_append data2
    have mutable : (do
        let evm ← Program.get
        if evm.isStatic then exit (.vmError .staticCallViolation) else pure () : EvmM Unit) evm =
        .next () evm := by
      simp only [bind_apply, get_apply, Tree.bind, static]
      rfl
    rw [bind_of_next mutable, popOffset, popSize, bind_of_next popped, logGas_eq]
    simp only [Bool.false_eq_true, false_or]
    have only := (only1.trans only2).trans only3
    by_cases fits : logPrice topics.length (asUsize size) ≤ u64Max
    · have charged : charge (logPrice topics.length (asUsize size)) =
          chargeWithin (logPrice topics.length (asUsize size)) := (if_pos fits).symm
      rw [if_pos fits]
      dsimp only
      rw [charged, ← access_then]
      refine only.refuses_iff fun after _ => ?_
      exact Meets.bind (harmless_readMemory _ _) fun _ _ _ => trivial
    · -- A price out of the 64-bit range is too high for any frame.
      rw [if_neg fits]
      refine iff_of_true ⟨.outOfGas, s3, rfl, rfl, only.memory⟩ (.inl ?_)
      omega

/-- A copy skips everything if the lowest limb of its size is zero. -/
theorem copyOpcode_eq (host : Host) (name : String) (source : Evm → Bytes)
    (stack : evm.stack.data = dest :: offset :: size :: rest) :
    ∃ mid, StackOnly evm mid ∧ copyOpcode host name source evm =
      (if asUsize size = 0 then pure ()
      else access host (copyPrice size) (asUsize dest) (asUsize size) >>= fun _ => do
        let evm ← Program.get
        copyToMemory (asUsize dest) (asUsize size) (byteOrZero (source evm) (asUsize offset))) mid := by
  obtain ⟨s1, only1, data1, popDest⟩ := pop_then stack
  obtain ⟨s2, only2, data2, popOffset⟩ := pop_then data1
  obtain ⟨s3, only3, data3, popSize⟩ := pop_then data2
  refine ⟨s3, (only1.trans only2).trans only3, ?_⟩
  unfold copyOpcode
  -- The charge and the touch that follow it are one access.
  rw [popDest, popOffset, popSize, chargeCopy_eq, ← access_then]

theorem refuses_copyOpcode (name : String) (source : Evm → Bytes)
    (stack : evm.stack.data = dest :: offset :: size :: rest) :
    Refuses evm.memory (copyOpcode host name source evm) ↔ asUsize size ≠ 0 ∧
      AccessRefused host evm (copyPrice size) (asUsize dest) (asUsize size) := by
  obtain ⟨mid, only, same⟩ := copyOpcode_eq host name source stack
  rw [same]
  by_cases empty : asUsize size = 0
  · -- What is skipped does not fail.
    rw [if_pos empty]
    refine iff_of_false ?_ fun refused => refused.1 empty
    intro ⟨result, after, exited, _⟩
    cases exited
  · rw [if_neg empty, and_iff_right empty]
    apply only.refuses_iff
    intro after _
    exact Meets.bind harmless_get fun _ _ _ => harmless_copyToMemory _ _ _

/-- Copying puts each byte of the source in its place. -/
theorem completes_copyToMemory {dest size : Nat} {source : Nat → UInt8} (nonempty : size ≠ 0)
    (inside : dest + size ≤ evm.memory.length) :
    (copyToMemory dest size source).Completes evm fun _ after =>
      ∀ i < size, after.memory[dest + i]? = some (source i) := by
  have length : ((List.range size).map source).length = size := by simp
  have inside' : dest + ((List.range size).map source).length ≤ evm.memory.length := by
    rw [length]
    exact inside
  unfold copyToMemory
  rw [if_neg nonempty]
  refine (completes_writeMemory inside').weaken fun _ after wrote i less => ?_
  -- The byte lies within the part that is written over.
  have within : dest ≤ dest + i ∧ dest + i < dest + ((List.range size).map source).length := by
    omega
  rw [wrote, getElem?_overwrite inside', if_pos within, Nat.add_sub_cancel_left,
    List.getElem?_map, List.getElem?_range less]
  rfl

/-- A copy to a range that fits copies zeros, if there are only zeros where it reads. -/
theorem yields_zeros_iff (name : String) {source : Evm → Bytes}
    (stack : evm.stack.data = dest :: offset :: size :: rest)
    (blind : ∀ evm stack gas memory,
      source { evm with stack := stack, gasLeft := gas, memory := memory } = source evm)
    (near : size ≠ 0 → ¬ (Far dest ∨ Far size)) :
    ((copyOpcode host name source).Yields evm fun _ after =>
      ∀ i < size.toNat, after.memory[dest.toNat + i]? = some 0) ↔
      (AccessGranted host evm (copyPrice size) (asUsize dest) (asUsize size) →
        ∀ i < asUsize size, byteOrZero (source evm) (asUsize offset) i = 0) := by
  by_cases zero : size = 0
  · -- Nothing is asked of the bytes of an empty range.
    subst zero
    exact iff_of_true (fun _ _ _ i less => absurd less (Nat.not_lt_zero i))
      fun _ i less => absurd less (Nat.not_lt_zero i)
  obtain ⟨notFarDest, notFarSize⟩ := not_or.mp (near zero)
  have nearDest : asUsize dest = dest.toNat := asUsize_of_lt (Nat.not_le.mp notFarDest)
  have nearSize : asUsize size = size.toNat := asUsize_of_lt (Nat.not_le.mp notFarSize)
  have empty : size.toNat ≠ 0 := fun none => zero (BitVec.eq_of_toNat_eq none)
  obtain ⟨mid, only, same⟩ := copyOpcode_eq host name source stack
  rw [nearDest, nearSize, if_neg empty] at same
  rw [nearDest, nearSize]
  have granted : AccessGranted host mid (copyPrice size) dest.toNat size.toNat ↔
      AccessGranted host evm (copyPrice size) dest.toNat size.toNat := by
    rw [only.read (fun evm => AccessGranted host evm (copyPrice size) dest.toNat size.toNat)
      fun _ _ => rfl]
  -- Wherever the range has been touched, the bytes are those of the source at the lowest limb.
  have copies : ∀ after, Touched dest.toNat size.toNat mid after →
      (do
        let evm ← Program.get
        copyToMemory dest.toNat size.toNat (byteOrZero (source evm) (asUsize offset)) :
          EvmM Unit).Completes after fun _ final => ∀ i < size.toNat,
            final.memory[dest.toNat + i]? = some (byteOrZero (source evm) (asUsize offset) i) := by
    intro after touched
    have unchanged : source after = source evm := by
      have spread := only
      unfold StackOnly at spread
      obtain ⟨⟨gas, memory, rfl⟩, _⟩ := touched
      rw [spread]
      exact blind evm _ _ _
    refine Completes.get_bind ?_
    rw [unchanged]
    exact completes_copyToMemory empty (touched.covers empty)
  -- A copy that is let through does end, and one that ends was let through.
  constructor
  · intro yields grant i less
    obtain ⟨after, touches, touched⟩ := (granted.mpr grant).ends
    obtain ⟨_, final, ended, bytes⟩ := copies after touched
    have zero := yields () final ((same.trans (bind_of_next touches)).trans ended) i less
    rw [bytes i less] at zero
    exact Option.some.inj zero
  · intro clear _ final ended i less
    rw [same] at ended
    obtain ⟨grant, after, touched, rest⟩ := ends_access ended
    have bytes := (copies after touched).yields () final rest
    rw [bytes i less, clear (granted.mp grant) i less]

theorem refuses_opReturndatacopy (stack : evm.stack.data = dest :: offset :: size :: rest) :
    Refuses evm.memory (opReturndatacopy host evm) ↔ RangeOp.PastReturnData evm offset size ∨
      AccessRefused host evm (copyPrice size) (asUsize dest) (asUsize size) := by
  obtain ⟨s1, only1, data1, popDest⟩ := pop_then stack
  obtain ⟨s2, only2, data2, popOffset⟩ := pop_then data1
  obtain ⟨s3, only3, data3, popSize⟩ := pop_then data2
  have only := (only1.trans only2).trans only3
  have returned : s3.returnData = evm.returnData := only.read Evm.returnData fun _ _ => rfl
  unfold opReturndatacopy RangeOp.PastReturnData
  rw [popDest, popOffset, popSize, bind_of_next (get_apply s3)]
  -- The end of the range is computed with a check, but from the lowest limbs.
  by_cases sum : asUsize offset + asUsize size ≤ u64Max
  · simp only [checkedAdd, if_pos sum, returned]
    by_cases inside : asUsize offset + asUsize size ≤ evm.returnData.length
    · have present : ¬ min evm.returnData.length u64Max < asUsize offset + asUsize size := by omega
      rw [if_pos inside, or_iff_right present, chargeCopy_eq, ← access_then]
      exact only.refuses_iff fun after _ => harmless_writeMemory _ _
    · -- There is too little return data, which is noticed before anything is charged.
      rw [if_neg inside]
      refine iff_of_true ⟨.vmError .outOfBoundsReturnData, s3, rfl, rfl, only.memory⟩ (.inl ?_)
      omega
  · simp only [checkedAdd, if_neg sum]
    refine iff_of_true ⟨.vmError .outOfBoundsReturnData, s3, rfl, rfl, only.memory⟩ (.inl ?_)
    omega

/-- A word past 2^64 is no size. -/
theorem toUsize_of_far (far : Far value) (evm : Evm) :
    toUsize value evm = .exit (.vmError .overflow) evm := by
  unfold Far at far
  have past : ¬ value.toNat ≤ u64Max := by
    unfold u64Max
    omega
  unfold toUsize toU64
  rw [if_neg past]
  rfl

/-- A conversion either ends the frame or hands on the number. -/
theorem refuses_toUsize {next : Nat → EvmM Unit}
    (follows : ¬ Far value → Refuses evm.memory (next value.toNat evm)) :
    Refuses evm.memory ((toUsize value >>= next) evm) := by
  -- The check of the conversion tells the two cases apart.
  by_cases far : Far value
  · refine ⟨.vmError .overflow, evm, ?_, rfl, rfl⟩
    rw [bind_apply, toUsize_of_far far]
    rfl
  · have near : value.toNat ≤ u64Max := by
      unfold Far at far
      unfold u64Max
      omega
    have converts : (toUsize value).Completes evm fun size after =>
        size = value.toNat ∧ after = evm := completes_toUsize near
    obtain ⟨_, _, ended, rfl, rfl⟩ := converts
    rw [bind_of_next ended]
    exact follows far

/-- Copying the code of an account checks every operand. -/
theorem refuses_opExtcodecopy {account : Word}
    (stack : evm.stack.data = account :: dest :: offset :: size :: rest)
    (far : Far dest ∨ Far size) : Refuses evm.memory (opExtcodecopy evm) := by
  obtain ⟨s1, only1, data1, popAccount⟩ := pop_then stack
  obtain ⟨s2, only2, data2, popDest⟩ := pop_then data1
  obtain ⟨s3, only3, data3, popOffset⟩ := pop_then data2
  obtain ⟨s4, only4, data4, popSize⟩ := pop_then data3
  have only := ((only1.trans only2).trans only3).trans only4
  unfold opExtcodecopy
  rw [popAccount, popDest, popOffset, popSize, ← only.memory]
  -- Where one conversion succeeds, another one fails.
  refine refuses_toUsize fun nearDest => refuses_toUsize fun _ => refuses_toUsize fun nearSize => ?_
  exact absurd far (not_or.mpr ⟨nearDest, nearSize⟩)

/-- So does a copy within memory, unless it is empty. -/
theorem refuses_opMcopy {source : Word}
    (stack : evm.stack.data = dest :: source :: size :: rest) (nonempty : size ≠ 0)
    (far : Far dest ∨ Far source ∨ Far size) : Refuses evm.memory (opMcopy evm) := by
  obtain ⟨s1, only1, data1, popDest⟩ := pop_then stack
  obtain ⟨s2, only2, data2, popSource⟩ := pop_then data1
  obtain ⟨s3, only3, data3, popSize⟩ := pop_then data2
  have only := (only1.trans only2).trans only3
  have some_ : size.toNat ≠ 0 := fun zero => nonempty (BitVec.eq_of_toNat_eq zero)
  unfold opMcopy
  rw [popDest, popSource, popSize, ← only.memory]
  -- The size is converted first, and the price is checked before the offsets.
  refine refuses_toUsize fun nearSize => ?_
  rw [calcCopyGas_eq]
  by_cases fits : wordsFor size.toNat * 3 ≤ u64Max
  · have priced : orVmError (.ok (wordsFor size.toNat * 3)) s3 =
        .next (wordsFor size.toNat * 3) s3 := rfl
    rw [if_pos fits, bind_of_next priced, if_neg some_]
    refine refuses_toUsize fun nearDest => refuses_toUsize fun nearSource => ?_
    exact absurd far (not_or.mpr ⟨nearDest, not_or.mpr ⟨nearSource, nearSize⟩⟩)
  · -- A price out of the 64-bit range is an error, too.
    rw [if_neg fits]
    exact ⟨.vmError .overflow, s3, rfl, rfl, rfl⟩

/-- The word that is loaded is zero if all of its bytes are. -/
theorem pushes_zero_iff (stack : evm.stack.data = offset :: rest) :
    Pushes opCalldataload evm rest 0 ↔
      ∀ i < 32, evm.context.calldata[asUsize offset + i]?.getD 0 = 0 := by
  have loads : Pushes opCalldataload evm rest
      (fromBeBytes (padded evm.context.calldata (asUsize offset) 32)) := by
    rw [← slice_append_zeros]
    exact pushes_unary _ _ _ (fun _ _ => rfl) stack
  -- The 32 bytes are read as a number, which is zero if they all are.
  have short : (padded evm.context.calldata (asUsize offset) 32).length ≤ 32 := by
    rw [length_padded]
  rw [loads.iff, ← BitVec.toNat_inj, toNat_fromBeBytes short]
  show value _ = 0 ↔ _
  rw [value_eq_zero_iff]
  simp [padded]

end Handlers

section Instructions

variable {host : Host} {evm : Evm} {rest : List Word} {word offset size : Word}

namespace RangeOp

/-- An instruction that names a far range fails just if that is turned down by its lowest limbs. -/
theorem refuses_iff {op : RangeOp} (stack : evm.stack.data = op.operands ++ rest)
    (far : op.NamesFarRange) :
    Refuses evm.memory (dispatch host op.opcode evm) ↔ op.TurnedDown host evm := by
  cases op with
  | mload offset => exact refuses_opMload stack
  | mstore offset value => exact refuses_opMstore stack
  | mstore8 offset value => exact refuses_opMstore8 stack
  | keccak256 offset size => exact refuses_opKeccak256 stack
  | log topics offset size => exact refuses_opLog stack
  | return_ offset size => exact refuses_finishWith (fun _ => rfl) stack
  | revert offset size => exact refuses_finishWith (fun _ => rfl) stack
  | calldataload offset =>
    obtain ⟨_, nowhere, _⟩ := far
    cases nowhere
  | mcopy dest source size =>
    refine iff_of_true ?_ trivial
    obtain ⟨range, member, nonempty, past⟩ := far
    -- Either range may be the far one.
    rcases List.mem_cons.mp member with rfl | member
    · exact refuses_opMcopy stack nonempty (past.imp_right .inr)
    · rcases List.mem_singleton.mp member with rfl
      exact refuses_opMcopy stack nonempty (.inr past)
  | copy source dest offset size =>
    cases source with
    | calldata => exact refuses_copyOpcode _ _ stack
    | code => exact refuses_copyOpcode _ _ stack
    | returndata => exact refuses_opReturndatacopy stack
    | extcode account =>
      refine iff_of_true ?_ trivial
      obtain ⟨range, member, _, past⟩ := far
      rcases List.mem_singleton.mp member with rfl
      exact refuses_opExtcodecopy stack past

/-- An instruction that fails has read nothing. -/
theorem readsPastEnd_of_refuses {op : RangeOp} (far : op.NamesFarRange)
    (refuses : Refuses evm.memory (dispatch host op.opcode evm)) :
    op.ReadsPastEnd host evm rest := by
  -- A failure yields no state at all, so that whatever is asked of one holds.
  have unread : ∀ {post : Unit → Evm → Prop}, (dispatch host op.opcode).Yields evm post := by
    obtain ⟨result, after, exited, _⟩ := refuses
    intro post value final ended
    rw [exited] at ended
    cases ended
  cases op with
  | calldataload offset =>
    obtain ⟨_, nowhere, _⟩ := far
    cases nowhere
  | copy source dest offset size =>
    cases source with
    | calldata => exact fun _ => unread
    | code => exact fun _ => unread
    | returndata => exact fun _ => refuses
    | extcode account => trivial
  | _ => trivial

/-- Where its lowest limbs are turned down, nothing is asked of a source. -/
theorem sourceIsClear_of_turnedDown {op : RangeOp} (turnedDown : op.TurnedDown host evm) :
    op.SourceIsClear host evm := by
  cases op with
  | calldataload offset => cases turnedDown
  | copy source dest offset size =>
    cases source with
    | calldata => exact fun _ granted => absurd turnedDown.2 granted.not_refused
    | code => exact fun _ granted => absurd turnedDown.2 granted.not_refused
    -- Return data is the one source that is refused past its end.
    | returndata => exact fun _ => turnedDown
    | extcode account => trivial
  | _ => trivial

/-- Past the end, an instruction that names no far range reads what is at the lowest limb. -/
theorem readsPastEnd_iff {op : RangeOp} (stack : evm.stack.data = op.operands ++ rest)
    (near : ¬ op.NamesFarRange) : op.ReadsPastEnd host evm rest ↔ op.SourceIsClear host evm := by
  cases op with
  | calldataload offset => exact imp_congr_right fun _ => pushes_zero_iff stack
  | copy source dest offset size =>
    -- What is copied lies in range by its whole words, or there is nothing to copy.
    have fits : size ≠ 0 → ¬ (Far dest ∨ Far size) := fun nonempty past =>
      near ⟨(dest, size), List.mem_singleton_self _, nonempty, past⟩
    cases source with
    | calldata =>
      exact imp_congr_right fun _ => yields_zeros_iff _ stack (fun _ _ _ _ => rfl) fits
    | code => exact imp_congr_right fun _ => yields_zeros_iff _ stack (fun _ _ _ _ => rfl) fits
    | returndata => exact imp_congr_right fun _ => refuses_opReturndatacopy stack
    | extcode account => exact Iff.rfl
  | _ => exact Iff.rfl

/-- Operands past 2^64 do no harm just where their lowest limbs do none. -/
theorem neverTruncates_iff (host : Host) (evm : Evm) (rest : List Word) (op : RangeOp)
    (stack : evm.stack.data = op.operands ++ rest) :
    op.NeverTruncates host evm rest ↔
      (op.NamesFarRange → op.TurnedDown host evm) ∧ op.SourceIsClear host evm := by
  by_cases far : op.NamesFarRange
  · constructor
    · intro ⟨refuses, _⟩
      have turnedDown := (refuses_iff stack far).mp (refuses far)
      exact ⟨fun _ => turnedDown, sourceIsClear_of_turnedDown turnedDown⟩
    · intro ⟨turnedDown, _⟩
      have refuses := (refuses_iff stack far).mpr (turnedDown far)
      exact ⟨fun _ => refuses, readsPastEnd_of_refuses far refuses⟩
  · -- With no far range, only the sources count.
    constructor
    · exact fun holds => ⟨fun isFar => absurd isFar far, (readsPastEnd_iff stack far).mp holds.2⟩
    · exact fun holds => ⟨fun isFar => absurd isFar far, (readsPastEnd_iff stack far).mpr holds.2⟩

/-- A store at 2^64. -/
def storeFar : RangeOp := .mstore 0x10000000000000000 5

/-- A frame with that store on its stack and so much gas. -/
def storingFrame (gas : Nat) : Evm :=
  { Evm.newWithGas [] gas with
    stack := ⟨[0x10000000000000000, 5], Nat.le_of_ble_eq_true rfl⟩ }

/-- Without gas the store fails, as it should. -/
theorem neverTruncates_of_no_gas : storeFar.NeverTruncates (tableHost []) (storingFrame 2) [] := by
  refine (neverTruncates_iff (tableHost []) (storingFrame 2) [] storeFar rfl).mpr
    ⟨fun _ => ?_, trivial⟩
  -- The word at the lowest limb, which is zero, costs three.
  exact .inr ⟨by decide, .inr ⟨3, rfl, by decide⟩⟩

/-- With enough gas it writes to the start of memory. -/
theorem store_truncates_offset : storeFar.NamesFarRange ∧
    ¬ storeFar.NeverTruncates (tableHost []) (storingFrame 3) [] ∧
    ∃ after, opMstore (tableHost []) (storingFrame 3) = .next () after ∧
      after.memory = toBeBytes 5 := by
  -- The offset is 2^64, whose lowest limb is zero.
  have far : storeFar.NamesFarRange :=
    ⟨_, List.mem_singleton_self _, by decide, .inl (by unfold Far; decide)⟩
  have stores : ∃ after, opMstore (tableHost []) (storingFrame 3) = .next () after ∧
      after.memory = toBeBytes 5 := ⟨_, rfl, rfl⟩
  refine ⟨far, ?_, stores⟩
  obtain ⟨after, ended, _⟩ := stores
  intro ⟨refuses, _⟩
  obtain ⟨result, final, exited, _⟩ := refuses far
  have same : dispatch (tableHost []) storeFar.opcode (storingFrame 3) = .next () after := ended
  rw [same] at exited
  cases exited

end RangeOp

end Instructions

end MiniEvm
