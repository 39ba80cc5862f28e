import MiniEvm.Collections.Tape
import MiniEvm.Proofs.Data.Word
import MiniEvm.Proofs.Vm.Completion

/-! The memory of a frame is an endless tape of bytes, touched and written by its instructions. -/

namespace MiniEvm

open Collections EvmM Frames Frames.Program

section Backing

/-- Memory as a tape: it shows the bytes, in as many whole words as were touched. -/
structure Backs (memory : Bytes) (tape : Tape UInt8) : Prop where
  shows_ : Shows 0 memory tape
  length : memory.length = wordsFor tape.stop * 32

variable {memory : Bytes} {tape : Tape UInt8}

theorem backs_blank : Backs [] (.blank 0) := ⟨.blank 0, rfl⟩

theorem Backs.whole (backs : Backs memory tape) : memory.length % 32 = 0 := by
  -- Memory is as long as a number of whole words.
  rw [backs.length, Nat.mul_mod_left]

/-- The furthest end is found range by range, from wherever the search starts. -/
theorem furthest_eq_foldl (length : Nat) (ranges : List (Nat × Nat)) :
    furthest length ranges =
      ranges.foldl (fun stop range => max stop (range.1 + range.2)) length := by
  -- Both take in one range at a time, the first one first.
  induction ranges generalizing length with
  | nil => rfl
  | cons range rest ih => exact ih _

/-- Starting from the last whole word instead of its last touched byte finds the same words. -/
theorem wordsFor_furthest_whole (stop : Nat) (ranges : List (Nat × Nat)) :
    wordsFor (furthest (wordsFor stop * 32) ranges) = wordsFor (furthest stop ranges) := by
  have reaches : stop ≤ wordsFor stop * 32 := le_wordsFor stop
  -- Nothing between the last touched byte and the end of its word starts another word.
  apply Nat.le_antisymm
  · rw [wordsFor_le, furthest_le]
    refine ⟨wordsFor_le.mp ?_, fun range member => ?_⟩
    · have same : wordsFor (wordsFor stop * 32) = wordsFor stop := by
        unfold wordsFor
        omega
      rw [same]
      exact wordsFor_mono length_le_furthest
    · exact (le_furthest stop member).trans (le_wordsFor _)
  · refine wordsFor_mono (furthest_le.mpr ⟨reaches.trans length_le_furthest, ?_⟩)
    exact fun range member => le_furthest _ member

/-- Growing over some ranges touches them. -/
theorem Backs.resize (backs : Backs memory tape) (ranges : List (Nat × Nat)) :
    Backs (resize memory (wordsFor (furthest memory.length ranges) * 32)) (tape.touch ranges) := by
  -- Nothing is cut off, so growing only adds blank bytes at the end.
  have longer : memory.length ≤ wordsFor (furthest memory.length ranges) * 32 :=
    length_le_furthest.trans (le_wordsFor _)
  constructor
  · unfold MiniEvm.resize
    rw [List.take_of_length_le longer]
    exact (backs.shows_.touch ranges).grow _
  · rw [length_resize, backs.length, wordsFor_furthest_whole, furthest_eq_foldl]
    rfl

theorem Backs.covering {evm : Evm} (backs : Backs evm.memory tape) (ranges : List (Nat × Nat))
    (gas : Nat) : Backs (evm.covering ranges gas).memory (tape.touch ranges) :=
  backs.resize ranges

/-- Memory that covers some ranges reaches their ends. -/
theorem le_covering {evm : Evm} {ranges : List (Nat × Nat)} {range : Nat × Nat}
    (member : range ∈ ranges) (gas : Nat) :
    range.1 + range.2 ≤ (evm.covering ranges gas).memory.length := by
  -- The furthest of the ends decides how long memory is.
  refine ((le_furthest evm.memory.length member).trans (le_wordsFor _)).trans (Nat.le_of_eq ?_)
  exact (length_resize _ _).symm

/-- Replacing bytes inside memory writes them to the tape. -/
theorem Backs.overwrite (backs : Backs memory tape) {start : Nat} {values : Bytes}
    (inside : start + values.length ≤ memory.length) :
    Backs (overwrite memory start values) (tape.write start values) :=
  ⟨backs.shows_.write inside, (length_overwrite inside).trans backs.length⟩

/-- A slice of memory is a window of the tape. -/
theorem Backs.slice (backs : Backs memory tape) {start size : Nat}
    (inside : start + size ≤ memory.length) :
    slice memory start (start + size) = tape.window start size :=
  backs.shows_.window inside

end Backing

/-- Where a copy takes its bytes from. -/
inductive CopySource where
  | calldata | code | extcode (account : Word) | returndata

/-- The bytes a copy can take, as the frame has them. -/
def CopySource.bytes (evm : Evm) : CopySource → Bytes
  | calldata => evm.context.calldata
  | code => evm.code
  | extcode account => evm.state.getCode (accountAddress account)
  | returndata => evm.returnData

/-- Bytes from an offset on, with zeros past the end. -/
def padded (bytes : Bytes) (offset size : Nat) : Bytes :=
  (List.range size).map fun i => (bytes[offset + i]?).getD 0

@[simp] theorem length_padded (bytes : Bytes) (offset size : Nat) :
    (padded bytes offset size).length = size := by
  simp [padded]

/-- What there is of a range, with the missing bytes filled in as zeros. -/
theorem slice_append_zeros (bytes : Bytes) (offset size : Nat) :
    slice bytes offset (offset + min (bytes.length - offset) size) ++
        List.replicate (size - min (bytes.length - offset) size) 0 = padded bytes offset size := by
  have available : (slice bytes offset (offset + min (bytes.length - offset) size)).length =
      min (bytes.length - offset) size := by
    simp only [slice, List.length_drop, List.length_take]
    omega
  apply List.ext_getElem?
  intro i
  rw [List.getElem?_append, available, padded, List.getElem?_map]
  by_cases there : i < min (bytes.length - offset) size
  · -- A byte that is there stands where the padded string has it.
    have inside : offset + i < bytes.length := by omega
    rw [if_pos there, List.getElem?_range (by omega), slice, List.getElem?_drop,
      List.getElem?_take_of_lt (by omega)]
    simp [List.getElem?_eq_getElem inside]
  · rw [if_neg there, List.getElem?_replicate]
    by_cases within : i < size
    · have past : bytes[offset + i]? = none := List.getElem?_eq_none (by omega)
      rw [List.getElem?_range within, if_pos (by omega)]
      simp [past]
    · rw [if_neg (by omega), List.getElem?_eq_none (by simpa using within)]
      rfl

/-- An instruction that reads, writes or measures memory, with its operands. -/
inductive MemoryOp where
  | mload (offset : Word)
  | mstore (offset value : Word)
  | mstore8 (offset value : Word)
  | mcopy (dest source size : Word)
  | copy (source : CopySource) (dest offset size : Word)
  | msize

namespace MemoryOp

def opcode : MemoryOp → Opcode
  | mload _ => .mload
  | mstore _ _ => .mstore
  | mstore8 _ _ => .mstore8
  | mcopy _ _ _ => .mcopy
  | copy .calldata _ _ _ => .calldatacopy
  | copy .code _ _ _ => .codecopy
  | copy (.extcode _) _ _ _ => .extcodecopy
  | copy .returndata _ _ _ => .returndatacopy
  | msize => .msize

/-- The operands as they lie on the stack. -/
def operands : MemoryOp → List Word
  | mload offset => [offset]
  | mstore offset value => [offset, value]
  | mstore8 offset value => [offset, value]
  | mcopy dest source size => [dest, source, size]
  | copy (.extcode account) dest offset size => [account, dest, offset, size]
  | copy _ dest offset size => [dest, offset, size]
  | msize => []

/-- The operands that are offsets or sizes, and not values or accounts. -/
def positions : MemoryOp → List Word
  | mload offset => [offset]
  | mstore offset _ => [offset]
  | mstore8 offset _ => [offset]
  | mcopy dest source size => [dest, source, size]
  | copy _ dest offset size => [dest, offset, size]
  | msize => []

/-- What the instruction does to the tape. -/
def access (evm : Evm) : MemoryOp → Access UInt8
  | mload offset => .load offset.toNat 32
  | mstore offset value => .store offset.toNat (toBeBytes value)
  | mstore8 offset value => .store offset.toNat [UInt8.ofNat value.toNat]
  | mcopy dest source size => .move dest.toNat source.toNat size.toNat
  | copy source dest offset size =>
    .store dest.toNat (padded (source.bytes evm) offset.toNat size.toNat)
  | msize => .measure

/-- The words that it pushes, as the tape has them. -/
def pushes (tape : Tape UInt8) : MemoryOp → List Word
  | mload offset => [fromBeBytes (tape.window offset.toNat 32)]
  | msize => [BitVec.ofNat 256 (wordsFor tape.stop * 32)]
  | _ => []

/-- What it costs apart from the growth of memory. -/
def baseCost (evm : Evm) : MemoryOp → Nat
  | mload _ | mstore _ _ | mstore8 _ _ => 3
  | mcopy _ _ size => 3 + wordsFor size.toNat * 3
  | copy (.extcode account) _ _ size =>
    accessCost evm (accountAddress account) + wordsFor size.toNat * 3
  | copy _ _ _ size => 3 + wordsFor size.toNat * 3
  | msize => 2

/-- The instruction comes next, and its operands are 64-bit numbers and its sizes are not zero. -/
structure Waits (op : MemoryOp) (rest : List Word) (evm : Evm) : Prop where
  decoded : evm.opcode = some op.opcode
  stack : evm.stack.data = op.operands ++ rest
  room : rest.length < 1024
  near : ∀ word ∈ op.positions, word.toNat ≤ u64Max
  nonempty : ∀ range ∈ (op.access evm).ranges, 0 < range.2
  -- A byte vector is never longer than its length can tell.
  addressable : ∀ source dest offset size, op = copy source dest offset size →
    (source.bytes evm).length ≤ u64Max

/-- There is gas for the exact price, and return data where some is to be copied. -/
structure Funded (op : MemoryOp) (evm : Evm) : Prop where
  paid : op.baseCost evm + growthPrice evm.memory.length
    (wordsFor (furthest evm.memory.length (op.access evm).ranges)) ≤ evm.gasLeft
  returned : ∀ dest offset size, op = copy .returndata dest offset size →
    offset.toNat + size.toNat ≤ evm.returnData.length

/-- Memory and the ranges to touch end within the first 2^32 - 1 words. -/
def Within (op : MemoryOp) (evm : Evm) : Prop :=
  wordsFor (furthest evm.memory.length (op.access evm).ranges) < 2 ^ 32

instance (op : MemoryOp) (evm : Evm) : Decidable (op.Within evm) :=
  inferInstanceAs (Decidable (_ < _))

/-- What it leaves: its word on the stack, and memory as on the tape. -/
structure Served (op : MemoryOp) (before : Evm) (rest : List Word) (tape : Tape UInt8)
    (after : Evm) : Prop where
  stack : after.stack.data = op.pushes tape ++ rest
  backs : Backs after.memory (tape.perform (op.access before))

end MemoryOp

end MiniEvm
