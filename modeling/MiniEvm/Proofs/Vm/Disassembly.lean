import Mathlib.Data.List.Chain
import Mathlib.Data.List.Infix
import Mathlib.Logic.Equiv.Defs
import MiniEvm.Collections.Chunks
import MiniEvm.Vm.Disassembler

/-! Listings: what a disassembly looks like, and that it is as good as the code itself. -/

namespace MiniEvm

open Collections

/-- How many bytes a push asks for; no other opcode asks for any. -/
def pushSize (opcode : UInt8) : Option Nat :=
  if 0x60 ≤ opcode ∧ opcode ≤ 0x7F then some (opcode.toNat - 0x60 + 1) else none

/-- How many bytes belong to an opcode, behind itself. -/
def immediateSize (opcode : UInt8) : Nat := (pushSize opcode).getD 0

/-- An opcode that asks for so many bytes is shown as the push of that many. -/
theorem opcodeMnemonic_of_pushSize {opcode : UInt8} {n : Nat} (asks : pushSize opcode = some n) :
    opcodeMnemonic opcode = "PUSH" ++ toString n := by
  -- There are only 32 pushes.
  have all : ∀ n < 32, opcodeMnemonic (UInt8.ofNat (0x60 + n)) = "PUSH" ++ toString (n + 1) := by
    decide +kernel
  unfold pushSize at asks
  split at asks
  · rename_i push
    have low : 0x60 ≤ opcode.toNat := push.1
    have high : opcode.toNat ≤ 0x7F := push.2
    obtain rfl := Option.some.inj asks
    have name := all (opcode.toNat - 0x60) (by omega)
    rwa [Nat.add_sub_cancel' low, UInt8.ofNat_toNat] at name
  · cases asks

namespace Instruction

/-- An instruction as it is written: its opcode, and then the immediate if there is one. -/
def bytes (instruction : Instruction) : Bytes :=
  instruction.opcode :: instruction.pushBytes.getD []

/-- Name and immediate go with the opcode, however long the immediate is. -/
structure Shown (instruction : Instruction) : Prop where
  mnemonic : instruction.mnemonic = opcodeMnemonic instruction.opcode
  pushBytes : instruction.pushBytes.isSome = (pushSize instruction.opcode).isSome

/-- An instruction is known by where it stands and how it is written. -/
theorem Shown.eq {one other : Instruction} (shown : one.Shown) (shown' : other.Shown)
    (pc : one.pc = other.pc) (bytes : one.bytes = other.bytes) : one = other := by
  obtain ⟨pc₁, opcode₁, mnemonic₁, pushBytes₁⟩ := one
  obtain ⟨pc₂, opcode₂, mnemonic₂, pushBytes₂⟩ := other
  obtain ⟨name, present⟩ := shown
  obtain ⟨name', present'⟩ := shown'
  obtain ⟨same, rest⟩ := List.cons.inj bytes
  simp only at name present name' present' pc same rest
  subst pc same name name'
  -- An empty immediate is told from a missing one by the opcode.
  have presence := present.trans present'.symm
  cases pushBytes₁ <;> cases pushBytes₂ <;> simp_all

end Instruction

/-- Every instruction stands right behind the one before it. -/
def Placed : Nat → List Instruction → Prop
  | _, [] => True
  | pc, instruction :: rest => instruction.pc = pc ∧ Placed (pc + instruction.bytes.length) rest

/-- A listing is known by where it starts and how it is written. -/
theorem eq_of_bytes {pc : Nat} {list other : List Instruction} (placed : Placed pc list)
    (placed' : Placed pc other) (shown : ∀ instruction ∈ list, instruction.Shown)
    (shown' : ∀ instruction ∈ other, instruction.Shown)
    (bytes : list.map Instruction.bytes = other.map Instruction.bytes) : list = other := by
  -- Each instruction settles where the next one stands.
  induction list generalizing pc other with
  | nil => exact (List.map_eq_nil_iff.mp bytes.symm).symm
  | cons instruction rest ih =>
    cases other with
    | nil => cases bytes
    | cons instruction' rest' =>
      obtain ⟨start, behind⟩ := placed
      obtain ⟨start', behind'⟩ := placed'
      obtain ⟨same, later⟩ := List.cons.inj bytes
      rw [List.forall_mem_cons] at shown shown'
      rw [← same] at behind'
      rw [shown.1.eq shown'.1 (start.trans start'.symm) same,
        ih behind behind' shown.2 shown'.2 later]

/-- Instructions that are placed stand one behind the other. -/
theorem Placed.isChain {pc : Nat} {list : List Instruction} (placed : Placed pc list) :
    (∀ first ∈ list.head?, first.pc = pc) ∧
      list.IsChain fun previous next => next.pc = previous.pc + previous.bytes.length := by
  induction list generalizing pc with
  | nil => simp
  | cons instruction rest ih =>
    obtain ⟨rfl, behind⟩ := placed
    obtain ⟨next, chain⟩ := ih behind
    exact ⟨by simp, List.isChain_cons.mpr ⟨next, chain⟩⟩

/-- What every disassembly looks like, and nothing else does. -/
structure IsListing (instructions : List Instruction) : Prop where
  placed : Placed 0 instructions
  cut : Cut immediateSize (instructions.map Instruction.bytes)
  shown : ∀ instruction ∈ instructions, instruction.Shown

section Walks

variable {code : Bytes}

/-- What is listed behind an opcode is what the code has of its immediate. -/
theorem pushBytesAt_eq (pc : Nat) (opcode : UInt8) :
    pushBytesAt code pc opcode =
      (pushSize opcode).map fun size => (code.drop (pc + 1)).take size := by
  unfold pushBytesAt pushSize
  split
  · -- The bound by what is available is the bound that the end of code sets anyway.
    simp only [slice, Option.map_some, Option.some.injEq]
    rw [List.drop_take, Nat.add_sub_cancel_left, List.take_eq_take_iff, List.length_drop]
    omega
  · rfl

/-- The immediate is what the code has left of it. -/
theorem immediateAt_eq (pc : Nat) (opcode : UInt8) :
    (pushBytesAt code pc opcode).getD [] = (code.drop (pc + 1)).take (immediateSize opcode) := by
  rw [pushBytesAt_eq, immediateSize]
  cases pushSize opcode <;> simp

/-- It is no longer than its opcode asks for. -/
theorem length_le_of_pushBytesAt {pc : Nat} {opcode : UInt8} {bytes : Bytes}
    (listed : pushBytesAt code pc opcode = some bytes) : bytes.length ≤ immediateSize opcode := by
  have immediate := @immediateAt_eq code pc opcode
  rw [listed, Option.getD_some] at immediate
  rw [immediate]
  exact List.length_take_le _ _

/-- The instruction that is listed for a byte of code. -/
def instructionAt (code : Bytes) (pc : Nat) (opcode : UInt8) : Instruction :=
  { pc, opcode, mnemonic := opcodeMnemonic opcode, pushBytes := pushBytesAt code pc opcode }

/-- An instruction has its opcode and its immediate as bytes. -/
theorem bytes_instructionAt (pc : Nat) (opcode : UInt8) :
    (instructionAt code pc opcode).bytes =
      opcode :: (code.drop (pc + 1)).take (immediateSize opcode) := by
  rw [← immediateAt_eq]
  rfl

/-- It is shown as what it is. -/
theorem shown_instructionAt (pc : Nat) (opcode : UInt8) :
    (instructionAt code pc opcode).Shown := by
  refine ⟨rfl, ?_⟩
  show (pushBytesAt code pc opcode).isSome = (pushSize opcode).isSome
  rw [pushBytesAt_eq, Option.isSome_map]

/-- There is nothing to list past the end of the code. -/
theorem disassemble_walk_of_end {pc : Nat} (past : code.length ≤ pc) (fuel : Nat) :
    disassemble.walk code fuel pc = [] := by
  cases fuel with
  | zero => rfl
  | succ fuel => rw [disassemble.walk, List.getElem?_eq_none past]

/-- It makes no difference whether a walk goes on behind all the bytes asked for, or those there. -/
theorem disassemble_walk_behind (fuel pc : Nat) (opcode : UInt8) :
    disassemble.walk code fuel (pc + (instructionAt code pc opcode).bytes.length) =
      disassemble.walk code fuel (pc + (immediateSize opcode + 1)) := by
  rw [bytes_instructionAt, List.length_cons, List.length_take, List.length_drop]
  by_cases cut : code.length < pc + (immediateSize opcode + 1)
  · -- Bytes are missing, so either way the code has ended there.
    rw [disassemble_walk_of_end (by omega), disassemble_walk_of_end (by omega)]
  · rw [Nat.min_eq_left (by omega)]

/-- Every round lists one instruction and goes on behind it, and the early exit skips nothing. -/
theorem disassemble_walk_succ {pc : Nat} {opcode : UInt8} (here : code[pc]? = some opcode)
    (fuel : Nat) :
    disassemble.walk code (fuel + 1) pc = instructionAt code pc opcode ::
      disassemble.walk code fuel (pc + (immediateSize opcode + 1)) := by
  have immediate : ((pushBytesAt code pc opcode).map List.length).getD 0 =
      ((pushBytesAt code pc opcode).getD []).length := by
    cases pushBytesAt code pc opcode <;> rfl
  rw [← disassemble_walk_behind, disassemble.walk, here]
  simp only [immediate, immediateAt_eq, bytes_instructionAt, List.length_cons, Nat.add_comm 1]
  split
  · rename_i cut
    -- The push got fewer bytes than it asks for, so these are all that the code had left.
    have inside : pc < code.length := (List.getElem?_eq_some_iff.mp here).1
    have asked : immediateSize opcode = opcode.toNat - 0x60 + 1 := by
      rw [immediateSize, pushSize, if_pos cut.1, Option.getD_some]
    have short := cut.2
    rw [List.length_take, List.length_drop] at short ⊢
    rw [disassemble_walk_of_end (by omega)]
    rfl
  · rfl

/-- With enough fuel the walk writes down the chunks of the code that is left. -/
theorem bytes_disassemble_walk {fuel pc : Nat} (enough : code.length - pc ≤ fuel) :
    (disassemble.walk code fuel pc).map Instruction.bytes =
      chunks immediateSize (code.drop pc) := by
  induction fuel generalizing pc with
  | zero =>
    rw [disassemble_walk_of_end (by omega), List.drop_eq_nil_of_le (by omega), chunks_nil,
      List.map_nil]
  | succ fuel ih =>
    cases here : code[pc]? with
    | none =>
      have past : code.length ≤ pc := List.getElem?_eq_none_iff.mp here
      rw [disassemble_walk_of_end past, List.drop_eq_nil_of_le past, chunks_nil, List.map_nil]
    | some opcode =>
      -- The first chunk is the instruction, and the others are those from behind it on.
      obtain ⟨inside, rfl⟩ := List.getElem?_eq_some_iff.mp here
      rw [disassemble_walk_succ here, List.map_cons, ih (by omega), bytes_instructionAt,
        List.drop_eq_getElem_cons inside, chunks_cons, List.drop_drop, Nat.add_right_comm pc 1,
        Nat.add_assoc pc]

/-- The walk lists instructions in their places. -/
theorem placed_disassemble_walk (fuel pc : Nat) : Placed pc (disassemble.walk code fuel pc) := by
  -- What counts for the next position is what was written down, not what was asked for.
  induction fuel generalizing pc with
  | zero => trivial
  | succ fuel ih =>
    cases here : code[pc]? with
    | none =>
      rw [disassemble_walk_of_end (List.getElem?_eq_none_iff.mp here)]
      trivial
    | some opcode =>
      rw [disassemble_walk_succ here, ← disassemble_walk_behind]
      exact ⟨rfl, ih _⟩

/-- What is listed depends on nothing but where it stands and which opcode is there. -/
theorem eq_instructionAt_of_listed (fuel pc : Nat) :
    ∀ instruction ∈ disassemble.walk code fuel pc,
      instruction = instructionAt code instruction.pc instruction.opcode := by
  -- Every round lists one instruction and leaves the others to the next.
  induction fuel generalizing pc with
  | zero => simp [disassemble.walk]
  | succ fuel ih =>
    cases here : code[pc]? with
    | none => simp [disassemble_walk_of_end (List.getElem?_eq_none_iff.mp here)]
    | some opcode =>
      rw [disassemble_walk_succ here]
      exact List.forall_mem_cons.mpr ⟨rfl, ih _⟩

/-- It shows each of them as what it is. -/
theorem shown_disassemble_walk (fuel pc : Nat) :
    ∀ instruction ∈ disassemble.walk code fuel pc, instruction.Shown := by
  intro instruction listed
  rw [eq_instructionAt_of_listed fuel pc instruction listed]
  exact shown_instructionAt _ _

end Walks

section Listings

/-- A disassembly writes down the chunks of the code. -/
theorem bytes_disassemble (code : Bytes) :
    (disassemble code).map Instruction.bytes = chunks immediateSize code := by
  rw [disassemble, bytes_disassemble_walk (by omega), List.drop_zero]

/-- More rounds than the code has bytes list nothing more. -/
theorem walk_eq_disassemble (code : Bytes) (more : Nat) :
    disassemble.walk code (code.length + more) 0 = disassemble code := by
  -- Both walks write down all chunks of the code.
  refine eq_of_bytes (placed_disassemble_walk _ _) (placed_disassemble_walk _ _)
    (shown_disassemble_walk _ _) (shown_disassemble_walk _ _) ?_
  rw [bytes_disassemble, bytes_disassemble_walk (by omega), List.drop_zero]

/-- The bytes of all listed instructions are the code. -/
theorem flatMap_bytes_disassemble (code : Bytes) :
    (disassemble code).flatMap Instruction.bytes = code := by
  rw [List.flatMap_def, bytes_disassemble, flatten_chunks]

/-- So the disassembly is a listing. -/
theorem isListing_disassemble (code : Bytes) : IsListing (disassemble code) where
  placed := placed_disassemble_walk _ _
  cut := by
    rw [bytes_disassemble]
    exact cut_chunks code
  shown := shown_disassemble_walk _ _

/-- A listing is the disassembly of the code that it writes down. -/
theorem disassemble_flatMap_bytes {instructions : List Instruction}
    (listing : IsListing instructions) :
    disassemble (instructions.flatMap Instruction.bytes) = instructions := by
  -- There is only one way to cut the code, and the listing has cut it so.
  have listing' := isListing_disassemble (instructions.flatMap Instruction.bytes)
  refine eq_of_bytes listing'.placed listing.placed listing'.shown listing.shown ?_
  rw [bytes_disassemble, List.flatMap_def, chunks_flatten listing.cut]

/-- Code and listings are two ways to write the same thing. -/
def disassembly : Bytes ≃ { instructions : List Instruction // IsListing instructions } where
  toFun code := ⟨disassemble code, isListing_disassemble code⟩
  invFun listing := listing.val.flatMap Instruction.bytes
  left_inv := flatMap_bytes_disassemble
  right_inv listing := Subtype.ext (disassemble_flatMap_bytes listing.property)

/-- Every instruction but the last one has an immediate of the size that its opcode asks for. -/
theorem IsListing.whole {instructions : List Instruction} (listing : IsListing instructions) :
    ∀ instruction ∈ instructions.dropLast,
      instruction.pushBytes.map List.length = pushSize instruction.opcode := by
  intro instruction member
  have part : instruction.bytes ∈ (instructions.map Instruction.bytes).dropLast := by
    rw [← List.map_dropLast]
    exact List.mem_map_of_mem member
  obtain ⟨head, tail, written, whole⟩ := listing.cut.whole_of_mem_dropLast _ part
  obtain ⟨rfl, rfl⟩ := List.cons.inj written
  -- A missing immediate and an empty one are both written as nothing.
  have present := (listing.shown instruction (List.mem_of_mem_dropLast member)).pushBytes
  rw [immediateSize] at whole
  cases carried : instruction.pushBytes <;> cases asked : pushSize instruction.opcode <;>
    simp_all

/--
A disassembly holds all of the code, in order and nothing twice.

No round is missing for want of fuel. What the instructions write down is the code, each stands
right behind the one before it, and only the last one may have less behind its opcode than that
asks for. So different codes have different disassemblies.
-/
theorem disassemble_lossless :
    (∀ code more, disassemble.walk code (code.length + more) 0 = disassemble code) ∧
    (∀ code, (disassemble code).flatMap Instruction.bytes = code) ∧
    (∀ code, (∀ first ∈ (disassemble code).head?, first.pc = 0) ∧
      (disassemble code).IsChain fun previous next =>
        next.pc = previous.pc + previous.bytes.length) ∧
    (∀ code, ∀ instruction ∈ (disassemble code).dropLast,
      instruction.pushBytes.map List.length = pushSize instruction.opcode) ∧
    Function.Injective disassemble := by
  refine ⟨walk_eq_disassemble, flatMap_bytes_disassemble, ?_, ?_, ?_⟩
  · exact fun code => (isListing_disassemble code).placed.isChain
  · exact fun code => (isListing_disassemble code).whole
  · exact Function.LeftInverse.injective flatMap_bytes_disassemble

end Listings

end MiniEvm
