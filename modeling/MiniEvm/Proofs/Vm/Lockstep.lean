import MiniEvm.Frames.Lockstep
import MiniEvm.Proofs.Vm.Runs

/-! Frames that differ behind their code only: which handlers cannot tell them apart. -/

namespace MiniEvm

open EvmM Frames Frames.Program

variable {α β : Type}

/-- The parts of a frame that its code can see only through the readers of the fork. -/
structure Backdrop where
  state : StateFork
  storage : HashMap Word Word
  balances : HashMap Address Word
  nonces : HashMap Address Nat

/-- The frame with another backdrop. -/
def Evm.over (evm : Evm) (back : Backdrop) : Evm :=
  { evm with
    state := back.state
    storage := back.storage
    balances := back.balances
    nonces := back.nonces }

/-- The backdrop of a frame. -/
def Evm.backdrop (evm : Evm) : Backdrop where
  state := evm.state
  storage := evm.storage
  balances := evm.balances
  nonces := evm.nonces

/-- Two forks that look the same to running code, which cannot ask for nonces. -/
structure StateFork.SameReads (one other : StateFork) : Prop where
  balance : ∀ account, one.getBalance account = other.getBalance account
  code : ∀ account, one.getCode account = other.getCode account
  storage : ∀ account key, one.getStorage account key = other.getStorage account key
  transient : ∀ account key, one.tload account key = other.tload account key

/-- What no handler changes before it writes: the account, and the accounts that are new. -/
def Evm.identity (evm : Evm) : Address × Finset Address :=
  (evm.selfAddress, evm.createdInTransaction)

/-- One frame with this identity over two backdrops. -/
def Alike (self : Address × Finset Address) (left right : Backdrop) (one other : Evm) : Prop :=
  ∃ evm : Evm, evm.identity = self ∧ one = evm.over left ∧ other = evm.over right

/-- A handler that opens no frame and does the same over both backdrops, touching neither. -/
def Lockstep (self : Address × Finset Address) (left right : Backdrop) (handler : EvmM α) : Prop :=
  ∀ evm : Evm, evm.identity = self →
    (handler (evm.over left)).Both (fun _ _ => True) (fun _ _ => False) (fun _ _ => False)
      (Alike self left right) (fun value one value' other => value = value' ∧
        Alike self left right one other) (handler (evm.over right))

namespace Lockstep

variable {self : Address × Finset Address} {left right : Backdrop}

/-- A result that is there already is the same in both frames. -/
theorem pure (value : α) : Lockstep self left right (pure value) :=
  fun evm own => ⟨rfl, evm, own, rfl, rfl⟩

/-- Both frames end in the same way. -/
theorem exit (result : ExecutionResult) :
    Lockstep self left right (Frames.Program.exit result : EvmM α) :=
  fun evm own => ⟨rfl, evm, own, rfl, rfl⟩

/-- A panic needs no frame to agree on. -/
theorem fault (cause : Fault) :
    Lockstep self left right (Frames.Program.fault cause : EvmM α) := fun _ _ => rfl

/-- What follows may use the value, since both frames have come to the same one. -/
theorem bind {first : EvmM α} {rest : α → EvmM β} (head : Lockstep self left right first)
    (tail : ∀ value, Lockstep self left right (rest value)) :
    Lockstep self left right (first >>= rest) := by
  intro evm own
  -- The rest starts from one frame again, with the value that both came to.
  refine (head evm own).bind ?_
  rintro value one value' other ⟨rfl, mid, own, rfl, rfl⟩
  exact tail value mid own

/-- Reading the frame is harmless where the rest uses only what the two have in common. -/
theorem get_bind {rest : Evm → EvmM α} (same : ∀ evm : Evm, rest (evm.over left) =
      rest (evm.over right))
    (tail : ∀ evm : Evm, Lockstep self left right (rest (evm.over left))) :
    Lockstep self left right (get >>= rest) := by
  intro evm own
  simp only [bind_apply, get_apply, Tree.bind]
  -- The two readings differ, but what is made of them does not.
  rw [← same evm]
  exact tail evm evm own

/-- A change of what the two have in common. -/
theorem modify {change : Evm → Evm}
    (behind : ∀ (evm : Evm) back, change (evm.over back) = (change evm).over back)
    (own : ∀ evm : Evm, (change evm).identity = evm.identity) :
    Lockstep self left right (Frames.Program.modify change) :=
  fun evm selfs => ⟨rfl, change evm, (own evm).trans selfs, behind evm left,
    behind evm right⟩

end Lockstep

section Primitives

variable {self : Address × Finset Address} {left right : Backdrop}

/-- The stack is common to both frames. -/
theorem lockstep_pop (underflow : ExecutionResult) : Lockstep self left right (pop underflow) := by
  refine .get_bind (fun _ => rfl) fun evm => ?_
  -- A backdrop lies behind the stack, so that one case split serves both frames.
  cases (evm.over left).stack.pop with
  | error message => exact .exit _
  | ok popped => exact .bind (.modify (fun _ _ => rfl) fun _ => rfl) fun _ => .pure _

/-- A full stack is full in both. -/
theorem lockstep_push (value : Word) (overflow : ExecutionResult) :
    Lockstep self left right (push value overflow) := by
  refine .get_bind (fun _ => rfl) fun evm => ?_
  -- The limit of the stack is checked on the common part.
  cases (evm.over left).stack.push value with
  | error message => exact .exit _
  | ok stack => exact .modify (fun _ _ => rfl) fun _ => rfl

/-- The gas is common too, and one frame runs out of it just if the other does. -/
theorem lockstep_charge (cost : Nat) : Lockstep self left right (charge cost) := by
  refine .get_bind (fun _ => rfl) fun evm => ?_
  -- Out of gas or not: the split is on the gas that both have.
  split
  · exact .exit _
  · exact .modify (fun _ _ => rfl) fun _ => rfl

/-- An attempt that was made before has failed for both or for none. -/
theorem lockstep_orVmError (attempt : Except VmError Nat) :
    Lockstep self left right (orVmError attempt) := by
  cases attempt with
  | ok value => exact .pure _
  | error error => exact .exit _

/-- Whether a word is in range does not depend on the frame. -/
theorem lockstep_toUsize (word : Word) : Lockstep self left right (toUsize word) := by
  unfold toUsize
  -- The word is given, so there is no frame to look at.
  cases toU64 word with
  | some value => exact .pure _
  | none => exact .exit _

/-- The memory is common, and so are the bytes read from it. -/
theorem lockstep_readMemory (start stop : Nat) :
    Lockstep self left right (readMemory start stop) := by
  refine .get_bind (fun _ => rfl) fun evm => ?_
  -- A range past the end is a panic, whatever is behind the frame.
  split
  · exact .pure _
  · exact .fault _

/-- A range is out of memory in both or in none. -/
theorem lockstep_writeMemory (offset : Nat) (source : Bytes) :
    Lockstep self left right (writeMemory offset source) := by
  refine .get_bind (fun _ => rfl) fun evm => ?_
  split
  · exact .modify (fun _ _ => rfl) fun _ => rfl
  · exact .fault _

/-- What is copied is given, and nothing is written where there is nothing to copy. -/
theorem lockstep_copyToMemory (dest size : Nat) (source : Nat → UInt8) :
    Lockstep self left right (copyToMemory dest size source) := by
  unfold copyToMemory
  -- A size of zero leaves the memory alone, even past its end.
  split
  · exact .pure _
  · exact lockstep_writeMemory _ _

/-- The lists of accessed accounts are no part of the backdrop. -/
theorem lockstep_markAccessed (address : Address) :
    Lockstep self left right (markAccessed address) := .modify (fun _ _ => rfl) fun _ => rfl

/-- The lists of accessed slots are no part of the backdrop. -/
theorem lockstep_markSlotWarm (key : Word) :
    Lockstep self left right (markSlotWarm key) := .modify (fun _ _ => rfl) fun _ => rfl

/-- A static frame is static over any backdrop. -/
theorem lockstep_requireMutable : Lockstep self left right requireMutable := by
  refine .get_bind (fun _ => rfl) fun evm => ?_
  split
  · exact .exit _
  · exact .pure _

end Primitives

section Growth

variable {self : Address × Finset Address} {left right : Backdrop} {host : Host}

/-- An overflow depends on the numbers and the build. -/
theorem lockstep_uncheckedU64 (result : Nat) :
    Lockstep self left right (uncheckedU64 host result) := by
  unfold uncheckedU64
  -- In range, out of range in a build with checks, and wrapped in one without.
  split
  · exact .pure _
  · split
    · exact .fault _
    · exact .pure _

/-- A difference below zero depends on the numbers and the build. -/
theorem lockstep_uncheckedSub (a b : Nat) :
    Lockstep self left right (uncheckedSub host a b) := by
  unfold uncheckedSub
  split
  · exact .pure _
  · split
    · exact .fault _
    · exact .pure _

/-- The cost of a memory is computed from its number of words. -/
theorem lockstep_memoryCost (words : Nat) : Lockstep self left right (memoryCost host words) := by
  -- Three products and sums in a row, none of which reads the frame.
  refine (lockstep_uncheckedU64 _).bind fun linear => ?_
  refine (lockstep_uncheckedU64 _).bind fun square => ?_
  exact lockstep_uncheckedU64 _

/-- Growth is charged by the length of the memory before and after it. -/
theorem lockstep_touchMemory (offset size : Nat) :
    Lockstep self left right (touchMemory host offset size) := by
  -- An empty range is not even added up.
  unfold touchMemory
  split
  · exact .pure _
  · -- The sums and the length of the memory are the same in both frames.
    cases checkedAdd offset size with
    | none => exact .exit _
    | some endBytes =>
      simp only
      cases checkedAdd endBytes 31 with
      | none => exact .exit _
      | some roundedEnd =>
        refine .get_bind (fun _ => rfl) fun evm => ?_
        split
        · refine (lockstep_memoryCost _).bind fun costNew => ?_
          refine (lockstep_memoryCost _).bind fun costOld => ?_
          refine (lockstep_uncheckedSub _ _).bind fun cost => ?_
          exact (lockstep_charge cost).bind fun _ => .modify (fun _ _ => rfl) fun _ => rfl
        · exact .pure _

/-- Growth that was paid for before fills up with zeros to the same length. -/
theorem lockstep_expandMemory (ranges : List (Nat × Nat)) :
    Lockstep self left right (expandMemoryWithoutCharge ranges) := by
  refine .get_bind (fun _ => rfl) fun evm => ?_
  -- What is required depends on the memory alone.
  cases requiredEnd (evm.over left).memory.length ranges with
  | none => exact .exit _
  | some required =>
    simp only
    cases checkedAdd required 31 with
    | none => exact .exit _
    | some rounded =>
      simp only
      split
      · exact .modify (fun _ _ => rfl) fun _ => rfl
      · exact .pure _

/-- A sum of prices is charged as one, or ends the frame where it overflows. -/
theorem lockstep_chargeSum (first second third : Nat) :
    Lockstep self left right (chargeSum first second third) := by
  unfold chargeSum
  -- The prices were computed before, and only their sum can still overflow.
  cases (checkedAdd first second).bind fun cost => checkedAdd cost third with
  | some total => exact lockstep_charge _
  | none => exact .exit _

/-- The price of a copy depends on its size. -/
theorem lockstep_chargeCopy (sizeWord : Word) :
    Lockstep self left right (chargeCopy sizeWord) := by
  unfold chargeCopy
  cases calcCopyGas sizeWord with
  | ok cost => exact lockstep_charge _
  | error error => exact .exit _

/-- Topics come off the stack. -/
theorem lockstep_popTopics (count : Nat) : Lockstep self left right (popTopics count) := by
  -- One topic after the other is taken off the common stack.
  induction count with
  | zero => exact .pure _
  | succ count ih => exact (lockstep_pop _).bind fun topic => ih.bind fun topics => .pure _

end Growth

section Families

variable {self : Address × Finset Address} {left right : Backdrop} {host : Host}

/-- A function of one operand may look at the frame, where it sees the same in both. -/
theorem lockstep_unary (underflow overflow : String) {compute : Evm → Word → Word}
    (same : ∀ (evm : Evm) value, compute (evm.over left) value = compute (evm.over right) value) :
    Lockstep self left right (unary underflow overflow compute) := by
  refine (lockstep_pop _).bind fun value => ?_
  exact .get_bind (fun evm => by rw [same]) fun evm => lockstep_push _ _

/-- A function of two operands has both from the stack. -/
theorem lockstep_binary (name : String) (compute : Word → Word → Word) :
    Lockstep self left right (binary name compute) :=
  (lockstep_pop _).bind fun _ => (lockstep_pop _).bind fun _ => lockstep_push _ _

/-- A function of three operands has all from the stack. -/
theorem lockstep_ternary (name : String) (compute : Word → Word → Word → Word) :
    Lockstep self left right (ternary name compute) :=
  -- One after the other, as the handler pops them.
  (lockstep_pop _).bind fun _ => (lockstep_pop _).bind fun _ => (lockstep_pop _).bind fun _ =>
    lockstep_push _ _

/-- A reading of the frame is harmless if the backdrops do not show in it. -/
theorem lockstep_pushRead (overflow : String) {read : Evm → Word}
    (same : ∀ evm : Evm, read (evm.over left) = read (evm.over right)) :
    Lockstep self left right (pushRead overflow read) :=
  .get_bind (fun evm => by rw [same]) fun evm => lockstep_push _ _

/-- A query of an account is charged by the marks of the frame. -/
theorem lockstep_accountQuery (overflow : String) {read : Evm → Address → Word}
    (same : ∀ (evm : Evm) address, read (evm.over left) address = read (evm.over right) address) :
    Lockstep self left right (accountQuery overflow read) := by
  refine (lockstep_pop _).bind fun word => ?_
  -- Marking and charging come first; only what is pushed is read from the fork.
  refine .bind ?_ fun _ => .get_bind (fun evm => by rw [same]) fun evm => lockstep_push _ _
  exact .get_bind (fun _ => rfl) fun evm =>
    (lockstep_markAccessed _).bind fun _ => lockstep_charge _

/-- The bytes copied into memory may come from anything but the backdrop. -/
theorem lockstep_copyOpcode (name : String) {source : Evm → Bytes}
    (same : ∀ evm : Evm, source (evm.over left) = source (evm.over right)) :
    Lockstep self left right (copyOpcode host name source) := by
  refine (lockstep_pop _).bind fun dest => (lockstep_pop _).bind fun offset => ?_
  refine (lockstep_pop _).bind fun size => ?_
  -- An empty copy costs nothing and touches nothing.
  split
  · exact .pure _
  · refine (lockstep_chargeCopy _).bind fun _ => (lockstep_touchMemory _ _).bind fun _ => ?_
    exact .get_bind (fun evm => by rw [same]) fun evm => lockstep_copyToMemory _ _ _

/-- What a frame gives back is a part of its memory. -/
theorem lockstep_finishWith (finish : Bytes → ExecutionResult) :
    Lockstep self left right (finishWith host finish) := by
  refine (lockstep_pop _).bind fun offset => (lockstep_pop _).bind fun size => ?_
  -- Memory is made even for bytes that were never written.
  refine (lockstep_touchMemory _ _).bind fun _ => .get_bind (fun _ => rfl) fun evm => ?_
  exact (lockstep_readMemory _ _).bind fun bytes => .exit _

/-- The immediate is a byte of the code, which both frames run. -/
theorem lockstep_opPush1 : Lockstep self left right opPush1 := by
  refine .get_bind (fun _ => rfl) fun evm => ?_
  -- The immediate may be cut off by the end of the code.
  cases (evm.over left).code[(evm.over left).pc]? with
  | none => exact .exit _
  | some byte => exact .bind (.modify (fun _ _ => rfl) fun _ => rfl) fun _ => lockstep_push _ _

/-- An immediate of two bytes is read from the code, which both frames run. -/
theorem lockstep_opPush2 : Lockstep self left right opPush2 := by
  refine .get_bind (fun _ => rfl) fun evm => ?_
  split
  · exact .bind (.modify (fun _ _ => rfl) fun _ => rfl) fun _ => lockstep_push _ _
  · exact .exit _

/-- Longer immediates are filled up with zeros in the same way. -/
theorem lockstep_executePushN (size : Nat) : Lockstep self left right (executePushN size) := by
  refine .get_bind (fun _ => rfl) fun evm => ?_
  exact .bind (.modify (fun _ _ => rfl) fun _ => rfl) fun _ => lockstep_push _ _

/-- Both find the same word at a depth. -/
theorem lockstep_opDup (depth : Nat) : Lockstep self left right (opDup depth) := by
  refine .get_bind (fun _ => rfl) fun evm => ?_
  cases (evm.over left).stack.peek depth with
  | ok value => exact lockstep_push _ _
  | error message => exact .exit _

/-- Both swap the same words. -/
theorem lockstep_opSwap (depth : Nat) : Lockstep self left right (opSwap depth) := by
  refine .get_bind (fun _ => rfl) fun evm => ?_
  cases (evm.over left).stack.swap depth with
  | ok stack => exact .modify (fun _ _ => rfl) fun _ => rfl
  | error message => exact .exit _

/-- The jump destinations are marked once for the code. -/
theorem lockstep_jumpTo (dest : Nat) (invalid : String) :
    Lockstep self left right (jumpTo dest invalid) := by
  refine .get_bind (fun _ => rfl) fun evm => ?_
  -- A destination is valid by the marks of the code alone.
  split
  · exact .modify (fun _ _ => rfl) fun _ => rfl
  · exact .exit _

/-- A condition comes from the stack, so both jump or none. -/
theorem lockstep_opJumpi : Lockstep self left right opJumpi := by
  refine (lockstep_pop _).bind fun dest => (lockstep_pop _).bind fun cond => ?_
  split
  · exact lockstep_jumpTo _ _
  · exact .pure _

end Families

section Memory

variable {self : Address × Finset Address} {left right : Backdrop} {host : Host}

/-- A word is stored where memory has been made for it. -/
theorem lockstep_opMstore : Lockstep self left right (opMstore host) := by
  refine (lockstep_pop _).bind fun offset => (lockstep_pop _).bind fun value => ?_
  -- The handler clears the window before it writes the word.
  refine (lockstep_touchMemory _ _).bind fun _ => ?_
  exact (lockstep_writeMemory _ _).bind fun _ => lockstep_writeMemory _ _

/-- A byte is stored where memory has been made for it. -/
theorem lockstep_opMstore8 : Lockstep self left right (opMstore8 host) := by
  refine (lockstep_pop _).bind fun offset => (lockstep_pop _).bind fun value => ?_
  exact (lockstep_touchMemory _ _).bind fun _ => lockstep_writeMemory _ _

/-- A load may make memory, and reads it back. -/
theorem lockstep_opMload : Lockstep self left right (opMload host) := by
  refine (lockstep_pop _).bind fun offset => (lockstep_touchMemory _ _).bind fun _ => ?_
  exact (lockstep_readMemory _ _).bind fun bytes => lockstep_push _ _

/-- A move within memory pays before it expands, and reads all of its source before it writes. -/
theorem lockstep_opMcopy : Lockstep self left right opMcopy := by
  refine (lockstep_pop _).bind fun destWord => (lockstep_pop _).bind fun sourceWord => ?_
  refine (lockstep_pop _).bind fun sizeWord => (lockstep_toUsize _).bind fun size => ?_
  refine (lockstep_orVmError _).bind fun copyCost => ?_
  -- An empty copy is charged as one, and the others expand the memory first.
  split
  · exact lockstep_chargeSum _ _ _
  · refine (lockstep_toUsize _).bind fun dest => (lockstep_toUsize _).bind fun source => ?_
    refine .get_bind (fun _ => rfl) fun evm => (lockstep_orVmError _).bind fun memoryCost => ?_
    refine (lockstep_chargeSum _ _ _).bind fun _ => (lockstep_expandMemory _).bind fun _ => ?_
    exact (lockstep_readMemory _ _).bind fun bytes => lockstep_writeMemory _ _

/-- A copy of return data ends the frame where it asks for more than there is. -/
theorem lockstep_opReturndatacopy : Lockstep self left right (opReturndatacopy host) := by
  refine (lockstep_pop _).bind fun dest => (lockstep_pop _).bind fun offset => ?_
  refine (lockstep_pop _).bind fun size => .get_bind (fun _ => rfl) fun evm => ?_
  -- The output of the last call is a part of the frame, not of the backdrop.
  cases checkedAdd (asUsize offset) (asUsize size) with
  | none => exact .exit _
  | some stop =>
    simp only
    split
    · refine (lockstep_chargeCopy _).bind fun _ => (lockstep_touchMemory _ _).bind fun _ => ?_
      exact lockstep_writeMemory _ _
    · exact .exit _

/-- A hash is computed from bytes of the memory. -/
theorem lockstep_opKeccak256 : Lockstep self left right (opKeccak256 host) := by
  refine (lockstep_pop _).bind fun offset => (lockstep_pop _).bind fun size => ?_
  -- The price is that of the words that are hashed.
  refine (lockstep_chargeCopy _).bind fun _ => (lockstep_touchMemory _ _).bind fun _ => ?_
  exact (lockstep_readMemory _ _).bind fun bytes => lockstep_push _ _

/-- A log names the account of its frame, which both frames act as. -/
theorem lockstep_opLog (topics : Nat) : Lockstep self left right (opLog host topics) := by
  refine lockstep_requireMutable.bind fun _ => (lockstep_pop _).bind fun offset => ?_
  refine (lockstep_pop _).bind fun size => (lockstep_popTopics _).bind fun found => ?_
  -- The price comes from the operands, which both have popped.
  cases logGas topics (asUsize size) with
  | none => exact .exit _
  | some gas =>
    refine (lockstep_charge _).bind fun _ => (lockstep_touchMemory _ _).bind fun _ => ?_
    exact (lockstep_readMemory _ _).bind fun data => .modify (fun _ _ => rfl) fun _ => rfl

end Memory

section Calls

variable {self : Address × Finset Address} {left right : Backdrop} {host : Host}

/-- Whether the target of a call is new is decided by a map that both frames share. -/
theorem lockstep_calcCallBaseGas (target : Address) (value : Word)
    (argsOffset argsSize retOffset retSize : Nat) : Lockstep self left right
      (calcCallBaseGas target value argsOffset argsSize retOffset retSize) := by
  refine .get_bind (fun _ => rfl) fun evm => (lockstep_orVmError _).bind fun memoryCost => ?_
  -- The mark is the same in both frames, since their accesses agree.
  refine (lockstep_markAccessed _).bind fun _ => ?_
  simp only
  split
  · exact .pure _
  · exact .exit _

/-- Both kinds of base cost are the same over both backdrops. -/
theorem lockstep_callBaseGas (forceStatic : Bool) (target : Address) (value : Word)
    (argsOffset argsSize retOffset retSize : Nat) : Lockstep self left right
      (callBaseGas forceStatic target value argsOffset argsSize retOffset retSize) := by
  cases forceStatic with
  | false => exact lockstep_calcCallBaseGas _ _ _ _ _ _
  | true =>
    refine (lockstep_calcCallBaseGas _ _ _ _ _ _).bind fun normal => ?_
    -- The base of a static call leaves out what a value would cost.
    split
    · exact .pure _
    · exact .exit _

/-- A call that sends no value leaves its operand out. -/
theorem lockstep_popCallValue (forceStatic delegate : Bool) :
    Lockstep self left right (popCallValue forceStatic delegate) := by
  unfold popCallValue
  split
  · exact .pure _
  · exact lockstep_pop _

/-- Everything up to the callee is decided by the stack, the memory and the gas. -/
theorem lockstep_prepareCall (forceStatic delegate : Bool) :
    Lockstep self left right (prepareCall forceStatic delegate) := by
  refine (lockstep_pop _).bind fun gasWord => (lockstep_pop _).bind fun addressWord => ?_
  refine (lockstep_popCallValue _ _).bind fun value => (lockstep_pop _).bind fun w1 => ?_
  refine (lockstep_pop _).bind fun w2 => (lockstep_pop _).bind fun w3 => ?_
  refine (lockstep_pop _).bind fun w4 => (lockstep_toUsize _).bind fun argsOffset => ?_
  refine (lockstep_toUsize _).bind fun argsSize => (lockstep_toUsize _).bind fun retOffset => ?_
  refine (lockstep_toUsize _).bind fun retSize => ?_
  refine (lockstep_callBaseGas _ _ _ _ _ _ _).bind fun baseGas => ?_
  refine (lockstep_charge _).bind fun _ => (lockstep_expandMemory _).bind fun _ => ?_
  refine (lockstep_readMemory _ _).bind fun input => .get_bind (fun _ => rfl) fun evm => ?_
  -- What was reserved for the callee is set aside in the same frame.
  exact .bind (.modify (fun _ _ => rfl) fun _ => rfl) fun _ => .pure _

/-- The window of a call is cleared, and then filled. -/
theorem lockstep_writeOutput (retOffset retSize : Nat) (output : Bytes) :
    Lockstep self left right (writeOutput retOffset retSize output) :=
  (lockstep_writeMemory _ _).bind fun _ => lockstep_writeMemory _ _

/-- Precompiled contracts open no frame. -/
theorem lockstep_callPrecompile (setup : CallSetup) :
    Lockstep self left right (callPrecompile host setup) := by
  simp only [callPrecompile]
  -- A precompile sees its input and its gas, and nothing of the fork.
  split
  · exact .exit _
  · exact .exit _
  · refine .bind (.modify (fun _ _ => rfl) fun _ => rfl) fun _ => ?_
    exact (lockstep_writeOutput _ _ _).bind fun _ => lockstep_push _ _

/-- Init code is paid for, and then read from the memory. -/
theorem lockstep_prepareInitCode (offsetWord sizeWord : Word) (salt : Option Word) :
    Lockstep self left right (prepareInitCode offsetWord sizeWord salt) := by
  refine (lockstep_toUsize _).bind fun offset => (lockstep_toUsize _).bind fun size => ?_
  -- What the memory will cost is computed from its present length.
  refine .get_bind (fun _ => rfl) fun evm => (lockstep_orVmError _).bind fun expansion => ?_
  refine (lockstep_orVmError _).bind fun hashGas => (lockstep_chargeSum _ _ _).bind fun _ => ?_
  exact (lockstep_expandMemory _).bind fun _ => lockstep_readMemory _ _

/-- How a creation came out is pushed, or ends the frame. -/
theorem lockstep_finishCreate (outcome : Except VmError Word) :
    Lockstep self left right (finishCreate outcome) := by
  unfold finishCreate
  -- An address, a failure that is pushed as zero, or the error that ends the frame.
  split
  · exact lockstep_push _ _
  · exact .exit _
  · exact lockstep_push _ _

end Calls

section Readers

variable {self : Address × Finset Address} {left right : Backdrop} {host : Host}
  (same : left.state.SameReads right.state)

include same

/-- Two forks that look alike have the same code to copy. -/
theorem lockstep_opExtcodecopy : Lockstep self left right opExtcodecopy := by
  refine (lockstep_pop _).bind fun addressWord => (lockstep_pop _).bind fun destWord => ?_
  refine (lockstep_pop _).bind fun offsetWord => (lockstep_pop _).bind fun sizeWord => ?_
  refine (lockstep_toUsize _).bind fun dest => (lockstep_toUsize _).bind fun offset => ?_
  refine (lockstep_toUsize _).bind fun size => ?_
  cases calcCopyGas sizeWord with
  | error error => exact .exit _
  | ok copyCost =>
    refine .get_bind (fun evm => ?_) fun evm => ?_
    · -- The copied code is the one part that comes from the fork.
      show (do
        markAccessed (accountAddress addressWord)
        let memoryCost ← orVmError (memoryExpansionCost evm.memory.length [(dest, size)])
        chargeSum (accessCost evm (accountAddress addressWord)) copyCost memoryCost
        expandMemoryWithoutCharge [(dest, size)]
        copyToMemory dest size
          (byteOrZero (left.state.getCode (accountAddress addressWord)) offset)) = _
      rw [same.code]
      rfl
    · refine (lockstep_markAccessed _).bind fun _ => (lockstep_orVmError _).bind fun memoryCost => ?_
      refine (lockstep_chargeSum _ _ _).bind fun _ => (lockstep_expandMemory _).bind fun _ => ?_
      exact lockstep_copyToMemory _ _ _

/-- Two forks that look alike have the same value in a slot. -/
theorem lockstep_opSload : Lockstep self left right opSload := by
  refine (lockstep_pop _).bind fun key => .get_bind (fun evm => ?_) fun evm => ?_
  · -- The value comes from the fork; its price comes from the marks of the frame.
    show (do
      markSlotWarm key
      charge (if key ∈ evm.accessedSlots then 100 else 2100)
      push (left.state.getStorage evm.selfAddress key) (.error "Stack Overflow on SLOAD")) = _
    rw [same.storage]
    rfl
  · refine (lockstep_markSlotWarm _).bind fun _ => (lockstep_charge _).bind fun _ => ?_
    exact lockstep_push _ _

/-- Transient slots are read by the account that both act for. -/
theorem lockstep_opTload : Lockstep self left right opTload :=
  lockstep_unary _ _ fun evm key => same.transient evm.transientAddress key

/-- Forks that look alike have the same balance for the frame's own account. -/
theorem lockstep_opSelfbalance : Lockstep self left right opSelfbalance :=
  lockstep_pushRead _ fun evm => same.balance evm.selfAddress

/-- Forks that look alike have the same balance for any account. -/
theorem lockstep_opBalance : Lockstep self left right opBalance :=
  lockstep_accountQuery _ fun _ address => same.balance address

/-- The size of an account's code is that of the code that both forks have. -/
theorem lockstep_opExtcodesize : Lockstep self left right opExtcodesize :=
  lockstep_accountQuery _ fun _ address =>
    congrArg (fun code : Bytes => BitVec.ofNat 256 code.length) (same.code address)

/-- The hash of an account's code is the same too, or zero where there is no code. -/
theorem lockstep_opExtcodehash : Lockstep self left right (opExtcodehash host) :=
  lockstep_accountQuery _ fun _ address =>
    congrArg (fun code : Bytes => if code.isEmpty then 0 else host.keccak256 code)
      (same.code address)

/-- The opcodes that write to the fork or open a frame. -/
def Opcode.reachesOut : Opcode → Bool
  | sstore | tstore | selfdestruct | call | delegatecall | staticcall | create | create2 => true
  | _ => false

/-- No other opcode can tell the two backdrops apart, nor does it touch them. -/
theorem lockstep_dispatch {op : Opcode} (inside : op.reachesOut = false) :
    Lockstep self left right (dispatch host op) := by
  cases op with
  | stop | jumpdest => exact .pure _
  | add | mul | sub | div | sdiv | mod | smod | exp | signextend | lt | gt | eq | and | or | xor
  | byte | shl | shr | sar => exact lockstep_binary _ _
  | addmod | mulmod => exact lockstep_ternary _ _
  | iszero | not | calldataload | blockhash | blobhash =>
    exact lockstep_unary _ _ fun _ _ => rfl
  | address | origin | caller | callvalue | calldatasize | codesize | gasprice | returndatasize
  | coinbase | timestamp | number | prevrandao | gaslimit | chainid | basefee | blobbasefee
  | msize | gas => exact lockstep_pushRead _ fun _ => rfl
  | calldatacopy | codecopy => exact lockstep_copyOpcode _ fun _ => rfl
  | keccak256 => exact lockstep_opKeccak256
  | returndatacopy => exact lockstep_opReturndatacopy
  | mload => exact lockstep_opMload
  | mstore => exact lockstep_opMstore
  | mstore8 => exact lockstep_opMstore8
  | mcopy => exact lockstep_opMcopy
  | jump => exact (lockstep_pop _).bind fun dest => lockstep_jumpTo _ _
  | jumpi => exact lockstep_opJumpi
  | push1 => exact lockstep_opPush1
  | push2 => exact lockstep_opPush2
  | push size => exact lockstep_executePushN size
  | dup depth => exact lockstep_opDup depth
  | swap depth => exact lockstep_opSwap depth
  | log topics => exact lockstep_opLog topics
  | return_ | revert => exact lockstep_finishWith _
  | invalid => exact .bind (.modify (fun _ _ => rfl) fun _ => rfl) fun _ => .exit _
  | undefined => exact .exit _
  -- These read the fork, where both see the same.
  | balance => exact lockstep_opBalance same
  | selfbalance => exact lockstep_opSelfbalance same
  | extcodesize => exact lockstep_opExtcodesize same
  | extcodehash => exact lockstep_opExtcodehash same
  | extcodecopy => exact lockstep_opExtcodecopy same
  | sload => exact lockstep_opSload same
  | tload => exact lockstep_opTload same
  | sstore | tstore | selfdestruct | call | delegatecall | staticcall | create | create2 =>
    cases inside

end Readers

end MiniEvm
