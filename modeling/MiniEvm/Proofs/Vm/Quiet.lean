import MiniEvm.Vm.Interpreter

/-! Handlers that change nothing but the stack, the memory, the gas and the access lists. -/

namespace MiniEvm

open EvmM Frames Frames.Program

variable {α β : Type}

/-- Everything but the stack, the memory and the access lists is as before, and no gas appeared. -/
structure Quiet (before after : Evm) : Prop where
  code : after.code = before.code
  pc : after.pc = before.pc
  storage : after.storage = before.storage
  balances : after.balances = before.balances
  nonces : after.nonces = before.nonces
  contracts : after.contracts = before.contracts
  context : after.context = before.context
  storageAddress : after.storageAddress = before.storageAddress
  transientStorageAddress : after.transientStorageAddress = before.transientStorageAddress
  env : after.env = before.env
  returnData : after.returnData = before.returnData
  logs : after.logs = before.logs
  isStatic : after.isStatic = before.isStatic
  validJumpdests : after.validJumpdests = before.validJumpdests
  state : after.state = before.state
  createdInTransaction : after.createdInTransaction = before.createdInTransaction
  gas : after.gasLeft ≤ before.gasLeft

namespace Quiet

/-- Doing nothing is quiet. -/
theorem refl (evm : Evm) : Quiet evm evm := by
  constructor <;> rfl

/-- Quiet changes may follow each other. -/
theorem trans {a b c : Evm} (first : Quiet a b) (second : Quiet b c) : Quiet a c where
  code := second.code.trans first.code
  pc := second.pc.trans first.pc
  storage := second.storage.trans first.storage
  balances := second.balances.trans first.balances
  nonces := second.nonces.trans first.nonces
  contracts := second.contracts.trans first.contracts
  context := second.context.trans first.context
  storageAddress := second.storageAddress.trans first.storageAddress
  transientStorageAddress := second.transientStorageAddress.trans first.transientStorageAddress
  env := second.env.trans first.env
  returnData := second.returnData.trans first.returnData
  logs := second.logs.trans first.logs
  isStatic := second.isStatic.trans first.isStatic
  validJumpdests := second.validJumpdests.trans first.validJumpdests
  state := second.state.trans first.state
  createdInTransaction := second.createdInTransaction.trans first.createdInTransaction
  gas := second.gas.trans first.gas

/-- A quiet change keeps the account a frame acts as. -/
theorem selfAddress {a b : Evm} (quiet : Quiet a b) : b.selfAddress = a.selfAddress := by
  simp only [Evm.selfAddress, quiet.storageAddress, quiet.context]

end Quiet

/-- A result on which the loop of a frame does not go on. -/
class Stops (result : ExecutionResult) : Prop where
  ne_halt : result ≠ .halt

instance (data : Bytes) : Stops (.return_ data) := ⟨nofun⟩
instance (data : Bytes) : Stops (.revert data) := ⟨nofun⟩
instance (message : String) : Stops (.error message) := ⟨nofun⟩
instance (error : VmError) : Stops (.vmError error) := ⟨nofun⟩
instance : Stops .outOfGas := ⟨nofun⟩
instance : Stops .stackUnderflow := ⟨nofun⟩
instance : Stops .stackOverflow := ⟨nofun⟩
instance (op : UInt8) : Stops (.invalidOpcode op) := ⟨nofun⟩

/--
Started here, a handler opens no frame, is quiet up to each of its ends, and may say more.

An early end never carries the result on which the loop goes on.
-/
def Calm (onFault : Fault → Prop) (evm : Evm) (handler : EvmM α) (post : α → Evm → Prop) : Prop :=
  handler.Meets evm onFault (fun result after => Quiet evm after ∧ result ≠ .halt)
    (fun value after => Quiet evm after ∧ post value after)

namespace Calm

variable {onFault : Fault → Prop} {evm : Evm}

/-- Quiet handlers compose. -/
theorem bind {first : EvmM α} {rest : α → EvmM β} {middle : α → Evm → Prop}
    {post : β → Evm → Prop} (head : Calm onFault evm first middle)
    (tail : ∀ value mid, Quiet evm mid → middle value mid →
      Calm onFault mid (rest value) post) :
    Calm onFault evm (first >>= rest) post := by
  refine Meets.bind head fun value mid holds => ?_
  -- What the rest does quietly from the middle state is quiet from the first state as well.
  exact (tail value mid holds.1 holds.2).weaken (fun _ faulted => faulted)
    (fun _ _ ended => ⟨holds.1.trans ended.1, ended.2⟩)
    (fun _ _ ended => ⟨holds.1.trans ended.1, ended.2⟩)

/-- What is known of the end may be weakened. -/
theorem weaken {handler : EvmM α} {post post' : α → Evm → Prop}
    (calm : Calm onFault evm handler post)
    (posts : ∀ value after, Quiet evm after → post value after → post' value after) :
    Calm onFault evm handler post' :=
  Meets.weaken calm (fun _ faulted => faulted) (fun _ _ ended => ended)
    (fun value after ended => ⟨ended.1, posts value after ended.1 ended.2⟩)

/-- The quiet change itself may be part of what is known at the end. -/
theorem withQuiet {handler : EvmM α} {post : α → Evm → Prop}
    (calm : Calm onFault evm handler post) :
    Calm onFault evm handler fun value after => Quiet evm after ∧ post value after :=
  calm.weaken fun _ _ quiet holds => ⟨quiet, holds⟩

/-- A result is calm. -/
theorem pure {value : α} {post : α → Evm → Prop} (holds : post value evm) :
    Calm onFault evm (pure value) post := ⟨.refl evm, holds⟩

/-- An end is calm. -/
theorem exit {result : ExecutionResult} [Stops result] {post : α → Evm → Prop} :
    Calm onFault evm (Frames.Program.exit result) post := ⟨Quiet.refl evm, Stops.ne_halt⟩

/-- An abort is calm, if it is an allowed one. -/
theorem fault {cause : Fault} {post : α → Evm → Prop} (allowed : onFault cause) :
    Calm onFault evm (Frames.Program.fault cause) post := allowed

/-- Reading the state yields exactly the state. -/
theorem get : Calm onFault evm (Frames.Program.get : EvmM Evm)
    fun value after => value = evm ∧ after = evm := ⟨.refl evm, rfl, rfl⟩

/-- What comes after reading the frame starts from that frame, and is given it. -/
theorem get_bind {rest : Evm → EvmM β} {post : β → Evm → Prop}
    (tail : Calm onFault evm (rest evm) post) :
    Calm onFault evm (Frames.Program.get >>= rest) post := tail

/-- A change that is quiet makes a quiet handler. -/
theorem modify {change : Evm → Evm} (quiet : Quiet evm (change evm)) :
    Calm onFault evm (Frames.Program.modify change) fun _ after => after = change evm :=
  ⟨quiet, rfl⟩

end Calm

section Primitives

variable {onFault : Fault → Prop} {evm : Evm}

/-- Popping yields the top and leaves the rest. -/
theorem calm_pop (underflow : ExecutionResult) [Stops underflow] :
    Calm onFault evm (pop underflow) fun value after =>
      evm.stack.data = value :: after.stack.data ∧
        after.memory = evm.memory ∧ after.gasLeft = evm.gasLeft := by
  unfold Calm Meets pop
  -- The two shapes of the stack are the two branches of the handler.
  rcases shape : evm.stack with ⟨_ | ⟨top, rest⟩, bounded⟩
  · simp [Tree.bind, Stack.pop, shape, Tree.Leaf, Quiet.refl, Stops.ne_halt]
  · simp only [bind_apply, get_apply, Tree.bind, shape, Stack.pop, modify_apply, pure_apply,
      Tree.Leaf, and_self, and_true]
    constructor <;> rfl

/-- Pushing puts the value on top. -/
theorem calm_push (value : Word) (overflow : ExecutionResult) [Stops overflow] :
    Calm onFault evm (push value overflow)
      fun _ after => after.stack.data = value :: evm.stack.data ∧
        after.memory = evm.memory ∧ after.gasLeft = evm.gasLeft := by
  unfold Calm Meets push
  -- A full stack ends the frame, and every other one takes the value.
  by_cases full : evm.stack.data.length ≥ 1024
  · simp [Tree.bind, Stack.push, full, Tree.Leaf, Quiet.refl, Stops.ne_halt]
  · simp only [bind_apply, get_apply, Tree.bind, Stack.push, full, dif_neg, not_false_eq_true,
      modify_apply, Tree.Leaf, and_self, and_true]
    constructor <;> rfl

/-- Charging deducts exactly the cost. -/
theorem calm_charge (cost : Nat) : Calm onFault evm (charge cost)
    fun _ after => cost ≤ evm.gasLeft ∧
      after = { evm with gasLeft := evm.gasLeft - cost } := by
  unfold Calm Meets charge
  -- Too little gas ends the frame with nothing deducted.
  by_cases short : evm.gasLeft < cost
  · simp [Tree.bind, short, Tree.Leaf, Quiet.refl]
  · simp only [bind_apply, get_apply, Tree.bind, short, if_false, modify_apply, Tree.Leaf,
      Nat.le_of_not_lt short, and_self, and_true]
    constructor <;> first | rfl | exact Nat.sub_le _ _

/-- A failed attempt ends the frame. -/
theorem calm_orVmError (attempt : Except VmError Nat) : Calm onFault evm (orVmError attempt)
    fun value after => attempt = .ok value ∧ after = evm := by
  cases attempt with
  | ok value => exact Calm.pure ⟨rfl, rfl⟩
  | error error => exact Calm.exit

/-- A word out of range ends the frame. -/
theorem calm_toUsize (word : Word) : Calm onFault evm (toUsize word)
    fun value after => toU64 word = some value ∧ after = evm := by
  unfold toUsize
  cases fits : toU64 word with
  | some value => exact Calm.pure ⟨rfl, rfl⟩
  | none => exact Calm.exit

/-- An account is marked for free, and the memory stays. -/
theorem calm_markAccessed (address : Address) : Calm onFault evm (markAccessed address)
    fun _ after => after.memory = evm.memory ∧ after.gasLeft = evm.gasLeft := by
  refine (Calm.modify ?_).weaken fun _ after _ same => by rw [same]; exact ⟨rfl, rfl⟩
  constructor <;> rfl

/-- A slot is marked for free, and the stack stays. -/
theorem calm_markSlotWarm (key : Word) : Calm onFault evm (markSlotWarm key)
    fun _ after => after.stack = evm.stack ∧ after.gasLeft = evm.gasLeft := by
  refine (Calm.modify ?_).weaken fun _ after _ same => by rw [same]; exact ⟨rfl, rfl⟩
  constructor <;> rfl

/-- Reading changes nothing, and aborts only outside of memory. -/
theorem calm_readMemory_checked {start stop : Nat} (ordered : start ≤ stop)
    (outside : ¬ stop ≤ evm.memory.length → onFault .indexOutOfRange) :
    Calm onFault evm (readMemory start stop)
      fun value after => value = slice evm.memory start stop ∧ after = evm := by
  unfold Calm Meets readMemory
  -- The range is in order, so only its end can lie outside.
  by_cases inside : stop ≤ evm.memory.length
  · simp [Tree.bind, ordered, inside, Tree.Leaf, Quiet.refl]
  · simpa [Tree.bind, ordered, inside, Tree.Leaf] using outside inside

/-- A range inside the memory is read as it is. -/
theorem calm_readMemory {start stop : Nat} (ordered : start ≤ stop)
    (inside : stop ≤ evm.memory.length) : Calm onFault evm (readMemory start stop)
      fun value after => value = slice evm.memory start stop ∧ after = evm :=
  calm_readMemory_checked ordered fun outside => absurd inside outside

/-- Writing keeps the length of memory, and aborts only outside of it. -/
theorem calm_writeMemory_checked {offset : Nat} {source : Bytes}
    (outside : ¬ offset + source.length ≤ evm.memory.length → onFault .indexOutOfRange) :
    Calm onFault evm (writeMemory offset source)
      fun _ after => after.memory = overwrite evm.memory offset source ∧
        after.memory.length = evm.memory.length ∧ after.gasLeft = evm.gasLeft := by
  unfold Calm Meets writeMemory
  -- A write that fits replaces bytes in place.
  by_cases inside : offset + source.length ≤ evm.memory.length
  · simp only [bind_apply, get_apply, Tree.bind, inside, if_true, modify_apply, Tree.Leaf,
      length_overwrite inside, and_self, and_true]
    constructor <;> rfl
  · simpa [Tree.bind, inside, Tree.Leaf] using outside inside

/-- A range inside the memory is written over, in the same length. -/
theorem calm_writeMemory {offset : Nat} {source : Bytes}
    (inside : offset + source.length ≤ evm.memory.length) :
    Calm onFault evm (writeMemory offset source)
      fun _ after => after.memory = overwrite evm.memory offset source ∧
        after.memory.length = evm.memory.length ∧ after.gasLeft = evm.gasLeft :=
  calm_writeMemory_checked fun outside => absurd inside outside

/-- Writing byte after byte inside memory keeps its length. -/
theorem calm_copyToMemory {dest size : Nat} {source : Nat → UInt8}
    (inside : dest + size ≤ evm.memory.length) :
    Calm onFault evm (copyToMemory dest size source)
      fun _ after => after.memory.length = evm.memory.length ∧ after.gasLeft = evm.gasLeft := by
  unfold copyToMemory
  -- Nothing is written for an empty range, so it needs no bound on its offset.
  by_cases empty : size = 0
  · simp only [empty, if_true]
    exact Calm.pure ⟨rfl, rfl⟩
  · simp only [empty, if_false]
    exact (calm_writeMemory (by simpa using inside)).weaken fun _ _ _ wrote => wrote.2

end Primitives

section Success

variable {evm : Evm}

/-- Popping succeeds as long as there is something on the stack. -/
theorem pop_of_cons (underflow : ExecutionResult) {value : Word} {rest : List Word}
    (operand : evm.stack.data = value :: rest) :
    ∃ stack, pop underflow evm = .next value { evm with stack } ∧ stack.data = rest := by
  -- The stack is taken apart together with its bound.
  rcases shape : evm.stack with ⟨data, bounded⟩
  rw [shape] at operand
  cases operand
  simp only [pop, bind_apply, get_apply, Tree.bind, shape, Stack.pop, modify_apply, pure_apply]
  exact ⟨_, rfl, rfl⟩

/-- Charging succeeds as long as there is enough gas. -/
theorem charge_of_enough {cost : Nat} (enough : cost ≤ evm.gasLeft) :
    charge cost evm = .next () { evm with gasLeft := evm.gasLeft - cost } := by
  simp [charge, Tree.bind, Nat.not_lt.mpr enough]

/-- A frame that may modify something gets past the check. -/
theorem requireMutable_of_mutable (mutable : evm.isStatic = false) :
    requireMutable evm = .next () evm := by
  simp [requireMutable, Tree.bind, mutable]

end Success

end MiniEvm
