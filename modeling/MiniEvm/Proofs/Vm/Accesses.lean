import MiniEvm.Frames.Views
import MiniEvm.Proofs.Vm.Runs

/-! The access lists of a frame: what each opcode looks up in them, and what it adds. -/

namespace MiniEvm

open EvmM Frames Frames.Program

/-- What an opcode can find cold: a slot of an account, or an account. -/
inductive Lookup where
  | slot (account : Address) (key : Word)
  | account (address : Address)
  deriving DecidableEq

/-- What an opcode is about to look up, by the operands that are on the stack. -/
def Opcode.access (evm : Evm) : Opcode → Option Lookup
  | sload | sstore => evm.stack.data[0]?.map fun key => .slot evm.selfAddress key
  | balance | extcodesize | extcodehash | extcodecopy | selfdestruct =>
    evm.stack.data[0]?.map fun word => .account (accountAddress word)
  -- The first operand of a call is the gas it hands over.
  | call | delegatecall | staticcall =>
    evm.stack.data[1]?.map fun word => .account (accountAddress word)
  | _ => none

namespace Evm

/-- What the next step of a frame is about to look up. -/
def access (evm : Evm) : Option Lookup := evm.opcode.bind (Opcode.access evm)

/-- The access lists of a frame. -/
def accessed (evm : Evm) : Finset Word × Finset Address :=
  (evm.accessedSlots, evm.accessedAddresses)

/-- Whether a frame has something on its lists, which hold slots of its own account only. -/
def isWarm (evm : Evm) : Lookup → Bool
  | .slot account key => account = evm.selfAddress ∧ key ∈ evm.accessedSlots
  | .account address => address ∈ evm.accessedAddresses

end Evm

/-- Access lists with what was looked up added to them. -/
def marked (lists : Finset Word × Finset Address) : Option Lookup → Finset Word × Finset Address
  | none => lists
  | some (.slot _ key) => (insert key lists.1, lists.2)
  | some (.account address) => (lists.1, insert address lists.2)

/-- Wherever the handler reaches its end, the access lists are as they were. -/
abbrev KeepsAccessed {α : Type} (handler : EvmM α) : Prop :=
  Keeps (fun result => result ≠ .halt) Evm.accessed handler

section Parts

variable {host : Host} {α β : Type}

/-- A handler that ends its frame has no end to keep anything at. -/
theorem keeps_exit (result : ExecutionResult) [Stops result] :
    KeepsAccessed (exit result : EvmM α) := Keeps.exit Stops.ne_halt

/-- Reading the frame and replacing it by one with the same lists. -/
theorem keeps_update {change : Evm → Evm} {rest : Evm → EvmM α}
    (same : ∀ evm, (change evm).accessed = evm.accessed) (keeps : ∀ evm, KeepsAccessed (rest evm)) :
    KeepsAccessed (get >>= fun evm => modify (fun _ => change evm) >>= fun _ => rest evm) := by
  intro evm
  refine Arrives.get_bind ?_
  exact (keeps _).after (same evm)

/-- Popping takes the top off the stack, and changes nothing else. -/
theorem arrives_pop_stack (underflow : ExecutionResult) [Stops underflow] (evm : Evm) :
    (pop underflow).Arrives evm (fun result => result ≠ .halt) fun value after =>
      ∃ stack : Stack 1024, evm.stack.data = value :: stack.data ∧ after = { evm with stack } := by
  unfold Program.Arrives pop
  -- The two shapes of the stack are the two branches of the handler.
  rcases shape : evm.stack with ⟨_ | ⟨top, rest⟩, bounded⟩
  · simp [Tree.bind, Stack.pop, shape, Tree.Arrives, Stops.ne_halt]
  · simp only [bind_apply, get_apply, Tree.bind, shape, Stack.pop, modify_apply, pure_apply,
      Tree.Arrives]
    exact ⟨_, rfl, rfl⟩

/-- Popping leaves the lists alone. -/
theorem arrives_pop (underflow : ExecutionResult) [Stops underflow] (evm : Evm) :
    (pop underflow).Arrives evm (fun result => result ≠ .halt) fun value after =>
      evm.stack.data = value :: after.stack.data ∧ after.accessed = evm.accessed := by
  refine (arrives_pop_stack underflow evm).weaken fun value after popped => ?_
  obtain ⟨stack, top, rfl⟩ := popped
  exact ⟨top, rfl⟩

/-- Popping keeps the lists. -/
theorem keeps_pop (underflow : ExecutionResult) [Stops underflow] : KeepsAccessed (pop underflow) :=
  fun evm => (arrives_pop underflow evm).weaken fun _ _ popped => popped.2

/-- Pushing keeps the lists. -/
theorem keeps_push (value : Word) (overflow : ExecutionResult) [Stops overflow] :
    KeepsAccessed (push value overflow) := by
  refine Keeps.get.bind fun evm => ?_
  -- A stack that is full ends the frame.
  cases evm.stack.push value with
  | ok stack => exact Keeps.modify fun _ => rfl
  | error message => exact keeps_exit _

/-- Gas is charged without a look at the lists. -/
theorem keeps_charge (cost : Nat) : KeepsAccessed (charge cost) := by
  refine Keeps.get.bind fun evm => ?_
  -- What cannot be paid ends the frame.
  split
  · exact keeps_exit _
  · exact Keeps.modify fun _ => rfl

/-- A failed attempt ends the frame. -/
theorem keeps_orVmError (attempt : Except VmError Nat) : KeepsAccessed (orVmError attempt) := by
  cases attempt with
  | ok value => exact Keeps.pure value
  | error error => exact keeps_exit _

/-- A word out of range ends the frame. -/
theorem keeps_toUsize (word : Word) : KeepsAccessed (toUsize word) := by
  unfold toUsize
  cases toU64 word with
  | some value => exact Keeps.pure value
  | none => exact keeps_exit _

/-- Reading memory changes nothing. -/
theorem keeps_readMemory (start stop : Nat) : KeepsAccessed (readMemory start stop) := by
  refine Keeps.get.bind fun evm => ?_
  -- A range past the end is a panic, which has no end either.
  split
  · exact Keeps.pure _
  · exact Keeps.fault _

/-- Views that show nothing of the memory are kept by whatever only writes to it. -/
theorem keeps_writeMemory_view {ν : Type} {view : Evm → ν}
    (blind : ∀ evm memory, view { evm with memory } = view evm) (offset : Nat) (source : Bytes) :
    Keeps (fun result => result ≠ .halt) view (writeMemory offset source) := by
  refine Keeps.get.bind fun evm => ?_
  split
  · exact Keeps.modify fun evm => blind evm _
  · exact Keeps.fault _

/-- Writing to it changes nothing else. -/
theorem keeps_writeMemory (offset : Nat) (source : Bytes) :
    KeepsAccessed (writeMemory offset source) := keeps_writeMemory_view (fun _ _ => rfl) _ _

/-- Views that show nothing of the memory are kept by a copy. -/
theorem keeps_copyToMemory_view {ν : Type} {view : Evm → ν}
    (blind : ∀ evm memory, view { evm with memory } = view evm) (dest size : Nat)
    (source : Nat → UInt8) :
    Keeps (fun result => result ≠ .halt) view (copyToMemory dest size source) := by
  unfold copyToMemory
  -- A copy of nothing does not even look at the memory.
  split
  · exact Keeps.pure ()
  · exact keeps_writeMemory_view blind _ _

/-- A copy into memory keeps the lists. -/
theorem keeps_copyToMemory (dest size : Nat) (source : Nat → UInt8) :
    KeepsAccessed (copyToMemory dest size source) := keeps_copyToMemory_view (fun _ _ => rfl) _ _ _

/-- Arithmetic leaves the frame alone, whether it overflows or not. -/
theorem keeps_uncheckedU64 (result : Nat) : KeepsAccessed (uncheckedU64 host result) := by
  unfold uncheckedU64
  split
  · exact Keeps.pure _
  · split
    · exact Keeps.fault _
    · exact Keeps.pure _

/-- Subtraction leaves the frame alone, whether it overflows or not. -/
theorem keeps_uncheckedSub (a b : Nat) : KeepsAccessed (uncheckedSub host a b) := by
  unfold uncheckedSub
  split
  · exact Keeps.pure _
  · split
    · exact Keeps.fault _
    · exact Keeps.pure _

/-- The cost of a memory is computed without the lists. -/
theorem keeps_memoryCost (words : Nat) : KeepsAccessed (memoryCost host words) :=
  (keeps_uncheckedU64 _).bind fun _ => (keeps_uncheckedU64 _).bind fun _ => keeps_uncheckedU64 _

/-- Growth is charged and done without the lists. -/
theorem keeps_touchMemory (offset size : Nat) : KeepsAccessed (touchMemory host offset size) := by
  -- Four ways through: nothing to touch, an overflow, growth, and memory that is large enough.
  unfold touchMemory
  split
  · exact Keeps.pure ()
  · split
    · exact keeps_exit _
    · split
      · exact keeps_exit _
      · refine Keeps.get.bind fun evm => ?_
        simp only
        split
        · refine (keeps_memoryCost _).bind fun _ => (keeps_memoryCost _).bind fun _ => ?_
          refine (keeps_uncheckedSub _ _).bind fun _ => (keeps_charge _).bind fun _ => ?_
          exact Keeps.modify fun _ => rfl
        · exact Keeps.pure ()

/-- Whatever shows nothing of the memory is kept while it grows. -/
theorem keeps_expandMemory_view {ν : Type} {view : Evm → ν}
    (blind : ∀ evm memory, view { evm with memory } = view evm) (ranges : List (Nat × Nat)) :
    Keeps (fun result => result ≠ .halt) view (expandMemoryWithoutCharge ranges) := by
  refine Keeps.get.bind fun evm => ?_
  -- The ends of the ranges, and then their rounding, may be out of range.
  split
  · exact Keeps.exit Stops.ne_halt
  · split
    · exact Keeps.exit Stops.ne_halt
    · split
      · exact Keeps.modify fun evm => blind evm _
      · exact Keeps.pure ()

/-- Growing memory keeps the lists. -/
theorem keeps_expandMemory (ranges : List (Nat × Nat)) :
    KeepsAccessed (expandMemoryWithoutCharge ranges) := keeps_expandMemory_view (fun _ _ => rfl) _

/-- A sum of prices is charged like one. -/
theorem keeps_chargeSum (first second third : Nat) :
    KeepsAccessed (chargeSum first second third) := by
  unfold chargeSum
  split
  · exact keeps_charge _
  · exact keeps_exit _

/-- The price of a copy is charged without a look at the lists. -/
theorem keeps_chargeCopy (size : Word) : KeepsAccessed (chargeCopy size) := by
  unfold chargeCopy
  split
  · exact keeps_charge _
  · exact keeps_exit _

/-- A static frame ends here, and every other goes on as it is. -/
theorem keeps_requireMutable : KeepsAccessed requireMutable := by
  refine Keeps.get.bind fun evm => ?_
  split
  · exact keeps_exit _
  · exact Keeps.pure ()

/-- A jump moves the program counter only. -/
theorem keeps_jumpTo (dest : Nat) (invalid : String) : KeepsAccessed (jumpTo dest invalid) := by
  refine Keeps.get.bind fun evm => ?_
  split
  · exact Keeps.modify fun _ => rfl
  · exact keeps_exit _

/-- Topics are popped. -/
theorem keeps_popTopics (count : Nat) : KeepsAccessed (popTopics count) := by
  induction count with
  | zero => exact Keeps.pure []
  -- One topic is popped before the rest of them.
  | succ count ih => exact (keeps_pop _).bind fun _ => ih.bind fun _ => Keeps.pure _

end Parts

section Families

variable {host : Host}

/-- What is pushed is read from the frame, which stays as it is. -/
theorem keeps_pushRead (overflow : String) (read : Evm → Word) :
    KeepsAccessed (pushRead overflow read) := Keeps.get.bind fun _ => keeps_push _ _

/-- Functions of one operand look nothing up, whatever they read. -/
theorem keeps_unary (underflow overflow : String) (compute : Evm → Word → Word) :
    KeepsAccessed (unary underflow overflow compute) :=
  (keeps_pop _).bind fun _ => Keeps.get.bind fun _ => keeps_push _ _

/-- Functions of two operands look nothing up. -/
theorem keeps_binary (name : String) (compute : Word → Word → Word) :
    KeepsAccessed (binary name compute) :=
  (keeps_pop _).bind fun _ => (keeps_pop _).bind fun _ => keeps_push _ _

/-- Functions of three operands look nothing up. -/
theorem keeps_ternary (name : String) (compute : Word → Word → Word → Word) :
    KeepsAccessed (ternary name compute) :=
  (keeps_pop _).bind fun _ => (keeps_pop _).bind fun _ => (keeps_pop _).bind fun _ => keeps_push _ _

/-- Copies of calldata or of the own code are no accesses. -/
theorem keeps_copyOpcode (name : String) (source : Evm → Bytes) :
    KeepsAccessed (copyOpcode host name source) := by
  refine (keeps_pop _).bind fun dest => (keeps_pop _).bind fun offset => ?_
  refine (keeps_pop _).bind fun size => ?_
  -- Nothing is charged for an empty copy.
  split
  · exact Keeps.pure ()
  · refine (keeps_chargeCopy size).bind fun _ => (keeps_touchMemory _ _).bind fun _ => ?_
    exact Keeps.get.bind fun _ => keeps_copyToMemory _ _ _

/-- A frame that is given back has no further step. -/
theorem keeps_finishWith (finish : Bytes → ExecutionResult) [∀ data, Stops (finish data)] :
    KeepsAccessed (finishWith host finish) := by
  refine (keeps_pop _).bind fun offset => (keeps_pop _).bind fun size => ?_
  refine (keeps_touchMemory _ _).bind fun _ => Keeps.get.bind fun evm => ?_
  exact (keeps_readMemory _ _).bind fun _ => keeps_exit _

/-- A word is copied within the stack. -/
theorem keeps_dup (depth : Nat) : KeepsAccessed (opDup depth) := by
  refine Keeps.get.bind fun evm => ?_
  split
  · exact keeps_push _ _
  · exact keeps_exit _

/-- Two words change places in it. -/
theorem keeps_swap (depth : Nat) : KeepsAccessed (opSwap depth) := by
  refine Keeps.get.bind fun evm => ?_
  split
  · exact Keeps.modify fun _ => rfl
  · exact keeps_exit _

/-- An immediate moves the program counter and the stack. -/
theorem keeps_push1 : KeepsAccessed opPush1 := by
  refine Keeps.get.bind fun evm => ?_
  -- The immediate may be missing at the end of the code.
  split
  · exact keeps_exit _
  · exact Keeps.bind (Keeps.modify fun _ => rfl) fun _ => keeps_push _ _

/-- An immediate of two bytes moves the program counter and the stack. -/
theorem keeps_push2 : KeepsAccessed opPush2 := by
  refine Keeps.get.bind fun evm => ?_
  split
  · exact Keeps.bind (Keeps.modify fun _ => rfl) fun _ => keeps_push _ _
  · exact keeps_exit _

/-- A longer immediate moves the program counter and the stack. -/
theorem keeps_pushN (size : Nat) : KeepsAccessed (executePushN size) :=
  Keeps.get.bind fun _ => Keeps.bind (Keeps.modify fun _ => rfl) fun _ => keeps_push _ _

/-- A jump pops where it goes. -/
theorem keeps_jump : KeepsAccessed opJump := (keeps_pop _).bind fun _ => keeps_jumpTo _ _

/-- One under a condition may stay. -/
theorem keeps_jumpi : KeepsAccessed opJumpi := by
  refine (keeps_pop _).bind fun dest => (keeps_pop _).bind fun cond => ?_
  split
  · exact keeps_jumpTo _ _
  · exact Keeps.pure ()

/-- A load may make memory grow. -/
theorem keeps_mload : KeepsAccessed (opMload host) :=
  (keeps_pop _).bind fun _ => (keeps_touchMemory _ _).bind fun _ =>
    (keeps_readMemory _ _).bind fun _ => keeps_push _ _

/-- A store may make memory grow. -/
theorem keeps_mstore : KeepsAccessed (opMstore host) :=
  (keeps_pop _).bind fun _ => (keeps_pop _).bind fun _ => (keeps_touchMemory _ _).bind fun _ =>
    (keeps_writeMemory _ _).bind fun _ => keeps_writeMemory _ _

/-- A store of a byte may make memory grow. -/
theorem keeps_mstore8 : KeepsAccessed (opMstore8 host) :=
  (keeps_pop _).bind fun _ => (keeps_pop _).bind fun _ => (keeps_touchMemory _ _).bind fun _ =>
    keeps_writeMemory _ _

/-- A move within memory has nothing to do with accounts. -/
theorem keeps_mcopy : KeepsAccessed opMcopy := by
  refine (keeps_pop _).bind fun dest => (keeps_pop _).bind fun source => ?_
  refine (keeps_pop _).bind fun sizeWord => ?_
  refine (keeps_toUsize _).bind fun size => (keeps_orVmError _).bind fun copyCost => ?_
  -- An empty copy is charged and moves nothing.
  split
  · exact keeps_chargeSum _ _ _
  · refine (keeps_toUsize _).bind fun dest => (keeps_toUsize _).bind fun source => ?_
    refine Keeps.get.bind fun evm => (keeps_orVmError _).bind fun memoryCost => ?_
    refine (keeps_chargeSum _ _ _).bind fun _ => (keeps_expandMemory _).bind fun _ => ?_
    exact (keeps_readMemory _ _).bind fun _ => keeps_writeMemory _ _

/-- A hash has nothing to do with accounts. -/
theorem keeps_keccak256 : KeepsAccessed (opKeccak256 host) := by
  refine (keeps_pop _).bind fun offset => (keeps_pop _).bind fun size => ?_
  refine (keeps_chargeCopy _).bind fun _ => (keeps_touchMemory _ _).bind fun _ => ?_
  exact (keeps_readMemory _ _).bind fun _ => keeps_push _ _

/-- What the last call gave back has nothing to do with accounts. -/
theorem keeps_returndatacopy : KeepsAccessed (opReturndatacopy host) := by
  refine (keeps_pop _).bind fun dest => (keeps_pop _).bind fun offset => ?_
  refine (keeps_pop _).bind fun size => ?_
  refine Keeps.get.bind fun evm => ?_
  -- The end of the range may be out of range itself, or past the return data.
  split
  · exact keeps_exit _
  · split
    · refine (keeps_chargeCopy _).bind fun _ => (keeps_touchMemory _ _).bind fun _ => ?_
      exact keeps_writeMemory _ _
    · exact keeps_exit _

/-- A log goes to the list of logs. -/
theorem keeps_log (topicCount : Nat) : KeepsAccessed (opLog host topicCount) := by
  refine keeps_requireMutable.bind fun _ => (keeps_pop _).bind fun offset => ?_
  refine (keeps_pop _).bind fun size => ?_
  refine (keeps_popTopics topicCount).bind fun topics => ?_
  -- A price that is no 64-bit number ends the frame.
  split
  · exact keeps_exit _
  · refine (keeps_charge _).bind fun _ => (keeps_touchMemory _ _).bind fun _ => ?_
    exact (keeps_readMemory _ _).bind fun _ => Keeps.modify fun _ => rfl

/-- Transient slots have no mark. -/
theorem keeps_tstore : KeepsAccessed opTstore :=
  keeps_requireMutable.bind fun _ => (keeps_pop _).bind fun _ => (keeps_pop _).bind fun _ =>
    Keeps.modify fun _ => rfl

/-- The gas is burnt and the frame ends. -/
theorem keeps_opInvalidOpcode : KeepsAccessed opInvalidOpcode :=
  Keeps.bind (Keeps.modify fun _ => rfl) fun _ => keeps_exit _

end Families

section Frames

variable {host : Host}

/-- The output of a call goes to memory. -/
theorem keeps_writeOutput (retOffset retSize : Nat) (output : Bytes) :
    KeepsAccessed (writeOutput retOffset retSize output) :=
  (keeps_writeMemory _ _).bind fun _ => keeps_writeMemory _ _

/-- A precompile has been looked up before it runs. -/
theorem keeps_callPrecompile (setup : CallSetup) : KeepsAccessed (callPrecompile host setup) := by
  unfold callPrecompile
  simp only
  -- Out of gas, an error, or an output.
  split
  · exact keeps_exit _
  · exact keeps_exit _
  · refine Keeps.bind (Keeps.modify fun _ => rfl) fun _ => ?_
    exact (keeps_writeOutput _ _ _).bind fun _ => keeps_push _ _

/-- A merge takes over nothing of the lists of a callee. -/
theorem accessed_mergeCall (evm : Evm) (snapshot : Nat) (result : ExecutionResult) (child : Evm) :
    (mergeCall evm snapshot result child).accessed = evm.accessed := by
  unfold mergeCall
  split <;> rfl

/-- A callee has lists of its own, of which the caller takes over nothing. -/
theorem keeps_callContract (delegate : Bool) (setup : CallSetup) :
    KeepsAccessed (callContract host delegate setup) := by
  -- The snapshot changes the fork only.
  refine keeps_update (fun _ => rfl) fun evm => ?_
  refine Keeps.bind (Keeps.enter _ _) fun ended => ?_
  refine Keeps.bind (Keeps.modify fun _ => accessed_mergeCall _ _ _ _) fun _ => ?_
  refine (keeps_touchMemory _ _).bind fun _ => (keeps_writeOutput _ _ _).bind fun _ => ?_
  exact keeps_push _ _

/-- A creator takes over nothing of the lists of a constructor. -/
theorem accessed_mergeDeploy (evm : Evm) (deployment : Deployment) (result : ExecutionResult)
    (child : Evm) : (mergeDeploy evm deployment result child).2.accessed = evm.accessed := by
  -- The merge takes one of two ways, and neither looks at the lists.
  rcases mergeDeploy_cases evm deployment result child with ⟨_, abandoned⟩ | ⟨_, code, _, committed⟩
  · rw [abandoned]
    rfl
  · rw [committed]
    rfl

/-- A creation that opens a frame, or is refused, leaves the lists of the creator alone. -/
theorem keeps_executeDeploy (newAddr : Address) (value : Word) (initCode : Bytes) (gasLimit : Nat) :
    KeepsAccessed (executeDeploy newAddr value initCode gasLimit) := by
  intro evm
  refine Arrives.get_bind ?_
  -- A creation is refused in a static frame, and where the balance is too small.
  split
  · rfl
  · simp only
    split
    · rfl
    · -- Whatever the constructor comes to, the creator is put back or goes on with its own lists.
      exact fun result child => accessed_mergeDeploy _ _ result child

/-- Init code is paid for and read. -/
theorem keeps_prepareInitCode (offsetWord sizeWord : Word) (salt : Option Word) :
    KeepsAccessed (prepareInitCode offsetWord sizeWord salt) := by
  refine (keeps_toUsize _).bind fun offset => (keeps_toUsize _).bind fun size => ?_
  refine Keeps.get.bind fun evm => (keeps_orVmError _).bind fun expansion => ?_
  refine (keeps_orVmError _).bind fun hashGas => (keeps_chargeSum _ _ _).bind fun _ => ?_
  exact (keeps_expandMemory _).bind fun _ => keeps_readMemory _ _

/-- The outcome of a creation is pushed, or ends the frame. -/
theorem keeps_finishCreate (outcome : Except VmError Word) :
    KeepsAccessed (finishCreate outcome) := by
  unfold finishCreate
  split
  · exact keeps_push _ _
  · exact keeps_exit _
  · exact keeps_push _ _

/-- A creation raises the nonce of its creator, but marks no account. -/
theorem keeps_executeCreate (value offsetWord sizeWord : Word) (salt : Option Word) :
    KeepsAccessed (executeCreate host value offsetWord sizeWord salt) := by
  refine (keeps_prepareInitCode _ _ _).bind fun initCode => ?_
  refine keeps_update (fun _ => rfl) fun evm => ?_
  exact (keeps_executeDeploy _ _ _ _).bind fun outcome => keeps_finishCreate outcome

/-- So the address that is created stays cold. -/
theorem keeps_create : KeepsAccessed (opCreate host) :=
  keeps_requireMutable.bind fun _ => (keeps_pop _).bind fun _ => (keeps_pop _).bind fun _ =>
    (keeps_pop _).bind fun _ => keeps_executeCreate _ _ _ _

/-- An address that is created with a salt stays cold, too. -/
theorem keeps_create2 : KeepsAccessed (opCreate2 host) :=
  keeps_requireMutable.bind fun _ => (keeps_pop _).bind fun _ => (keeps_pop _).bind fun _ =>
    (keeps_pop _).bind fun _ => (keeps_pop _).bind fun _ => keeps_executeCreate _ _ _ _

end Frames

section Lookups

variable {host : Host}

/-- Wherever the handler reaches its end, what its opcode looks up has been added to the lists. -/
def ListsLookup (op : Opcode) (handler : EvmM Unit) : Prop :=
  ∀ evm : Evm, handler.Arrives evm (fun result => result ≠ .halt) fun _ after =>
    after.accessed = marked evm.accessed (op.access evm)

/-- Handlers of opcodes that look nothing up add nothing. -/
theorem lists_of_keeps {op : Opcode} {handler : EvmM Unit} (keeps : KeepsAccessed handler)
    (nothing : ∀ evm, op.access evm = none) : ListsLookup op handler := by
  intro evm
  rw [nothing evm]
  exact keeps evm

/-- Slots are marked by their key, whatever the account. -/
theorem arrives_markSlotWarm (account : Address) (key : Word) (evm : Evm) :
    (markSlotWarm key).Arrives evm (fun result => result ≠ .halt) fun _ after =>
      after.accessed = marked evm.accessed (some (.slot account key)) := rfl

/-- Accounts are marked by their address. -/
theorem arrives_markAccessed (address : Address) (evm : Evm) :
    (markAccessed address).Arrives evm (fun result => result ≠ .halt) fun _ after =>
      after.accessed = marked evm.accessed (some (.account address)) := rfl

/-- A frame that may modify something goes on as it is. -/
theorem arrives_requireMutable (evm : Evm) :
    requireMutable.Arrives evm (fun result => result ≠ .halt) fun _ after => evm = after := by
  refine Arrives.get_bind ?_
  split
  · exact Stops.ne_halt
  · rfl

/-- A load of a slot lists it before it charges for it. -/
theorem lists_sload : ListsLookup .sload opSload := by
  intro evm
  refine Arrives.bind (arrives_pop _ evm) fun key mid popped => ?_
  obtain ⟨stack, same⟩ := popped
  -- The key was on top of the stack, as the opcode says.
  have looked : Opcode.sload.access evm = some (.slot evm.selfAddress key) := by
    simp [Opcode.access, stack]
  rw [looked, ← same]
  refine Arrives.get_bind ?_
  refine Arrives.bind (arrives_markSlotWarm evm.selfAddress key _) fun _ after marks => ?_
  exact ((keeps_charge _).bind fun _ => keeps_push _ _).after marks

/-- A store does as well, in a frame that may write. -/
theorem lists_sstore : ListsLookup .sstore opSstore := by
  intro evm
  refine Arrives.bind (arrives_requireMutable evm) fun _ _ mutable => ?_
  subst mutable
  refine Arrives.bind (arrives_pop _ _) fun key mid popped => ?_
  obtain ⟨stack, same⟩ := popped
  have looked : Opcode.sstore.access evm = some (.slot evm.selfAddress key) := by
    simp [Opcode.access, stack]
  rw [looked]
  -- The value is popped before the slot is marked.
  refine Arrives.bind ((keeps_pop _).after same) fun val mid same => ?_
  refine Arrives.get_bind ?_
  rw [← same]
  refine Arrives.bind (arrives_markSlotWarm evm.selfAddress key _) fun _ after marks => ?_
  exact Keeps.after ((keeps_charge _).bind fun _ => Keeps.modify fun _ => rfl) marks

/-- Charging for an account lists it. -/
theorem arrives_chargeAccountAccess (address : Address) (evm : Evm) :
    (chargeAccountAccess address).Arrives evm (fun result => result ≠ .halt) fun _ after =>
      after.accessed = marked evm.accessed (some (.account address)) := by
  refine Arrives.get_bind ?_
  refine Arrives.bind (arrives_markAccessed address _) fun _ after marks => ?_
  exact (keeps_charge _).after marks

/-- The queries of an account look it up before they read it. -/
theorem lists_accountQuery {op : Opcode} (overflow : String) (read : Evm → Address → Word)
    (top : ∀ evm, op.access evm =
      evm.stack.data[0]?.map fun word => .account (accountAddress word)) :
    ListsLookup op (accountQuery overflow read) := by
  intro evm
  refine Arrives.bind (arrives_pop _ evm) fun word mid popped => ?_
  obtain ⟨stack, same⟩ := popped
  -- The account is named on top of the stack.
  have looked : op.access evm = some (.account (accountAddress word)) := by
    simp [top, stack]
  rw [looked, ← same]
  refine Arrives.bind (arrives_chargeAccountAccess _ mid) fun _ after marks => ?_
  exact (Keeps.get.bind fun _ => keeps_push _ _).after marks

/-- The account whose code is copied is listed once the operands are known to be in range. -/
theorem lists_extcodecopy : ListsLookup .extcodecopy opExtcodecopy := by
  intro evm
  refine Arrives.bind (arrives_pop _ evm) fun word mid popped => ?_
  obtain ⟨stack, same⟩ := popped
  have looked : Opcode.extcodecopy.access evm = some (.account (accountAddress word)) := by
    simp [Opcode.access, stack]
  rw [looked]
  -- The other operands come off without a look at the lists.
  refine Arrives.bind ((keeps_pop _).after same) fun dest mid same => ?_
  refine Arrives.bind ((keeps_pop _).after same) fun offset mid same => ?_
  refine Arrives.bind ((keeps_pop _).after same) fun sizeWord mid same => ?_
  refine Arrives.bind ((keeps_toUsize _).after same) fun dest mid same => ?_
  refine Arrives.bind ((keeps_toUsize _).after same) fun offset mid same => ?_
  refine Arrives.bind ((keeps_toUsize _).after same) fun size mid same => ?_
  split
  · exact Stops.ne_halt
  · refine Arrives.get_bind ?_
    rw [← same]
    refine Arrives.bind (arrives_markAccessed _ _) fun _ after marks => ?_
    refine Keeps.after ((keeps_orVmError _).bind fun memoryCost => ?_) marks
    refine (keeps_chargeSum _ _ _).bind fun _ => (keeps_expandMemory _).bind fun _ => ?_
    exact keeps_copyToMemory _ _ _

/-- An account that is removed is removed from the maps, not from the lists. -/
theorem accessed_destroyAccount (evm : Evm) (beneficiary : Address) :
    (destroyAccount evm beneficiary).accessed = evm.accessed := by
  simp only [destroyAccount]
  split <;> rfl

/-- What a self-destruction looks up is its beneficiary. -/
theorem lists_selfdestruct : ListsLookup .selfdestruct opSelfdestruct := by
  intro evm
  refine Arrives.bind (arrives_requireMutable evm) fun _ _ mutable => ?_
  subst mutable
  refine Arrives.bind (arrives_pop _ _) fun word mid popped => ?_
  obtain ⟨stack, same⟩ := popped
  have looked : Opcode.selfdestruct.access evm = some (.account (accountAddress word)) := by
    simp [Opcode.access, stack]
  rw [looked, ← same]
  refine Arrives.get_bind ?_
  refine Arrives.bind (arrives_markAccessed _ _) fun _ after marks => ?_
  -- What is swept or removed afterwards is not on the lists.
  exact Keeps.after ((keeps_charge _).bind fun _ =>
    Keeps.modify fun _ => accessed_destroyAccount _ _) marks

/-- The base cost of a call is where its target is looked up. -/
theorem arrives_calcCallBaseGas (target : Address) (value : Word)
    (argsOffset argsSize retOffset retSize : Nat) (evm : Evm) :
    (calcCallBaseGas target value argsOffset argsSize retOffset retSize).Arrives evm
      (fun result => result ≠ .halt) fun _ after =>
        after.accessed = marked evm.accessed (some (.account target)) := by
  refine Arrives.get_bind ?_
  refine Arrives.bind (keeps_orVmError _ _) fun memoryCost mid same => ?_
  rw [← same]
  refine Arrives.bind (arrives_markAccessed target mid) fun _ after marks => ?_
  simp only
  -- The sum of the costs is given back, if it is in range.
  generalize checkedAdd _ memoryCost = total
  cases total with
  | some cost => exact marks
  | none => exact Stops.ne_halt

/-- A static call looks it up in the same way. -/
theorem arrives_callBaseGas (forceStatic : Bool) (target : Address) (value : Word)
    (argsOffset argsSize retOffset retSize : Nat) (evm : Evm) :
    (callBaseGas forceStatic target value argsOffset argsSize retOffset retSize).Arrives evm
      (fun result => result ≠ .halt) fun _ after =>
        after.accessed = marked evm.accessed (some (.account target)) := by
  unfold callBaseGas
  -- Only the price of a static call is worked out differently.
  split
  · refine Arrives.bind (arrives_calcCallBaseGas _ _ _ _ _ _ _) fun normal after marks => ?_
    split
    · exact marks
    · exact Stops.ne_halt
  · exact arrives_calcCallBaseGas _ _ _ _ _ _ _

/-- The value of a call is popped, or there is none. -/
theorem keeps_popCallValue (forceStatic delegate : Bool) :
    KeepsAccessed (popCallValue forceStatic delegate) := by
  unfold popCallValue
  split
  · exact Keeps.pure 0
  · exact keeps_pop _

/-- Once a call is prepared, its target is listed and nothing else. -/
theorem arrives_prepareCall (forceStatic delegate : Bool) (evm : Evm) :
    (prepareCall forceStatic delegate).Arrives evm (fun result => result ≠ .halt) fun _ after =>
      after.accessed = marked evm.accessed
        (evm.stack.data[1]?.map fun word => .account (accountAddress word)) := by
  refine Arrives.bind (arrives_pop _ evm) fun gas first popped => ?_
  obtain ⟨stack, same⟩ := popped
  refine Arrives.bind (arrives_pop _ first) fun address second popped => ?_
  obtain ⟨below, same'⟩ := popped
  have target : evm.stack.data[1]? = some address := by
    rw [stack, below]
    rfl
  rw [target, Option.map_some]
  replace same := same'.trans same
  -- What stands between the operands and the base cost leaves the lists alone.
  refine Arrives.bind ((keeps_popCallValue _ _).after same) fun value mid same => ?_
  refine Arrives.bind ((keeps_pop _).after same) fun argsOffset mid same => ?_
  refine Arrives.bind ((keeps_pop _).after same) fun argsSize mid same => ?_
  refine Arrives.bind ((keeps_pop _).after same) fun retOffset mid same => ?_
  refine Arrives.bind ((keeps_pop _).after same) fun retSize mid same => ?_
  refine Arrives.bind ((keeps_toUsize _).after same) fun argsOffset mid same => ?_
  refine Arrives.bind ((keeps_toUsize _).after same) fun argsSize mid same => ?_
  refine Arrives.bind ((keeps_toUsize _).after same) fun retOffset mid same => ?_
  refine Arrives.bind ((keeps_toUsize _).after same) fun retSize mid same => ?_
  rw [← same]
  refine Arrives.bind (arrives_callBaseGas _ _ _ _ _ _ _ mid) fun baseGas after marks => ?_
  refine Keeps.after ((keeps_charge _).bind fun _ => (keeps_expandMemory _).bind fun _ => ?_) marks
  refine (keeps_readMemory _ _).bind fun input => Keeps.get.bind fun evm => ?_
  exact Keeps.bind (Keeps.modify fun _ => rfl) fun _ => Keeps.pure _

/-- The target of a call is listed when the call has ended, in whatever way it was done. -/
theorem lists_executeCall (forceStatic delegate : Bool) :
    ListsLookup (callOpcode forceStatic delegate) (executeCall host forceStatic delegate) := by
  intro evm
  -- The target is the second operand for every kind of call.
  have looked : (callOpcode forceStatic delegate).access evm =
      evm.stack.data[1]?.map fun word => .account (accountAddress word) := by
    cases forceStatic <;> cases delegate <;> rfl
  rw [looked]
  refine Arrives.bind (arrives_prepareCall _ _ evm) fun setup mid marks => ?_
  split
  · exact (keeps_callPrecompile setup).after marks
  · exact (keeps_callContract delegate setup).after marks

/-- Every opcode adds what it looks up to the lists, and nothing else. -/
theorem lists_dispatch (host : Host) (op : Opcode) : ListsLookup op (dispatch host op) := by
  cases op with
  | sload => exact lists_sload
  | sstore => exact lists_sstore
  | balance => exact lists_accountQuery _ _ fun _ => rfl
  | extcodesize =>
    show ListsLookup .extcodesize opExtcodesize
    unfold opExtcodesize
    exact lists_accountQuery _ _ fun _ => rfl
  | extcodehash =>
    show ListsLookup .extcodehash (opExtcodehash host)
    unfold opExtcodehash
    exact lists_accountQuery _ _ fun _ => rfl
  | extcodecopy => exact lists_extcodecopy
  | selfdestruct => exact lists_selfdestruct
  | call => exact lists_executeCall false false
  | delegatecall => exact lists_executeCall false true
  | staticcall => exact lists_executeCall true false
  -- No other opcode looks anything up.
  | add | mul | sub | div | sdiv | mod | smod | exp | signextend | lt | gt | eq | and | or | xor
  | byte | shl | shr | sar => exact lists_of_keeps (keeps_binary _ _) fun _ => rfl
  | addmod | mulmod => exact lists_of_keeps (keeps_ternary _ _) fun _ => rfl
  | iszero | not | calldataload | blockhash | blobhash | tload =>
    exact lists_of_keeps (keeps_unary _ _ _) fun _ => rfl
  | address | origin | caller | callvalue | calldatasize | codesize | gasprice | returndatasize
  | coinbase | timestamp | number | prevrandao | gaslimit | chainid | selfbalance | basefee
  | blobbasefee | msize | gas => exact lists_of_keeps (keeps_pushRead _ _) fun _ => rfl
  | calldatacopy | codecopy => exact lists_of_keeps (keeps_copyOpcode _ _) fun _ => rfl
  | stop | jumpdest => exact lists_of_keeps (Keeps.pure ()) fun _ => rfl
  | mload => exact lists_of_keeps keeps_mload fun _ => rfl
  | mstore => exact lists_of_keeps keeps_mstore fun _ => rfl
  | mstore8 => exact lists_of_keeps keeps_mstore8 fun _ => rfl
  | mcopy => exact lists_of_keeps keeps_mcopy fun _ => rfl
  | keccak256 => exact lists_of_keeps keeps_keccak256 fun _ => rfl
  | returndatacopy => exact lists_of_keeps keeps_returndatacopy fun _ => rfl
  | jump => exact lists_of_keeps keeps_jump fun _ => rfl
  | jumpi => exact lists_of_keeps keeps_jumpi fun _ => rfl
  | tstore => exact lists_of_keeps keeps_tstore fun _ => rfl
  | push1 => exact lists_of_keeps keeps_push1 fun _ => rfl
  | push2 => exact lists_of_keeps keeps_push2 fun _ => rfl
  | push size => exact lists_of_keeps (keeps_pushN size) fun _ => rfl
  | dup depth => exact lists_of_keeps (keeps_dup depth) fun _ => rfl
  | swap depth => exact lists_of_keeps (keeps_swap depth) fun _ => rfl
  | log topics => exact lists_of_keeps (keeps_log topics) fun _ => rfl
  | create => exact lists_of_keeps keeps_create fun _ => rfl
  | create2 => exact lists_of_keeps keeps_create2 fun _ => rfl
  | return_ | revert => exact lists_of_keeps (keeps_finishWith _) fun _ => rfl
  | invalid => exact lists_of_keeps keeps_opInvalidOpcode fun _ => rfl
  | undefined => exact lists_of_keeps (keeps_exit _) fun _ => rfl

/-- A step after which its frame goes on has added what it looked up to the lists. -/
theorem accessed_of_steps {evm after : Evm} {kept : History Evm ExecutionResult}
    (steps : (machine host).Steps evm kept .halt after) :
    after.accessed = marked evm.accessed evm.access := by
  obtain ⟨op, decoded⟩ := Option.ne_none_iff_exists'.mp (opcode_of_running steps.1)
  have resolved : (step host evm).Resolves .halt (machine host).RunsNested kept .halt after :=
    steps.2
  rw [step_apply decoded] at resolved
  split at resolved
  · -- A frame that cannot pay the static cost does not go on.
    obtain ⟨_, halted, _⟩ := resolved
    cases halted
  · rcases (lists_dispatch host op (evm.begin op)).resolves resolved with stopped | marks
    · exact absurd rfl stopped
    · rw [marks, Evm.access, decoded]
      rfl

end Lookups

end MiniEvm
