import MiniEvm.Frames.Budget
import MiniEvm.Vm.Interpreter

/-! Handlers that pay with gas but never look at it: what else the rest of the gas could change. -/

namespace MiniEvm

open EvmM Frames Frames.Program

variable {α β : Type}

/-- The gas of a frame, as the budget that its steps are paid from. -/
def gasBudget : Budget Evm ExecutionResult where
  left := Evm.gasLeft
  more extra evm := { evm with gasLeft := evm.gasLeft + extra }
  starved := .outOfGas
  burning result := result = .invalidOpcode 0xFE
  left_more _ _ := rfl

/-- A handler that opens no frame, gains no gas, and decides nothing by the gas that is left. -/
abbrev Metered (handler : EvmM α) : Prop := gasBudget.Metered handler

section Primitives

/-- The stack has nothing to do with the gas. -/
theorem metered_pop (underflow : ExecutionResult) : Metered (pop underflow) := by
  refine .get_bind (fun _ _ => rfl) fun evm => ?_
  -- The two ends of a pop are those of the stack.
  cases evm.stack.pop with
  | error message => exact .exit _
  | ok popped => exact .bind (.modify (fun _ _ => rfl) fun _ => rfl) fun _ => .pure _

/-- Pushing is limited by the stack, and not by the gas. -/
theorem metered_push (value : Word) (overflow : ExecutionResult) :
    Metered (push value overflow) := by
  refine .get_bind (fun _ _ => rfl) fun evm => ?_
  -- A stack that is full is so under any gas.
  cases evm.stack.push value with
  | error message => exact .exit _
  | ok stack => exact .modify (fun _ _ => rfl) fun _ => rfl

/-- The one place where gas is compared with anything. -/
theorem metered_charge (cost : Nat) : Metered (charge cost) := by
  have pays : ∀ evm : Evm, charge cost evm = if evm.gasLeft < cost then .exit .outOfGas evm
      else .next () { evm with gasLeft := evm.gasLeft - cost } := by
    intro evm
    simp only [charge, bind_apply, get_apply, Tree.bind]
    split <;> rfl
  refine .pay pays (fun evm => rfl) fun extra evm covered => ?_
  -- What is in excess is not touched by a payment that is covered without it.
  have same : evm.gasLeft + extra - cost = evm.gasLeft - cost + extra := Nat.sub_add_comm covered
  show { evm with gasLeft := evm.gasLeft + extra - cost } = gasBudget.more extra _
  rw [same]
  rfl

/-- An attempt that was made before is not made again. -/
theorem metered_orVmError (attempt : Except VmError Nat) : Metered (orVmError attempt) := by
  cases attempt with
  | ok value => exact .pure _
  | error error => exact .exit _

/-- Whether a word is in range is decided without the frame. -/
theorem metered_toUsize (word : Word) : Metered (toUsize word) := by
  unfold toUsize
  -- The word is out of range, or it is a number.
  cases toU64 word with
  | some value => exact .pure _
  | none => exact .exit _

/-- Reading memory is free once it was made. -/
theorem metered_readMemory (start stop : Nat) : Metered (readMemory start stop) := by
  refine .get_bind (fun _ _ => rfl) fun evm => ?_
  split
  · exact .pure _
  · exact .fault _

/-- Writing to memory is free once it was made. -/
theorem metered_writeMemory (offset : Nat) (source : Bytes) :
    Metered (writeMemory offset source) := by
  refine .get_bind (fun _ _ => rfl) fun evm => ?_
  split
  · exact .modify (fun _ _ => rfl) fun _ => rfl
  · exact .fault _

/-- Copying into memory takes no gas by itself. -/
theorem metered_copyToMemory (dest size : Nat) (source : Nat → UInt8) :
    Metered (copyToMemory dest size source) := by
  unfold copyToMemory
  -- Nothing is written for a size of zero.
  split
  · exact .pure _
  · exact metered_writeMemory _ _

/-- Marks are set whatever is left of the gas. -/
theorem metered_markAccessed (address : Address) : Metered (markAccessed address) :=
  .modify (fun _ _ => rfl) fun _ => rfl

/-- Slots are marked whatever is left of the gas. -/
theorem metered_markSlotWarm (key : Word) : Metered (markSlotWarm key) :=
  .modify (fun _ _ => rfl) fun _ => rfl

/-- A static frame refuses to write under any gas. -/
theorem metered_requireMutable : Metered requireMutable := by
  refine .get_bind (fun _ _ => rfl) fun evm => ?_
  split
  · exact .exit _
  · exact .pure _

end Primitives

section Growth

variable {host : Host}

/-- Overflows of prices do not depend on what is there to pay them. -/
theorem metered_uncheckedU64 (result : Nat) : Metered (uncheckedU64 host result) := by
  unfold uncheckedU64
  -- A sum in range, a panic, or a sum that wraps.
  split
  · exact .pure _
  · split
    · exact .fault _
    · exact .pure _

/-- Differences of prices do not depend on what is there to pay them. -/
theorem metered_uncheckedSub (a b : Nat) : Metered (uncheckedSub host a b) := by
  unfold uncheckedSub
  split
  · exact .pure _
  · split
    · exact .fault _
    · exact .pure _

/-- The cost of a memory is computed before it is compared with the gas. -/
theorem metered_memoryCost (words : Nat) : Metered (memoryCost host words) := by
  -- Two of the three results are only intermediate.
  refine (metered_uncheckedU64 _).bind fun linear => ?_
  refine (metered_uncheckedU64 _).bind fun square => ?_
  exact metered_uncheckedU64 _

/-- The price of growth depends on the memory alone. -/
theorem metered_touchMemory (offset size : Nat) : Metered (touchMemory host offset size) := by
  -- Ends that leave the 64 bits are found before anything is charged.
  unfold touchMemory
  split
  · exact .pure _
  · cases checkedAdd offset size with
    | none => exact .exit _
    | some endBytes =>
      simp only
      cases checkedAdd endBytes 31 with
      | none => exact .exit _
      | some roundedEnd =>
        refine .get_bind (fun _ _ => rfl) fun evm => ?_
        split
        · -- The price is what the new length costs more than the old one.
          refine (metered_memoryCost _).bind fun costNew => ?_
          refine (metered_memoryCost _).bind fun costOld => ?_
          refine (metered_uncheckedSub _ _).bind fun cost => ?_
          exact (metered_charge cost).bind fun _ => .modify (fun _ _ => rfl) fun _ => rfl
        · exact .pure _

/-- Growth that was paid for before takes no gas. -/
theorem metered_expandMemory (ranges : List (Nat × Nat)) :
    Metered (expandMemoryWithoutCharge ranges) := by
  refine .get_bind (fun _ _ => rfl) fun evm => ?_
  -- The required length is known before the memory grows.
  cases requiredEnd evm.memory.length ranges with
  | none => exact .exit _
  | some required =>
    simp only
    cases checkedAdd required 31 with
    | none => exact .exit _
    | some rounded =>
      simp only
      split
      · exact .modify (fun _ _ => rfl) fun _ => rfl
      · exact .pure _

/-- A sum of prices is one price, or an overflow under any gas. -/
theorem metered_chargeSum (first second third : Nat) : Metered (chargeSum first second third) := by
  unfold chargeSum
  -- Both sums are checked.
  cases (checkedAdd first second).bind fun cost => checkedAdd cost third with
  | some total => exact metered_charge _
  | none => exact .exit _

/-- The price of a copy depends on its size. -/
theorem metered_chargeCopy (sizeWord : Word) : Metered (chargeCopy sizeWord) := by
  unfold chargeCopy
  cases calcCopyGas sizeWord with
  | ok cost => exact metered_charge _
  | error error => exact .exit _

/-- Topics come off the stack. -/
theorem metered_popTopics (count : Nat) : Metered (popTopics count) := by
  -- One topic is popped in front of the others.
  induction count with
  | zero => exact .pure _
  | succ count ih => exact (metered_pop _).bind fun topic => ih.bind fun topics => .pure _

end Growth

section Families

variable {host : Host}

/-- A function of one operand may look at anything but the gas. -/
theorem metered_unary (underflow overflow : String) {compute : Evm → Word → Word}
    (same : ∀ extra evm value, compute (gasBudget.more extra evm) value = compute evm value) :
    Metered (unary underflow overflow compute) := by
  refine (metered_pop _).bind fun value => ?_
  exact .get_bind (fun extra evm => by rw [same]) fun evm => metered_push _ _

/-- A function of two operands sees nothing but them. -/
theorem metered_binary (name : String) (compute : Word → Word → Word) :
    Metered (binary name compute) :=
  (metered_pop _).bind fun _ => (metered_pop _).bind fun _ => metered_push _ _

/-- A function of three operands sees nothing but them. -/
theorem metered_ternary (name : String) (compute : Word → Word → Word → Word) :
    Metered (ternary name compute) :=
  (metered_pop _).bind fun _ => (metered_pop _).bind fun _ => (metered_pop _).bind fun _ =>
    metered_push _ _

/-- What is pushed may be anything but the gas. -/
theorem metered_pushRead (overflow : String) {read : Evm → Word}
    (same : ∀ extra evm, read (gasBudget.more extra evm) = read evm) :
    Metered (pushRead overflow read) :=
  .get_bind (fun extra evm => by rw [same]) fun evm => metered_push _ _

/-- The price of an account is read from the marks of the frame. -/
theorem metered_accountQuery (overflow : String) {read : Evm → Address → Word}
    (same : ∀ extra evm address, read (gasBudget.more extra evm) address = read evm address) :
    Metered (accountQuery overflow read) := by
  refine (metered_pop _).bind fun word => ?_
  -- Reading the marks does not tell how much gas there is.
  refine .bind ?_ fun _ => .get_bind (fun extra evm => by rw [same]) fun evm => metered_push _ _
  exact .get_bind (fun _ _ => rfl) fun evm =>
    (metered_markAccessed _).bind fun _ => metered_charge _

/-- Copies are paid for by their size, and by the memory they need. -/
theorem metered_copyOpcode (name : String) {source : Evm → Bytes}
    (same : ∀ extra evm, source (gasBudget.more extra evm) = source evm) :
    Metered (copyOpcode host name source) := by
  refine (metered_pop _).bind fun dest => (metered_pop _).bind fun offset => ?_
  refine (metered_pop _).bind fun size => ?_
  -- An empty copy is free.
  split
  · exact .pure _
  · refine (metered_chargeCopy _).bind fun _ => (metered_touchMemory _ _).bind fun _ => ?_
    exact .get_bind (fun extra evm => by rw [same]) fun evm => metered_copyToMemory _ _ _

/-- The memory that is given back is paid for first. -/
theorem metered_finishWith (finish : Bytes → ExecutionResult) :
    Metered (finishWith host finish) := by
  refine (metered_pop _).bind fun offset => (metered_pop _).bind fun size => ?_
  refine (metered_touchMemory _ _).bind fun _ => .get_bind (fun _ _ => rfl) fun evm => ?_
  exact (metered_readMemory _ _).bind fun bytes => .exit _

/-- Immediates come from the code. -/
theorem metered_opPush1 : Metered opPush1 := by
  refine .get_bind (fun _ _ => rfl) fun evm => ?_
  -- A cut immediate ends the frame.
  cases evm.code[evm.pc]? with
  | none => exact .exit _
  | some byte => exact .bind (.modify (fun _ _ => rfl) fun _ => rfl) fun _ => metered_push _ _

/-- Immediates of two bytes come from the code. -/
theorem metered_opPush2 : Metered opPush2 := by
  refine .get_bind (fun _ _ => rfl) fun evm => ?_
  split
  · exact .bind (.modify (fun _ _ => rfl) fun _ => rfl) fun _ => metered_push _ _
  · exact .exit _

/-- Longer immediates come from the code, too. -/
theorem metered_executePushN (size : Nat) : Metered (executePushN size) := by
  refine .get_bind (fun _ _ => rfl) fun evm => ?_
  exact .bind (.modify (fun _ _ => rfl) fun _ => rfl) fun _ => metered_push _ _

/-- A word is copied by its depth. -/
theorem metered_opDup (depth : Nat) : Metered (opDup depth) := by
  refine .get_bind (fun _ _ => rfl) fun evm => ?_
  cases evm.stack.peek depth with
  | ok value => exact metered_push _ _
  | error message => exact .exit _

/-- Words change places by their depth. -/
theorem metered_opSwap (depth : Nat) : Metered (opSwap depth) := by
  refine .get_bind (fun _ _ => rfl) fun evm => ?_
  cases evm.stack.swap depth with
  | ok stack => exact .modify (fun _ _ => rfl) fun _ => rfl
  | error message => exact .exit _

/-- A jump goes by the marks of the code. -/
theorem metered_jumpTo (dest : Nat) (invalid : String) : Metered (jumpTo dest invalid) := by
  refine .get_bind (fun _ _ => rfl) fun evm => ?_
  split
  · exact .modify (fun _ _ => rfl) fun _ => rfl
  · exact .exit _

/-- A jump under a condition goes by the stack first. -/
theorem metered_opJumpi : Metered opJumpi := by
  refine (metered_pop _).bind fun dest => (metered_pop _).bind fun cond => ?_
  split
  · exact metered_jumpTo _ _
  · exact .pure _

end Families

section Handlers

variable {host : Host}

/-- Storing a word pays for memory only. -/
theorem metered_opMstore : Metered (opMstore host) := by
  refine (metered_pop _).bind fun offset => (metered_pop _).bind fun value => ?_
  refine (metered_touchMemory _ _).bind fun _ => ?_
  exact (metered_writeMemory _ _).bind fun _ => metered_writeMemory _ _

/-- Storing a byte pays for memory only. -/
theorem metered_opMstore8 : Metered (opMstore8 host) := by
  refine (metered_pop _).bind fun offset => (metered_pop _).bind fun value => ?_
  exact (metered_touchMemory _ _).bind fun _ => metered_writeMemory _ _

/-- Loading a word pays for memory only. -/
theorem metered_opMload : Metered (opMload host) := by
  refine (metered_pop _).bind fun offset => (metered_touchMemory _ _).bind fun _ => ?_
  exact (metered_readMemory _ _).bind fun bytes => metered_push _ _

/-- A move within memory adds up its prices before it pays. -/
theorem metered_opMcopy : Metered opMcopy := by
  refine (metered_pop _).bind fun destWord => (metered_pop _).bind fun sourceWord => ?_
  refine (metered_pop _).bind fun sizeWord => (metered_toUsize _).bind fun size => ?_
  refine (metered_orVmError _).bind fun copyCost => ?_
  -- An empty copy still pays its constant part.
  split
  · exact metered_chargeSum _ _ _
  · refine (metered_toUsize _).bind fun dest => (metered_toUsize _).bind fun source => ?_
    refine .get_bind (fun _ _ => rfl) fun evm => (metered_orVmError _).bind fun memoryCost => ?_
    refine (metered_chargeSum _ _ _).bind fun _ => (metered_expandMemory _).bind fun _ => ?_
    exact (metered_readMemory _ _).bind fun bytes => metered_writeMemory _ _

/-- A copy of return data may be refused before it is paid for. -/
theorem metered_opReturndatacopy : Metered (opReturndatacopy host) := by
  refine (metered_pop _).bind fun dest => (metered_pop _).bind fun offset => ?_
  refine (metered_pop _).bind fun size => .get_bind (fun _ _ => rfl) fun evm => ?_
  -- The end of the range is checked for overflow, and then against the data.
  cases checkedAdd (asUsize offset) (asUsize size) with
  | none => exact .exit _
  | some stop =>
    simp only
    split
    · refine (metered_chargeCopy _).bind fun _ => (metered_touchMemory _ _).bind fun _ => ?_
      exact metered_writeMemory _ _
    · exact .exit _

/-- Code of another account is paid for by its mark, its size and the memory. -/
theorem metered_opExtcodecopy : Metered opExtcodecopy := by
  refine (metered_pop _).bind fun addressWord => (metered_pop _).bind fun destWord => ?_
  refine (metered_pop _).bind fun offsetWord => (metered_pop _).bind fun sizeWord => ?_
  refine (metered_toUsize _).bind fun dest => (metered_toUsize _).bind fun offset => ?_
  refine (metered_toUsize _).bind fun size => ?_
  -- A size that has no price ends the frame before the account is marked.
  cases calcCopyGas sizeWord with
  | error error => exact .exit _
  | ok copyCost =>
    refine .get_bind (fun _ _ => rfl) fun evm => ?_
    refine (metered_markAccessed _).bind fun _ => (metered_orVmError _).bind fun memoryCost => ?_
    refine (metered_chargeSum _ _ _).bind fun _ => (metered_expandMemory _).bind fun _ => ?_
    exact metered_copyToMemory _ _ _

/-- A hash is paid for by the words it reads. -/
theorem metered_opKeccak256 : Metered (opKeccak256 host) := by
  refine (metered_pop _).bind fun offset => (metered_pop _).bind fun size => ?_
  refine (metered_chargeCopy _).bind fun _ => (metered_touchMemory _ _).bind fun _ => ?_
  exact (metered_readMemory _ _).bind fun bytes => metered_push _ _

/-- A log is paid for by its topics and its data. -/
theorem metered_opLog (topics : Nat) : Metered (opLog host topics) := by
  refine metered_requireMutable.bind fun _ => (metered_pop _).bind fun offset => ?_
  refine (metered_pop _).bind fun size => (metered_popTopics _).bind fun found => ?_
  -- An amount of data without a price ends the frame.
  cases logGas topics (asUsize size) with
  | none => exact .exit _
  | some gas =>
    refine (metered_charge _).bind fun _ => (metered_touchMemory _ _).bind fun _ => ?_
    exact (metered_readMemory _ _).bind fun data => .modify (fun _ _ => rfl) fun _ => rfl

/-- The price of a slot is read from its mark. -/
theorem metered_opSload : Metered opSload := by
  refine (metered_pop _).bind fun key => .get_bind (fun _ _ => rfl) fun evm => ?_
  refine (metered_markSlotWarm _).bind fun _ => (metered_charge _).bind fun _ => ?_
  exact metered_push _ _

/-- The price of a store depends on the value in the slot and on its mark. -/
theorem metered_opSstore : Metered opSstore := by
  refine metered_requireMutable.bind fun _ => (metered_pop _).bind fun key => ?_
  refine (metered_pop _).bind fun value => .get_bind (fun _ _ => rfl) fun evm => ?_
  refine (metered_markSlotWarm _).bind fun _ => (metered_charge _).bind fun _ => ?_
  exact .modify (fun _ _ => rfl) fun _ => rfl

/-- A transient store is paid for by its opcode alone. -/
theorem metered_opTstore : Metered opTstore := by
  refine metered_requireMutable.bind fun _ => (metered_pop _).bind fun key => ?_
  exact (metered_pop _).bind fun value => .modify (fun _ _ => rfl) fun _ => rfl

/-- A self-destruction is paid for by its opcode and the mark of its beneficiary. -/
theorem metered_opSelfdestruct : Metered opSelfdestruct := by
  refine metered_requireMutable.bind fun _ => (metered_pop _).bind fun word => ?_
  refine .get_bind (fun _ _ => rfl) fun evm => ?_
  refine (metered_markAccessed _).bind fun _ => (metered_charge _).bind fun _ => ?_
  -- The sweep and the removal are the same under any gas.
  refine .modify (fun extra evm => ?_) fun evm => ?_
  · unfold destroyAccount removeAccount
    show (if evm.selfAddress ∈ evm.createdInTransaction then _ else _) =
      gasBudget.more extra (if evm.selfAddress ∈ evm.createdInTransaction then _ else _)
    split <;> rfl
  · show (destroyAccount evm _).gasLeft = evm.gasLeft
    unfold destroyAccount removeAccount
    simp only
    split <;> rfl

/-- The opcodes that look at the gas: the one that reads it, and those that share it out. -/
def Opcode.looksAtGas : Opcode → Bool
  | gas | call | delegatecall | staticcall | create | create2 => true
  | _ => false

/-- All others are metered, apart from the one that burns whatever there is. -/
theorem metered_dispatch {op : Opcode} (blind : op.looksAtGas = false) (lasting : op ≠ .invalid) :
    Metered (dispatch host op) := by
  -- The opcodes left out contradict one of the hypotheses.
  cases op with
  | stop | jumpdest => exact .pure _
  | add | mul | sub | div | sdiv | mod | smod | exp | signextend | lt | gt | eq | and | or | xor
  | byte | shl | shr | sar => exact metered_binary _ _
  | addmod | mulmod => exact metered_ternary _ _
  | iszero | not | calldataload | blockhash | blobhash | tload =>
    exact metered_unary _ _ fun _ _ _ => rfl
  | address | origin | caller | callvalue | calldatasize | codesize | gasprice | returndatasize
  | coinbase | timestamp | number | prevrandao | gaslimit | chainid | basefee | blobbasefee
  | msize | selfbalance => exact metered_pushRead _ fun _ _ => rfl
  | balance => exact metered_accountQuery _ fun _ _ _ => rfl
  | extcodesize =>
    unfold dispatch opExtcodesize
    exact metered_accountQuery _ fun _ _ _ => rfl
  | extcodehash =>
    unfold dispatch opExtcodehash
    exact metered_accountQuery _ fun _ _ _ => rfl
  | calldatacopy | codecopy => exact metered_copyOpcode _ fun _ _ => rfl
  | keccak256 => exact metered_opKeccak256
  | extcodecopy => exact metered_opExtcodecopy
  | returndatacopy => exact metered_opReturndatacopy
  | mload => exact metered_opMload
  | mstore => exact metered_opMstore
  | mstore8 => exact metered_opMstore8
  | mcopy => exact metered_opMcopy
  | sload => exact metered_opSload
  | sstore => exact metered_opSstore
  | tstore => exact metered_opTstore
  | jump => exact (metered_pop _).bind fun dest => metered_jumpTo _ _
  | jumpi => exact metered_opJumpi
  | push1 => exact metered_opPush1
  | push2 => exact metered_opPush2
  | push size => exact metered_executePushN size
  | dup depth => exact metered_opDup depth
  | swap depth => exact metered_opSwap depth
  | log topics => exact metered_opLog topics
  | return_ | revert => exact metered_finishWith _
  | selfdestruct => exact metered_opSelfdestruct
  | undefined => exact .exit _
  | invalid => exact absurd rfl lasting
  | gas | call | delegatecall | staticcall | create | create2 => cases blind

end Handlers

end MiniEvm
