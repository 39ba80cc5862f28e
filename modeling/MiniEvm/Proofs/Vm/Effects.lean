import MiniEvm.Proofs.Vm.Openings

/-! What a handler that opens no frame can do, for every opcode. -/

namespace MiniEvm

open EvmM Frames Frames.Program

/-- The two states belong to one frame: its code, its call and its identities are the same. -/
structure SameFrame (before after : Evm) : Prop where
  code : after.code = before.code
  validJumpdests : after.validJumpdests = before.validJumpdests
  context : after.context = before.context
  storageAddress : after.storageAddress = before.storageAddress
  transientStorageAddress : after.transientStorageAddress = before.transientStorageAddress
  env : after.env = before.env
  isStatic : after.isStatic = before.isStatic

namespace SameFrame

theorem trans {a b c : Evm} (first : SameFrame a b) (second : SameFrame b c) : SameFrame a c where
  code := second.code.trans first.code
  validJumpdests := second.validJumpdests.trans first.validJumpdests
  context := second.context.trans first.context
  storageAddress := second.storageAddress.trans first.storageAddress
  transientStorageAddress := second.transientStorageAddress.trans first.transientStorageAddress
  env := second.env.trans first.env
  isStatic := second.isStatic.trans first.isStatic

/-- A frame acts as one account throughout. -/
theorem selfAddress {a b : Evm} (same : SameFrame a b) : b.selfAddress = a.selfAddress := by
  simp only [Evm.selfAddress, same.storageAddress, same.context]

/-- A frame uses the transient slots of one account throughout. -/
theorem transientAddress {a b : Evm} (same : SameFrame a b) :
    b.transientAddress = a.transientAddress := by
  simp only [Evm.transientAddress, same.transientStorageAddress, same.selfAddress]

end SameFrame

/-- No account, no log and no map but the one of nonces changed, and no gas appeared. -/
structure Drift (before after : Evm) : Prop extends SameFrame before after where
  storage : after.storage = before.storage
  balances : after.balances = before.balances
  contracts : after.contracts = before.contracts
  logs : after.logs = before.logs
  state : after.state = before.state
  createdInTransaction : after.createdInTransaction = before.createdInTransaction
  gas : after.gasLeft ≤ before.gasLeft
  -- A refused creation bumps the nonce of its own account.
  nonces : ∀ account, account ≠ before.selfAddress →
    after.nonces.lookup account = before.nonces.lookup account

/-- A quiet change is a drift. -/
theorem Quiet.drift {a b : Evm} (quiet : Quiet a b) : Drift a b :=
  { quiet with nonces := fun _ _ => by rw [quiet.nonces] }

/-- Drifts may follow each other. -/
theorem Drift.trans {a b c : Evm} (first : Drift a b) (second : Drift b c) : Drift a c where
  toSameFrame := first.toSameFrame.trans second.toSameFrame
  storage := second.storage.trans first.storage
  balances := second.balances.trans first.balances
  contracts := second.contracts.trans first.contracts
  logs := second.logs.trans first.logs
  state := second.state.trans first.state
  createdInTransaction := second.createdInTransaction.trans first.createdInTransaction
  gas := second.gas.trans first.gas
  nonces := fun account other => (second.nonces account
    (first.toSameFrame.selfAddress ▸ other)).trans (first.nonces account other)

/-- The opcodes that by themselves write no account, no transient slot and no log. -/
def Opcode.isPlain : Opcode → Bool
  | sstore | tstore | log _ | selfdestruct => false
  | _ => true

/-- How many bytes of code an instruction takes, its immediate included. -/
def Opcode.width : Opcode → Nat
  | push1 => 2
  | push2 => 3
  | push size => size + 1
  | _ => 1

/-- What a handler that opened no frame and reached its end has done. -/
inductive Effect (evm : Evm) : Opcode → Evm → Prop
  | plain {op after} : op.isPlain = true → Drift evm after → Effect evm op after
  | sstore {mid key val rest} : evm.isStatic = false → evm.stack.data = key :: val :: rest →
      Drift evm mid →
      Effect evm .sstore { mid with state := mid.state.setStorage mid.selfAddress key val }
  | tstore {mid key val rest} : evm.isStatic = false → evm.stack.data = key :: val :: rest →
      Drift evm mid →
      Effect evm .tstore { mid with state := mid.state.tstore mid.transientAddress key val }
  | log {mid topics record} : evm.isStatic = false → Drift evm mid →
      Effect evm (.log topics) { mid with logs := mid.logs ++ [record] }
  | selfdestruct {mid word rest} : evm.isStatic = false → evm.stack.data = word :: rest →
      Drift evm mid → Effect evm .selfdestruct (destroyAccount mid (accountAddress word))

/-- Removing an account, or only sweeping it, happens inside one frame. -/
theorem destroyAccount_sameFrame (evm : Evm) (beneficiary : Address) :
    SameFrame evm (destroyAccount evm beneficiary) := by
  simp only [destroyAccount]
  split <;> constructor <;> rfl

/-- No effect leaves the frame. -/
theorem Effect.sameFrame {evm after : Evm} {op : Opcode} (effect : Effect evm op after) :
    SameFrame evm after := by
  -- Writers replace the fork or the logs and nothing that identifies the frame.
  cases effect with
  | plain _ drift => exact drift.toSameFrame
  | sstore _ _ drift => exact { drift.toSameFrame with }
  | tstore _ _ drift => exact { drift.toSameFrame with }
  | log _ drift => exact { drift.toSameFrame with }
  | selfdestruct _ _ drift => exact drift.toSameFrame.trans (destroyAccount_sameFrame _ _)

/-- How a handler that reached its end has moved on: only a stop costs nothing. -/
structure Advance (evm : Evm) (op : Opcode) (after : Evm) : Prop where
  gas : after.gasLeft < evm.gasLeft ∨ op = .stop ∧ after.gasLeft = evm.gasLeft
  pc : after.pc = evm.pc + op.width ∨
    (op = .jump ∨ op = .jumpi) ∧ evm.validJumpdests[after.pc]? = some true

/-- A range without bytes that starts past the end of memory. -/
def emptyRangeOutside (evm : Evm) (offset size : Word) : Bool :=
  asUsize size = 0 && evm.memory.length < asUsize offset

/-- Whether the gas covers a static cost and a copy of this size. -/
def affordsCopy (evm : Evm) (base : Nat) (size : Word) : Bool :=
  match calcCopyGas size with
  | .ok cost => base + cost ≤ evm.gasLeft
  | .error _ => false

/-- The steps that slice memory at an empty range outside of it, once all their checks passed. -/
def overruns (evm : Evm) : Bool :=
  match evm.opcode, evm.stack.data with
  | some .keccak256, offset :: size :: _ =>
    -- The copy is priced by the whole word, of which the range keeps the lowest limb only.
    emptyRangeOutside evm offset size && affordsCopy evm 30 size
  | some .returndatacopy, dest :: offset :: size :: _ =>
    emptyRangeOutside evm dest size && affordsCopy evm 3 size &&
      -- An empty range may still start past the return data, which is reported before.
      asUsize offset ≤ evm.returnData.length
  | some (.log topics), offset :: size :: rest =>
    emptyRangeOutside evm offset size && !evm.isStatic && topics ≤ rest.length &&
      375 + 375 * topics ≤ evm.gasLeft
  | _, _ => false

/-- The frame as the handler of its opcode finds it. -/
def Evm.begin (evm : Evm) (op : Opcode) : Evm :=
  { evm with gasLeft := evm.gasLeft - op.gasTable, pc := evm.pc + 1 }

/-- How a step can take the process down, by itself. -/
inductive Aborts (host : Host) (evm : Evm) : Fault → Prop
  | indexing : overruns evm = true → Aborts host evm .indexOutOfRange
  | overflow : host.overflowChecks = true → Aborts host evm .arithmeticOverflow

/-- Every end of a step that opens no frame. -/
def StepLeaf (host : Host) (evm : Evm) (op : Opcode)
    (tree : Tree Evm ExecutionResult Fault Unit) : Prop :=
  tree.Leaf (Aborts host evm)
    (fun result after => Drift evm after ∧ result ≠ .halt)
    (fun _ after => Effect evm op after ∧ Advance evm op after)

/-- Handlers that stay inside their buffers only abort where the build checks for overflow. -/
theorem CheckedOverflow.aborts {host : Host} {evm : Evm} {cause : Fault}
    (aborted : CheckedOverflow host cause) : Aborts host evm cause := by
  cases aborted with
  | overflow checks => exact .overflow checks

section Shapes

variable {host : Host} {evm : Evm} {op : Opcode}

/-- Fetching an opcode and paying for it is one. -/
theorem begin_drift : Drift evm (evm.begin op) := by
  constructor
  · constructor <;> rfl
  all_goals first | rfl | exact Nat.sub_le _ _ | exact fun _ _ => rfl

/-- A handler that is quiet once it has moved past its instruction. -/
theorem stepLeaf_of_quietFrom {mid : Evm} {tree : Tree Evm ExecutionResult Fault Unit}
    (plain : op.isPlain = true) (drift : Drift evm mid) (moved : mid.pc = evm.pc + op.width)
    (paid : mid.gasLeft < evm.gasLeft) (quiet : QuietFrom host mid tree) : StepLeaf host evm op tree := by
  -- Its three kinds of end are those of the step, seen from the opcode on.
  refine Tree.Leaf.weaken quiet ?_ ?_ ?_
  · exact fun _ aborted => aborted.aborts
  · exact fun result after ended => ⟨drift.trans ended.1.drift, ended.2⟩
  · intro _ after ended
    refine ⟨.plain plain (drift.trans ended.drift), .inl ?_, .inl ?_⟩
    · exact Nat.lt_of_le_of_lt ended.gas paid
    · rw [ended.pc, moved]

/-- A tame handler of an opcode with a static cost. -/
theorem stepLeaf_of_tame {handler : EvmM Unit} (tame : Tame host handler) (plain : op.isPlain = true)
    (single : op.width = 1) (positive : 0 < op.gasTable) (enough : op.gasTable ≤ evm.gasLeft) :
    StepLeaf host evm op (handler (evm.begin op)) := by
  -- The static cost alone is what the step has paid.
  refine stepLeaf_of_quietFrom plain begin_drift (by rw [single]; rfl) ?_ (tame _).quietFrom
  show evm.gasLeft - op.gasTable < evm.gasLeft
  omega

/-- A handler that has been quiet so far, and whose next part is calm. -/
theorem stepLeaf_bind {α : Type} {start : Evm} {first : EvmM α} {rest : α → EvmM Unit}
    {post : α → Evm → Prop} (sofar : Quiet (evm.begin op) start)
    (calm : Calm (Aborts host evm) start first post)
    (last : ∀ value mid, Quiet (evm.begin op) mid → post value mid →
      StepLeaf host evm op (rest value mid)) :
    StepLeaf host evm op ((first >>= rest) start) := by
  -- An end of the first part is an end of the step, and the rest goes on quietly from it.
  refine Meets.bind (Meets.weaken calm (fun _ fault => fault) ?_ (fun _ _ ended => ended)) ?_
  · exact fun _ _ ended => ⟨begin_drift.trans (sofar.trans ended.1).drift, ended.2⟩
  · exact fun value mid ended => last value mid (sofar.trans ended.1) ended.2

/-- A plain handler that has paid and is calm to its end. -/
theorem stepLeaf_last {start : Evm} {handler : EvmM Unit} {post : Unit → Evm → Prop}
    (sofar : Quiet (evm.begin op) start) (plain : op.isPlain = true) (single : op.width = 1)
    (paid : start.gasLeft < evm.gasLeft)
    (calm : Calm (Aborts host evm) start handler post) :
    StepLeaf host evm op (handler start) := by
  -- Gas only falls on the way to the end, so what was paid stays paid.
  refine Meets.weaken calm (fun _ fault => fault) ?_ ?_
  · exact fun _ _ ended => ⟨begin_drift.trans (sofar.trans ended.1).drift, ended.2⟩
  · intro _ after ended
    have quiet := sofar.trans ended.1
    refine ⟨.plain plain (begin_drift.trans quiet.drift), .inl ?_, .inl ?_⟩
    · exact Nat.lt_of_le_of_lt ended.1.gas paid
    · rw [quiet.pc, single]
      rfl

/-- A handler that pays for itself. -/
theorem stepLeaf_of_burns {handler : EvmM Unit} (burns : Burns host handler)
    (plain : op.isPlain = true) (single : op.width = 1) :
    StepLeaf host evm op (handler (evm.begin op)) := by
  -- The handler pays at every end it reaches, whatever the static cost was.
  refine Meets.weaken (burns (evm.begin op)) ?_ ?_ ?_
  · exact fun _ aborted => aborted.aborts
  · exact fun result after ended => ⟨begin_drift.trans ended.1.drift, ended.2⟩
  · intro _ after ended
    refine ⟨.plain plain (begin_drift.trans ended.1.drift), .inl ?_, .inl ?_⟩
    · exact Nat.lt_of_lt_of_le ended.2 begin_drift.gas
    · rw [ended.1.pc, single]
      rfl

end Shapes

/-- The opcodes with a static cost whose handlers are tame. -/
def Opcode.isTame : Opcode → Bool
  | stop | keccak256 | returndatacopy | jump | jumpi | push1 | push2 | push _ | sstore | tstore
  | log _ | create | call | delegatecall | create2 | staticcall | selfdestruct => false
  | op => 0 < op.gasTable

/-- The opcodes without a static cost whose handlers pay for themselves or end the frame. -/
def Opcode.isBurning : Opcode → Bool
  | balance | extcodesize | extcodecopy | extcodehash | sload | mcopy | return_ | revert | invalid
  | undefined => true
  | _ => false

/-- The handlers that the table lists as tame are so. -/
theorem tame_dispatch (host : Host) {op : Opcode} (tame : op.isTame = true) :
    Tame host (dispatch host op) := by
  -- Families share one lemma, and only memory and the stack permutations have their own.
  cases op with
  | add | mul | sub | div | sdiv | mod | smod | exp | signextend | lt | gt | eq | and | or | xor
  | byte | shl | shr | sar => exact tame_binary _ _
  | addmod | mulmod => exact tame_ternary _ _
  | iszero | not | calldataload | blockhash | blobhash | tload => exact tame_unary _ _ _
  | address | origin | caller | callvalue | calldatasize | codesize | gasprice | returndatasize
  | coinbase | timestamp | number | prevrandao | gaslimit | chainid | selfbalance | basefee
  | blobbasefee | msize | gas => exact tame_pushRead _ _
  | calldatacopy | codecopy => exact tame_copyOpcode _ _
  | mload => exact tame_opMload
  | mstore => exact tame_opMstore
  | mstore8 => exact tame_opMstore8
  | jumpdest => exact Tame.pure _
  | dup depth => exact tame_opDup depth
  | swap depth => exact tame_opSwap depth
  -- No other opcode counts as tame.
  | _ => exact absurd tame (by simp [Opcode.isTame, Opcode.gasTable])

/-- The invalid opcode never goes on. -/
theorem burns_opInvalidOpcode {host : Host} : Burns host opInvalidOpcode := by
  intro evm
  -- All gas is taken, and then the frame ends.
  refine (Calm.modify ?_).bind fun _ mid _ _ => Calm.exit
  constructor <;> first | rfl | exact Nat.zero_le _

/-- The handlers that the table lists as paying for themselves do so. -/
theorem burns_dispatch (host : Host) {op : Opcode} (burning : op.isBurning = true) :
    Burns host (dispatch host op) := by
  -- One case per opcode whose price the handler takes, and the table rules out the rest.
  cases op with
  | balance => exact burns_accountQuery _ _
  | extcodesize =>
    show Burns host opExtcodesize
    unfold opExtcodesize
    exact burns_accountQuery _ _
  | extcodehash =>
    show Burns host (opExtcodehash host)
    unfold opExtcodehash
    exact burns_accountQuery _ _
  | extcodecopy => exact burns_opExtcodecopy
  | sload => exact burns_opSload
  | mcopy => exact burns_opMcopy
  | return_ | revert => exact burns_finishWith _
  | invalid => exact burns_opInvalidOpcode
  | undefined => exact Burns.exit (.error "Invalid Opcode")
  | _ => exact absurd burning (by simp [Opcode.isBurning])

/-- What tame opcodes have in common. -/
theorem Opcode.facts_of_isTame {op : Opcode} (tame : op.isTame = true) :
    op.isPlain = true ∧ op.width = 1 ∧ 0 < op.gasTable := by
  cases op <;> simp_all [Opcode.isTame, Opcode.isPlain, Opcode.width, Opcode.gasTable]

/-- What burning opcodes have in common. -/
theorem Opcode.facts_of_isBurning {op : Opcode} (burning : op.isBurning = true) :
    op.isPlain = true ∧ op.width = 1 := by
  cases op <;> simp_all [Opcode.isBurning, Opcode.isPlain, Opcode.width]

section Leaves

variable {host : Host} {evm : Evm}

/-- A self-destruction takes no gas beyond its price. -/
@[simp] theorem destroyAccount_gasLeft (beneficiary : Address) :
    (destroyAccount evm beneficiary).gasLeft = evm.gasLeft := by
  simp only [destroyAccount]
  split <;> rfl

/-- A self-destruction does not move the program counter. -/
@[simp] theorem destroyAccount_pc (beneficiary : Address) :
    (destroyAccount evm beneficiary).pc = evm.pc := by
  simp only [destroyAccount]
  split <;> rfl

/-- A STOP does nothing, and its frame goes on behind it. -/
theorem stepLeaf_stop : StepLeaf host evm .stop (dispatch host .stop (evm.begin .stop)) :=
  ⟨.plain rfl begin_drift, .inr ⟨rfl, rfl⟩, .inl rfl⟩

/-- A jump ends at a destination that the analysis marked, or ends the frame. -/
theorem stepLeaf_jumpTo {op : Opcode} {mid : Evm} (dest : Nat) (invalid : String)
    (jumps : op = .jump ∨ op = .jumpi) (plain : op.isPlain = true)
    (quiet : Quiet (evm.begin op) mid) (paid : mid.gasLeft < evm.gasLeft) :
    StepLeaf host evm op (jumpTo dest invalid mid) := by
  have drift : Drift evm mid := begin_drift.trans quiet.drift
  simp only [jumpTo, bind_apply, get_apply, Tree.bind]
  -- The analysis has an entry for every byte of code, and a missing one reads as unmarked.
  cases marked : mid.validJumpdests[dest]?.getD false with
  | false => exact ⟨drift, Stops.ne_halt⟩
  | true =>
    refine ⟨.plain plain { drift with }, .inl paid, .inr ⟨jumps, ?_⟩⟩
    rw [← drift.validJumpdests]
    cases found : mid.validJumpdests[dest]? with
    | none => simp [found] at marked
    | some mark => simpa [found] using marked

/-- Gas only falls, so a static cost stays paid for. -/
theorem paid_of_quiet {op : Opcode} {mid : Evm} (quiet : Quiet (evm.begin op) mid)
    (positive : 0 < op.gasTable) (enough : op.gasTable ≤ evm.gasLeft) :
    mid.gasLeft < evm.gasLeft := by
  have spent : mid.gasLeft ≤ evm.gasLeft - op.gasTable := quiet.gas
  omega

/-- A jump goes to a marked place, at the price of its opcode. -/
theorem stepLeaf_jump (enough : Opcode.jump.gasTable ≤ evm.gasLeft) :
    StepLeaf host evm .jump (dispatch host .jump (evm.begin .jump)) := by
  refine stepLeaf_bind (.refl _) (calm_pop _) fun dest mid quiet _ => ?_
  exact stepLeaf_jumpTo _ _ (.inl rfl) rfl quiet (paid_of_quiet quiet (by decide) enough)

/-- A jump under a condition goes to a marked place or on to the next opcode. -/
theorem stepLeaf_jumpi (enough : Opcode.jumpi.gasTable ≤ evm.gasLeft) :
    StepLeaf host evm .jumpi (dispatch host .jumpi (evm.begin .jumpi)) := by
  refine stepLeaf_bind (.refl _) (calm_pop _) fun dest s1 q1 _ => ?_
  refine stepLeaf_bind q1 (calm_pop _) fun cond mid quiet _ => ?_
  have paid := paid_of_quiet quiet (by decide) enough
  -- A jump that is not taken moves on by one like any other opcode.
  split
  · exact stepLeaf_jumpTo _ _ (.inr rfl) rfl quiet paid
  · exact ⟨.plain rfl (begin_drift.trans quiet.drift), .inl paid, .inl quiet.pc⟩

/-- A push is quiet once it has moved past its immediate. -/
theorem stepLeaf_pushed {op : Opcode} (value : Word) (overflow : String)
    (plain : op.isPlain = true) (positive : 0 < op.gasTable) (enough : op.gasTable ≤ evm.gasLeft) :
    StepLeaf host evm op (push value (.error overflow)
      { evm.begin op with pc := evm.pc + op.width }) := by
  -- The immediate was skipped before the push, so only the stack is left to change.
  refine stepLeaf_of_quietFrom plain ?_ rfl ?_ (calm_push _ _).quietFrom
  · exact { (begin_drift : Drift evm (evm.begin op)) with }
  · show (evm.begin op).gasLeft < evm.gasLeft
    exact paid_of_quiet (.refl _) positive enough

/-- A push goes past its immediate. -/
theorem stepLeaf_push1 (enough : Opcode.push1.gasTable ≤ evm.gasLeft) :
    StepLeaf host evm .push1 (dispatch host .push1 (evm.begin .push1)) := by
  show StepLeaf host evm .push1 (opPush1 (evm.begin .push1))
  simp only [opPush1, bind_apply, get_apply, Tree.bind]
  -- A missing immediate ends the frame.
  cases (evm.begin .push1).code[(evm.begin .push1).pc]? with
  | none => exact ⟨begin_drift, Stops.ne_halt⟩
  | some val => exact stepLeaf_pushed _ _ rfl (by decide) enough

/-- A push of two bytes goes past both of them. -/
theorem stepLeaf_push2 (enough : Opcode.push2.gasTable ≤ evm.gasLeft) :
    StepLeaf host evm .push2 (dispatch host .push2 (evm.begin .push2)) := by
  show StepLeaf host evm .push2 (opPush2 (evm.begin .push2))
  simp only [opPush2, bind_apply, get_apply, Tree.bind]
  -- Either of the two bytes may be the missing one.
  cases (evm.begin .push2).code[(evm.begin .push2).pc]? with
  | none => exact ⟨begin_drift, Stops.ne_halt⟩
  | some high =>
    cases (evm.begin .push2).code[(evm.begin .push2).pc + 1]? with
    | none => exact ⟨begin_drift, Stops.ne_halt⟩
    | some low => exact stepLeaf_pushed _ _ rfl (by decide) enough

/-- A push goes past as many bytes as it takes. -/
theorem stepLeaf_push (size : Nat) (enough : (Opcode.push size).gasTable ≤ evm.gasLeft) :
    StepLeaf host evm (.push size) (dispatch host (.push size) (evm.begin (.push size))) := by
  -- A longer push never fails for lack of bytes; it skips past the end of code instead.
  have landed : (evm.begin (.push size)).pc + size = evm.pc + (Opcode.push size).width := by
    show evm.pc + 1 + size = evm.pc + (size + 1)
    omega
  show StepLeaf host evm (.push size) (executePushN size (evm.begin (.push size)))
  simp only [executePushN, bind_apply, get_apply, modify_apply, Tree.bind, landed]
  exact stepLeaf_pushed _ _ rfl (Nat.succ_pos 2) enough

/-- After a touch, an access to the range can only fail if it is empty and lies outside. -/
theorem touched_outside {start mid : Evm} {offset size : Word}
    (touched : (asUsize size ≠ 0 → asUsize offset + asUsize size ≤ mid.memory.length) ∧
      (asUsize size = 0 → mid = start) ∧ start.memory.length ≤ mid.memory.length ∧
      mid.stack = start.stack)
    (sameMemory : start.memory = evm.memory)
    (outside : ¬ asUsize offset + asUsize size ≤ mid.memory.length) :
    emptyRangeOutside evm offset size = true := by
  -- A touch covers every range that has bytes.
  by_cases empty : asUsize size = 0
  · rw [touched.2.1 empty, sameMemory, empty] at outside
    simp only [emptyRangeOutside, empty, decide_true, Bool.true_and, decide_eq_true_eq]
    omega
  · exact absurd (touched.1 empty) outside

/-- A hash reads memory that may not be there. -/
theorem stepLeaf_keccak256 (decoded : evm.opcode = some .keccak256)
    (enough : Opcode.keccak256.gasTable ≤ evm.gasLeft) :
    StepLeaf host evm .keccak256 (dispatch host .keccak256 (evm.begin .keccak256)) := by
  refine stepLeaf_bind (.refl _) (calm_pop _) fun offset s1 q1 popOffset => ?_
  refine stepLeaf_bind q1 (calm_pop _) fun size s2 q2 popSize => ?_
  refine stepLeaf_bind q2 (calm_chargeCopy size) fun _ s3 q3 charged => ?_
  obtain ⟨cost, priced, afford, rfl⟩ := charged
  refine stepLeaf_bind q3 (calm_touchMemory .overflow _ _) fun _ s4 q4 touched => ?_
  -- Past this point only the read can abort, and only on an empty range.
  have overrun : ¬ asUsize offset + asUsize size ≤ s4.memory.length → overruns evm = true := by
    intro outside
    have empty : emptyRangeOutside evm offset size = true :=
      touched_outside touched (popSize.2.1.trans popOffset.2.1) outside
    have stack : evm.stack.data = offset :: size :: s2.stack.data := by
      rw [← popSize.1]
      exact popOffset.1
    -- Popping is free, so the copy was afforded out of what the static cost left.
    have gas : 30 + cost ≤ evm.gasLeft := by
      rw [popSize.2.2, popOffset.2.2] at afford
      have : cost ≤ evm.gasLeft - 30 := afford
      have : 30 ≤ evm.gasLeft := enough
      omega
    simp [overruns, decoded, stack, empty, affordsCopy, priced, gas]
  refine stepLeaf_bind q4 (calm_readMemory_checked (by omega) fun outside => .indexing (overrun outside))
    fun bytes s5 q5 _ => ?_
  exact stepLeaf_last q5 rfl rfl (paid_of_quiet q5 (by decide) enough) (calm_push _ _)

/-- A copy of return data may write past the memory. -/
theorem stepLeaf_returndatacopy (decoded : evm.opcode = some .returndatacopy)
    (enough : Opcode.returndatacopy.gasTable ≤ evm.gasLeft) :
    StepLeaf host evm .returndatacopy (dispatch host .returndatacopy (evm.begin .returndatacopy)) := by
  refine stepLeaf_bind (.refl _) (calm_pop _) fun dest s1 q1 popDest => ?_
  refine stepLeaf_bind q1 (calm_pop _) fun offset s2 q2 popOffset => ?_
  refine stepLeaf_bind q2 (calm_pop _) fun size s3 q3 popSize => ?_
  refine stepLeaf_bind q3 Calm.get fun value s4 q4 same => ?_
  obtain ⟨rfl, rfl⟩ := same
  have paid := paid_of_quiet q4 (by decide) enough
  -- A range past the return data ends the frame before memory is touched.
  cases sum : checkedAdd (asUsize offset) (asUsize size) with
  | none => exact ⟨begin_drift.trans q4.drift, Stops.ne_halt⟩
  | some stop =>
    obtain ⟨rfl, _⟩ := checkedAdd_eq_some sum
    simp only
    split
    · rename_i inData
      refine stepLeaf_bind q4 (calm_chargeCopy size) fun _ s5 q5 charged => ?_
      obtain ⟨cost, priced, afford, rfl⟩ := charged
      refine stepLeaf_bind q5 (calm_touchMemory .overflow _ _) fun _ s6 q6 touched => ?_
      refine stepLeaf_last q6 rfl rfl (paid_of_quiet q6 (by decide) enough)
        (calm_writeMemory_checked fun outside => .indexing ?_)
      -- The slice is as long as the range, so the write fails only where the range is outside.
      rw [length_slice inData, Nat.add_sub_cancel_left] at outside
      have empty : emptyRangeOutside evm dest size = true :=
        touched_outside touched (popSize.2.1.trans (popOffset.2.1.trans popDest.2.1)) outside
      have stack : evm.stack.data = dest :: offset :: size :: s4.stack.data := by
        rw [← popSize.1, ← popOffset.1]
        exact popDest.1
      have gas : 3 + cost ≤ evm.gasLeft := by
        rw [popSize.2.2, popOffset.2.2, popDest.2.2] at afford
        have : cost ≤ evm.gasLeft - 3 := afford
        have : 3 ≤ evm.gasLeft := enough
        omega
      have inside : asUsize offset ≤ evm.returnData.length := by
        rw [q4.returnData] at inData
        have : asUsize offset + asUsize size ≤ evm.returnData.length := inData
        omega
      simp [overruns, decoded, stack, empty, affordsCopy, priced, gas, inside]
    · exact ⟨begin_drift.trans q4.drift, Stops.ne_halt⟩

/-- A log adds one record, and reads memory that may not be there. -/
theorem stepLeaf_log (topicCount : Nat) (decoded : evm.opcode = some (.log topicCount)) :
    StepLeaf host evm (.log topicCount)
      (dispatch host (.log topicCount) (evm.begin (.log topicCount))) := by
  refine stepLeaf_bind (.refl _) calm_requireMutable fun _ s0 q0 mutable => ?_
  obtain ⟨notStatic, rfl⟩ := mutable
  refine stepLeaf_bind (.refl _) (calm_pop _) fun offset s1 q1 popOffset => ?_
  refine stepLeaf_bind q1 (calm_pop _) fun size s2 q2 popSize => ?_
  refine stepLeaf_bind q2 (calm_popTopics topicCount) fun topics s3 q3 popTopics => ?_
  -- Nothing but the static cost, which is zero for logs, was paid so far.
  have start : s3.gasLeft = evm.gasLeft := popTopics.2.2.2.trans (popSize.2.2.trans popOffset.2.2)
  cases priced : logGas topicCount (asUsize size) with
  | none => exact ⟨begin_drift.trans q3.drift, Stops.ne_halt⟩
  | some baseGas =>
    have sum := logGas_eq_some priced
    refine stepLeaf_bind q3 (calm_charge baseGas) fun _ s4 q4 paid => ?_
    obtain ⟨afford, rfl⟩ := paid
    refine stepLeaf_bind q4 (calm_touchMemory .overflow _ _).withQuiet fun _ s5 q5 touch => ?_
    obtain ⟨growth, touched⟩ := touch
    -- As before, only the read of an empty range can abort.
    have overrun : ¬ asUsize offset + asUsize size ≤ s5.memory.length → overruns evm = true := by
      intro outside
      have empty : emptyRangeOutside evm offset size = true :=
        touched_outside touched
          (popTopics.2.2.1.trans (popSize.2.1.trans popOffset.2.1)) outside
      have stack : evm.stack.data = offset :: size :: (topics ++ s3.stack.data) := by
        rw [← popTopics.2.1, ← popSize.1]
        exact popOffset.1
      have gas : 375 + 375 * topicCount ≤ evm.gasLeft := by omega
      have mutable : evm.isStatic = false := notStatic
      simp [overruns, decoded, stack, empty, mutable, gas, popTopics.1]
    refine stepLeaf_bind q5 (calm_readMemory_checked (by omega) fun outside => .indexing (overrun outside))
      fun bytes s6 q6 same => ?_
    obtain ⟨_, rfl⟩ := same
    refine ⟨.log notStatic (begin_drift.trans q6.drift), .inl ?_, .inl q6.pc⟩
    have spent : s6.gasLeft ≤ s3.gasLeft - baseGas := growth.gas
    show s6.gasLeft < evm.gasLeft
    omega

/-- A transient store writes one transient slot. -/
theorem stepLeaf_tstore (enough : Opcode.tstore.gasTable ≤ evm.gasLeft) :
    StepLeaf host evm .tstore (dispatch host .tstore (evm.begin .tstore)) := by
  refine stepLeaf_bind (.refl _) calm_requireMutable fun _ s0 q0 mutable => ?_
  obtain ⟨notStatic, rfl⟩ := mutable
  refine stepLeaf_bind (.refl _) (calm_pop _) fun key s1 q1 popKey => ?_
  refine stepLeaf_bind q1 (calm_pop _) fun val s2 q2 popVal => ?_
  have stack : evm.stack.data = key :: val :: s2.stack.data := by
    rw [← popVal.1]
    exact popKey.1
  -- Nothing on the way was charged for, so the gas of the table is what it costs.
  have paid := paid_of_quiet q2 (by decide) enough
  exact ⟨.tstore notStatic stack (begin_drift.trans q2.drift), .inl paid, .inl q2.pc⟩

/-- A store writes one slot. -/
theorem stepLeaf_sstore : StepLeaf host evm .sstore (dispatch host .sstore (evm.begin .sstore)) := by
  refine stepLeaf_bind (.refl _) calm_requireMutable fun _ s0 q0 mutable => ?_
  obtain ⟨notStatic, rfl⟩ := mutable
  refine stepLeaf_bind (.refl _) (calm_pop _) fun key s1 q1 popKey => ?_
  refine stepLeaf_bind q1 (calm_pop _) fun val s2 q2 popVal => ?_
  refine stepLeaf_bind q2 Calm.get fun value s3 q3 same => ?_
  obtain ⟨rfl, rfl⟩ := same
  refine stepLeaf_bind q3 (calm_markSlotWarm key) fun _ s4 q4 warm => ?_
  refine stepLeaf_bind q4 (calm_charge _) fun _ s5 q5 paid => ?_
  obtain ⟨afford, rfl⟩ := paid
  have stack : evm.stack.data = key :: val :: s3.stack.data := by
    rw [← popVal.1]
    exact popKey.1
  refine ⟨.sstore notStatic stack (begin_drift.trans q5.drift), .inl ?_, .inl q5.pc⟩
  have start : s4.gasLeft ≤ evm.gasLeft := q4.gas
  -- Even an unchanged warm slot costs something.
  have costs : 0 < if s3.state.getStorage s3.selfAddress key = val then 100
      else if s3.state.getStorage s3.selfAddress key = 0 then 20000 else 2900 := by
    split
    · decide
    · split <;> decide
  show s4.gasLeft - _ < evm.gasLeft
  omega

/-- A self-destruction sweeps and perhaps removes the frame's own account. -/
theorem stepLeaf_selfdestruct :
    StepLeaf host evm .selfdestruct (dispatch host .selfdestruct (evm.begin .selfdestruct)) := by
  refine stepLeaf_bind (.refl _) calm_requireMutable fun _ s0 q0 mutable => ?_
  obtain ⟨notStatic, rfl⟩ := mutable
  refine stepLeaf_bind (.refl _) (calm_pop _) fun word s1 q1 popWord => ?_
  refine stepLeaf_bind q1 Calm.get fun value s2 q2 same => ?_
  obtain ⟨rfl, rfl⟩ := same
  refine stepLeaf_bind q2 (calm_markAccessed _) fun _ s3 q3 _ => ?_
  refine stepLeaf_bind q3 (calm_charge _) fun _ s4 q4 paid => ?_
  obtain ⟨afford, rfl⟩ := paid
  -- The removal itself is free and moves nothing but accounts.
  refine ⟨.selfdestruct notStatic popWord.1 (begin_drift.trans q4.drift), .inl ?_, .inl ?_⟩
  · have start : s3.gasLeft ≤ evm.gasLeft := q3.gas
    rw [destroyAccount_gasLeft]
    show s3.gasLeft - _ < evm.gasLeft
    omega
  · rw [destroyAccount_pc]
    exact q4.pc

end Leaves

end MiniEvm
