import MiniEvm.Proofs.Vm.Pairs

/-! Nested frames and whole runs side by side: a mined transaction and its simulation in step. -/

namespace MiniEvm

open EvmM Frames Frames.Program

section Frames

variable {sender : Address} {host : Host} {mined simulated : Evm}

/-- Frames in step have the same gas. -/
theorem InStep.gasLeft (inStep : InStep sender mined simulated) :
    mined.gasLeft = simulated.gasLeft := by
  rw [inStep.common]
  rfl

/-- Frames in step have the same logs. -/
theorem InStep.logs (inStep : InStep sender mined simulated) : mined.logs = simulated.logs := by
  rw [inStep.common]
  rfl

/-- Frames in step have created the same accounts. -/
theorem InStep.createdInTransaction (inStep : InStep sender mined simulated) :
    mined.createdInTransaction = simulated.createdInTransaction := by
  rw [inStep.common]
  rfl

/-- Frames in step act for the same account. -/
theorem InStep.selfAddress (inStep : InStep sender mined simulated) :
    mined.selfAddress = simulated.selfAddress := by
  rw [inStep.common]
  rfl

/-- Frames in step are at the same opcode. -/
theorem InStep.opcode (inStep : InStep sender mined simulated) :
    mined.opcode = simulated.opcode := by
  rw [inStep.common]
  rfl

/--
The maps that a frame is opened with say what the fork says.

The nonce of the opener is left out, since a creation bumps it in the map first.
-/
structure Faithful (evm child : Evm) : Prop where
  storage : StorageAgrees child
  balances : BalancesAgree child
  contracts : ∀ entry ∈ child.contracts.entries, child.state.getCode entry.1 = entry.2
  nonces : ∀ entry ∈ child.nonces.entries, entry.1 ≠ evm.selfAddress →
    child.state.nonceOf entry.1 = entry.2
  created : ∀ op, evm.opcode = some op → op.isCreation = true →
    evm.legacyBalance child.selfAddress = evm.state.getBalance child.selfAddress

/-- Both frames may be opened. -/
def BothFaithful (mined simulated child child' : Evm) : Prop :=
  Faithful mined child ∧ Faithful simulated child'

/-- The two opened frames start in step. -/
def BothOpen (sender : Address) (child child' : Evm) : Prop :=
  InStep sender (syncLegacyStateIntoFork child) (syncLegacyStateIntoFork child')

/-- Frames that differ in their backdrops only still do once the maps are copied. -/
theorem bothOpen_of_common {child child' : Evm} (common : child = child'.over child.backdrop)
    (bumped : Bumped sender (syncLegacyStateIntoFork child).state
      (syncLegacyStateIntoFork child').state)
    (indexed : child.state.SnapshotsIndexed) (indexed' : child'.state.SnapshotsIndexed) :
    BothOpen sender child child' := by
  -- The copy changes the fork, which is a part of the backdrop.
  have same : ∀ back, child.over back = child'.over back := by
    intro back
    rw [common]
    rfl
  refine ⟨same (syncLegacyStateIntoFork child).backdrop, bumped, indexed.of_snapshots ?_,
    indexed'.of_snapshots ?_⟩
  · exact syncLegacyStateIntoFork_snapshots child
  · exact syncLegacyStateIntoFork_snapshots child'

section Ends

variable {last last' : Evm}

/-- The copies out of two forks keep what the openers take over. -/
theorem ends_gasLeft (ended : (machine host).Ends (InStep sender) last last') :
    last.gasLeft = last'.gasLeft := by
  obtain ⟨stop, stop', inStep, rfl, rfl⟩ := ended
  show (syncForkIntoLegacyState host stop).gasLeft = (syncForkIntoLegacyState host stop').gasLeft
  rw [syncForkIntoLegacyState_gasLeft, syncForkIntoLegacyState_gasLeft, inStep.gasLeft]

/-- What has ended in step has the same logs. -/
theorem ends_logs (ended : (machine host).Ends (InStep sender) last last') :
    last.logs = last'.logs := by
  obtain ⟨stop, stop', inStep, rfl, rfl⟩ := ended
  show (syncForkIntoLegacyState host stop).logs = (syncForkIntoLegacyState host stop').logs
  rw [syncForkIntoLegacyState_logs, syncForkIntoLegacyState_logs, inStep.logs]

/-- What has ended in step has created the same accounts. -/
theorem ends_createdInTransaction (ended : (machine host).Ends (InStep sender) last last') :
    last.createdInTransaction = last'.createdInTransaction := by
  obtain ⟨stop, stop', inStep, rfl, rfl⟩ := ended
  show (syncForkIntoLegacyState host stop).createdInTransaction =
    (syncForkIntoLegacyState host stop').createdInTransaction
  rw [syncForkIntoLegacyState_createdInTransaction, syncForkIntoLegacyState_createdInTransaction,
    inStep.createdInTransaction]

/-- The forks of what has ended in step differ by the nonce of the sender at most. -/
theorem ends_backed (ended : (machine host).Ends (InStep sender) last last') :
    Backed sender last.state last'.state := by
  obtain ⟨stop, stop', inStep, rfl, rfl⟩ := ended
  -- The copies out leave the forks as they are.
  show Backed sender (syncForkIntoLegacyState host stop).state
    (syncForkIntoLegacyState host stop').state
  rw [syncForkIntoLegacyState_state, syncForkIntoLegacyState_state]
  exact inStep.backed

end Ends

section Calls

variable {left right : Backdrop} {evm : Evm} {delegate : Bool} {setup : CallSetup}

/-- A callee has no nonces of its own, so faithful maps cannot be seen when they are copied. -/
theorem Faithful.called {mid : Evm} (faithful : Faithful evm (calledFrame mid delegate setup)) :
    (calledFrame mid delegate setup).state.SameView
      (syncLegacyStateIntoFork (calledFrame mid delegate setup)).state := by
  refine sameView_syncLegacyStateIntoFork ⟨faithful.storage, faithful.balances, ?_,
    faithful.contracts⟩
  intro entry member
  cases member

/-- Callees of frames in step start in step. -/
theorem bothOpen_calledFrame (backed : Backed sender left.state right.state)
    (faithful : BothFaithful mined simulated (calledFrame (evm.over left) delegate setup)
      (calledFrame (evm.over right) delegate setup)) :
    BothOpen sender (calledFrame (evm.over left) delegate setup)
      (calledFrame (evm.over right) delegate setup) := by
  refine bothOpen_of_common ?_
    (backed.bumped.snapshot.of_sameView faithful.1.called faithful.2.called)
    backed.indexed.snapshot backed.indexed'.snapshot
  -- The code of the target is the same in both forks.
  have code : (evm.over left).takeSnapshot.2.state.getCode setup.frame.target =
      (evm.over right).takeSnapshot.2.state.getCode setup.frame.target :=
    backed.bumped.sameReads.code setup.frame.target
  unfold calledFrame callChild
  rw [code]
  rfl

/-- Callers are in step once they have taken over callees that ended in step. -/
theorem inStep_afterCall (backed : Backed sender left.state right.state)
    (result : ExecutionResult) {last last' : Evm}
    (ended : (machine host).Ends (InStep sender) last last') :
    InStep sender (afterCall (evm.over left) result last)
      (afterCall (evm.over right) result last') := by
  have gas := ends_gasLeft ended
  -- After a success the callee's fork is taken over, after a failure the old one.
  cases succeeded : result.isSuccess with
  | true =>
    rw [afterCall_of_success succeeded, afterCall_of_success succeeded]
    have forks := ends_backed ended
    refine ⟨?_, forks⟩
    rw [gas, ends_logs ended, ends_createdInTransaction ended]
    rfl
  | false =>
    have fresh : (evm.over left).state.Fresh := backed.indexed.fresh
    have fresh' : (evm.over right).state.Fresh := backed.indexed'.fresh
    rw [afterCall_of_failure fresh succeeded, afterCall_of_failure fresh' succeeded]
    refine ⟨?_, backed⟩
    rw [gas]
    rfl

/-- A call opens frames that start in step, and goes on in step from what they came to. -/
theorem both_callContract (backed : Backed sender left.state right.state) :
    (callContract host delegate setup (evm.over left)).Both (BothFaithful mined simulated)
      (BothOpen sender) ((machine host).Ends (InStep sender)) (InStep sender)
      (fun _ one _ other => InStep sender one other)
      (callContract host delegate setup (evm.over right)) := by
  intro faithful
  refine ⟨bothOpen_calledFrame backed faithful, fun result last last' ended => ⟨rfl, ?_⟩⟩
  -- What is done with the result afterwards cannot tell the backdrops apart.
  have rest : ∀ self one other, Lockstep self one other (do
      touchMemory host setup.retOffset setup.retSize
      writeOutput setup.retOffset setup.retSize result.output
      push (if result.isSuccess then 1 else 0) (.error "Stack Overflow on CALL")) := by
    intro self one other
    refine (lockstep_touchMemory _ _).bind fun _ => (lockstep_writeOutput _ _ _).bind fun _ => ?_
    exact lockstep_push _ _
  exact (inStep_afterCall backed result ended).both rest

/-- A call of either kind keeps frames in step. -/
theorem both_executeCall (backed : Backed sender left.state right.state)
    (forceStatic delegate : Bool) :
    (executeCall host forceStatic delegate (evm.over left)).Both (BothFaithful mined simulated)
      (BothOpen sender) ((machine host).Ends (InStep sender)) (InStep sender)
      (fun _ one _ other => InStep sender one other)
      (executeCall host forceStatic delegate (evm.over right)) := by
  refine (lockstep_prepareCall forceStatic delegate).then backed rfl fun setup mid _ => ?_
  -- A precompile opens no frame, so that the leaf lemma covers it.
  cases isPrecompile setup.frame.target with
  | true => exact (lockstep_callPrecompile setup).inStep backed
  | false => exact both_callContract backed

end Calls

section Creations

/-- The old maps of a creator other than the sender know its own nonce and balance. -/
structure KnownCreator (sender : Address) (evm : Evm) : Prop where
  others : evm.selfAddress ≠ sender
  nonce : evm.legacyNonce evm.selfAddress = evm.state.nonceOf evm.selfAddress
  balance : evm.legacyBalance evm.selfAddress = evm.state.getBalance evm.selfAddress

variable {left right : Backdrop} {evm : Evm} {value : Word} {salt : Option Word} {initCode : Bytes}

/-- Only the account and the backdrop matter. -/
theorem KnownCreator.over {state : Evm} (known : KnownCreator sender state)
    (self : state.selfAddress = evm.selfAddress) :
    KnownCreator sender (evm.over state.backdrop) := by
  obtain ⟨others, nonce, balance⟩ := known
  rw [self] at others nonce balance
  exact ⟨others, nonce, balance⟩

/-- The nonce that a creator has in its map once the constructor starts. -/
def bumpedNonce (evm : Evm) : Nat := saturatingAdd (evm.legacyNonce evm.selfAddress) 1

/-- When faithful maps are copied for a constructor, only the bump of the creator is seen. -/
theorem Faithful.created_view {mid : Evm}
    (faithful : Faithful evm (createdFrame host mid value salt initCode))
    (self : evm.selfAddress = mid.selfAddress) :
    ((createdFrame host mid value salt initCode).state.setNonce mid.selfAddress
      (bumpedNonce mid)).SameView
        (syncLegacyStateIntoFork (createdFrame host mid value salt initCode)).state where
  nonce := by
    intro account
    have nonces : (createdFrame host mid value salt initCode).nonces =
      mid.nonces.insert mid.selfAddress (bumpedNonce mid) := rfl
    have copied := nonceOf_syncLegacyStateIntoFork (createdFrame host mid value salt initCode)
      account
    refine copied.trans (Eq.trans ?_ (StateFork.nonceOf_setNonce _ _ account _).symm)
    -- The creator's nonce comes from its map; every other nonce is that of the fork.
    by_cases own : account = mid.selfAddress
    · rw [if_pos own, own, nonces, AList.lookup_insert]
      rfl
    · rw [if_neg own]
      cases found : (createdFrame host mid value salt initCode).nonces.lookup account with
      | none => rfl
      | some nonce =>
        exact (faithful.nonces ⟨account, nonce⟩ (AList.mem_lookup_iff.mp found)
          (self ▸ own)).symm
  balance := by
    intro account
    rw [getBalance_syncLegacyStateIntoFork faithful.balances, StateFork.getBalance_setNonce]
  code := by
    intro account
    rw [getCode_syncLegacyStateIntoFork, StateFork.getCode_setNonce]
    cases found : (createdFrame host mid value salt initCode).contracts.lookup account with
    | none => rfl
    | some code => exact (faithful.contracts ⟨account, code⟩ (AList.mem_lookup_iff.mp found)).symm
  storage := by
    intro account key
    rw [getStorage_syncLegacyStateIntoFork faithful.storage, StateFork.getStorage_setNonce]
  transient := by
    intro account key
    unfold StateFork.tload
    rw [syncLegacyStateIntoFork_transientStorage]
    rfl

/-- Creators in step take the same nonce. -/
theorem Backed.legacyNonce (backed : Backed sender left.state right.state)
    (known : KnownCreator sender (evm.over left)) (known' : KnownCreator sender (evm.over right)) :
    (evm.over left).legacyNonce evm.selfAddress = (evm.over right).legacyNonce evm.selfAddress := by
  have others : evm.selfAddress ≠ sender := known.others
  -- Only the sender's nonce differs, and the creator is not the sender.
  have nonces := (backed.bumped.account evm.selfAddress).nonce
  rw [if_neg others] at nonces
  exact known.nonce.trans (nonces.trans known'.nonce.symm)

/-- So they create at the same address. -/
theorem Backed.newAddress (backed : Backed sender left.state right.state)
    (known : KnownCreator sender (evm.over left)) (known' : KnownCreator sender (evm.over right)) :
    createAddress host (evm.over left) salt initCode =
      createAddress host (evm.over right) salt initCode := by
  -- With a salt the nonce plays no part.
  cases salt with
  | some salt => rfl
  | none =>
    show deriveCreateAddress host evm.selfAddress ((evm.over left).legacyNonce evm.selfAddress) =
      deriveCreateAddress host evm.selfAddress ((evm.over right).legacyNonce evm.selfAddress)
    rw [backed.legacyNonce known known']

/-- The fork of a constructor, with the value moved as the maps of its creator have it. -/
theorem createdFrame_fork (host : Host) (mid : Evm) (value : Word) (salt : Option Word)
    (initCode : Bytes) {own new : Word}
    (creator : mid.legacyBalance mid.selfAddress = own)
    (created : mid.legacyBalance (createAddress host mid salt initCode) = new) :
    (createdFrame host mid value salt initCode).state =
      (mid.state.snapshot.2.setBalance mid.selfAddress (own - value)).setBalance
        (createAddress host mid salt initCode)
        ((if createAddress host mid salt initCode = mid.selfAddress then own - value
          else new) + value) := by
  obtain ⟨target, _, state, targets⟩ := createdFrame_balances host mid value salt initCode
  rw [state, targets, creator, created]

/-- The forks of both constructors have the same value moved between the same accounts. -/
theorem Backed.created (backed : Backed sender left.state right.state)
    (known : KnownCreator sender (evm.over left)) (known' : KnownCreator sender (evm.over right))
    {address : Address} (new : createAddress host (evm.over left) salt initCode = address)
    (agrees : (evm.over left).legacyBalance address = left.state.getBalance address)
    (agrees' : (evm.over right).legacyBalance address = right.state.getBalance address) :
    Bumped sender (createdFrame host (evm.over left) value salt initCode).state
      (createdFrame host (evm.over right) value salt initCode).state := by
  have reads := backed.bumped.sameReads
  have new' := (backed.newAddress known known').symm.trans new
  have created : (evm.over left).legacyBalance (createAddress host (evm.over left) salt initCode) =
      left.state.getBalance address := by
    rw [new]
    exact agrees
  have created' : (evm.over right).legacyBalance
      (createAddress host (evm.over right) salt initCode) = right.state.getBalance address := by
    rw [new']
    exact agrees'
  rw [createdFrame_fork host (evm.over left) value salt initCode known.balance created,
    createdFrame_fork host (evm.over right) value salt initCode known'.balance created', new, new']
  -- What the maps say is what both forks say.
  show Bumped sender ((left.state.snapshot.2.setBalance evm.selfAddress
      (left.state.getBalance evm.selfAddress - value)).setBalance address
        ((if address = evm.selfAddress then left.state.getBalance evm.selfAddress - value
          else left.state.getBalance address) + value)) _
  rw [reads.balance evm.selfAddress, reads.balance address]
  exact (backed.bumped.snapshot.setBalance _ _).setBalance _ _

/-- Apart from its backdrop a constructor depends on the creator and the address only. -/
theorem createdFrame_over (host : Host) (evm : Evm) (back : Backdrop) (value : Word)
    (salt : Option Word) (initCode : Bytes) {address : Address}
    (new : createAddress host (evm.over back) salt initCode = address) :
    createdFrame host (evm.over back) value salt initCode =
      (deployChild evm ⟨address, value, 0, 0, 0, 0⟩ initCode (reserveCreate evm).1).over
        (createdFrame host (evm.over back) value salt initCode).backdrop := by
  subst new
  rfl

/-- Constructors of frames in step start in step. -/
theorem bothOpen_createdFrame (inStep : InStep sender mined simulated) {op : Opcode}
    (decoded : simulated.opcode = some op) (creation : op.isCreation = true)
    (own : evm.identity = simulated.identity)
    (known : KnownCreator sender mined) (known' : KnownCreator sender simulated)
    (faithful : BothFaithful mined simulated
      (createdFrame host (evm.over mined.backdrop) value salt initCode)
      (createdFrame host (evm.over simulated.backdrop) value salt initCode)) :
    BothOpen sender (createdFrame host (evm.over mined.backdrop) value salt initCode)
      (createdFrame host (evm.over simulated.backdrop) value salt initCode) := by
  have backed := inStep.backed
  have self' : simulated.selfAddress = evm.selfAddress := (Prod.mk.inj own).1.symm
  have self : mined.selfAddress = evm.selfAddress := inStep.selfAddress.trans self'
  have known := known.over self
  have known' := known'.over self'
  have address : createAddress host (evm.over mined.backdrop) salt initCode =
    createAddress host (evm.over simulated.backdrop) salt initCode :=
      backed.newAddress known known'
  refine bothOpen_of_common ?_ ?_ ?_ ?_
  · have one := createdFrame_over host evm mined.backdrop value salt initCode rfl
    have other := createdFrame_over host evm simulated.backdrop value salt initCode address.symm
    rw [one, other]
    rfl
  · -- The same fork in both, with the same nonce written for the creator.
    have nonces : bumpedNonce (evm.over mined.backdrop) = bumpedNonce (evm.over simulated.backdrop) :=
      congrArg (saturatingAdd · 1) (backed.legacyNonce known known')
    have agrees := faithful.1.created op (inStep.opcode.trans decoded) creation
    have agrees' := faithful.2.created op decoded creation
    rw [createdFrame_selfAddress] at agrees agrees'
    rw [← address] at agrees'
    have forks : Bumped sender
        (createdFrame host (evm.over mined.backdrop) value salt initCode).state
        (createdFrame host (evm.over simulated.backdrop) value salt initCode).state :=
      backed.created known known' rfl agrees agrees'
    have view := faithful.1.created_view self
    have view' := faithful.2.created_view self'
    rw [nonces] at view
    exact (forks.setNonce known.others _).of_sameView view view'
  · exact backed.indexed.snapshot.of_snapshots rfl
  · exact backed.indexed'.snapshot.of_snapshots rfl

/-- Creators are in step once their constructors have ended in step, with the same answer. -/
theorem inStep_afterCreate
    (address : createAddress host (evm.over left) salt initCode =
      createAddress host (evm.over right) salt initCode)
    (backed : Backed sender left.state right.state) (value : Word) (result : ExecutionResult)
    {last last' : Evm}
    (ended : (machine host).Ends (InStep sender) last last') :
    (afterCreate host (evm.over left) value salt initCode result last).1 =
        (afterCreate host (evm.over right) value salt initCode result last').1 ∧
      InStep sender (afterCreate host (evm.over left) value salt initCode result last).2
        (afterCreate host (evm.over right) value salt initCode result last').2 := by
  have gas : last.gasLeft = last'.gasLeft := ends_gasLeft ended
  have marks : last.createdInTransaction = last'.createdInTransaction := ends_createdInTransaction ended
  -- Whether code is deployed depends on the gas and the result, which are the same.
  have same : deploySucceeds (startDeploy host (evm.over left) value salt initCode).2.gasLeft result
      last = deploySucceeds (startDeploy host (evm.over right) value salt initCode).2.gasLeft result
        last' := by
    unfold deploySucceeds
    rw [gas]
    rfl
  have fresh : (evm.over left).state.Fresh := backed.indexed.fresh
  have fresh' : (evm.over right).state.Fresh := backed.indexed'.fresh
  simp only [afterCreate]
  rcases mergeDeploy_cases (startDeploy host (evm.over left) value salt initCode).2
      (startDeploy host (evm.over left) value salt initCode).1 result last with
    ⟨failed, abandoned⟩ | ⟨succeeded, code, runtime, committed⟩
  · rcases mergeDeploy_cases (startDeploy host (evm.over right) value salt initCode).2
        (startDeploy host (evm.over right) value salt initCode).1 result last' with
      ⟨failed', abandoned'⟩ | ⟨succeeded', _⟩
    · have restored := (afterCreate_of_failure fresh failed).1
      have restored' := (afterCreate_of_failure fresh' failed').1
      simp only [afterCreate] at restored restored'
      refine ⟨by rw [abandoned, abandoned'], ?_, ?_⟩
      · rw [abandoned, abandoned']
        unfold abandonDeploy joinDeploy
        rw [gas, marks]
        rfl
      · rw [restored, restored']
        exact backed
    · exact absurd (succeeded'.symm.trans (same.symm.trans failed)) (by decide)
  · rcases mergeDeploy_cases (startDeploy host (evm.over right) value salt initCode).2
        (startDeploy host (evm.over right) value salt initCode).1 result last' with
      ⟨failed', _⟩ | ⟨succeeded', code', runtime', committed'⟩
    · exact absurd (succeeded.symm.trans (same.trans failed')) (by decide)
    · obtain rfl := Option.some.inj (runtime.symm.trans runtime')
      have new : (startDeploy host (evm.over left) value salt initCode).1.newAddr =
        (startDeploy host (evm.over right) value salt initCode).1.newAddr := address
      rw [committed, committed', new]
      refine ⟨rfl, ?_, ?_⟩
      · unfold commitDeploy joinDeploy
        rw [gas, marks]
        rfl
      · have ends := ends_backed ended
        exact ⟨ends.bumped.setCode _ _, ends.indexed, ends.indexed'⟩

/-- A creation that may run opens its constructor if the creator's map has the value. -/
theorem executeDeploy_of_mutable (value : Word) (salt : Option Word) (initCode : Bytes)
    (mutable : evm.isStatic = false) :
    executeDeploy (createAddress host evm salt initCode) value initCode (reserveCreate evm).1
        (reserveCreate evm).2 =
      if evm.legacyBalance evm.selfAddress < value then .next (.ok 0) (reserveCreate evm).2
      else .enter (createdFrame host evm value salt initCode)
        (createSucceeds host evm value salt initCode)
        (fun result child => .next (afterCreate host evm value salt initCode result child).1
          (afterCreate host evm value salt initCode result child).2) :=
  executeDeploy_apply value salt initCode mutable

/-- Both creations are refused, or both open a constructor and go on in step from it. -/
theorem both_executeDeploy (inStep : InStep sender mined simulated) {op : Opcode}
    (decoded : simulated.opcode = some op) (creation : op.isCreation = true)
    (known : KnownCreator sender mined) (known' : KnownCreator sender simulated)
    (own : evm.identity = simulated.identity) (value : Word) (salt : Option Word)
    (initCode : Bytes) :
    ((executeDeploy (createAddress host (evm.over mined.backdrop) salt initCode) value initCode
        (reserveCreate (evm.over mined.backdrop)).1 >>= finishCreate)
        (reserveCreate (evm.over mined.backdrop)).2).Both
      (BothFaithful mined simulated) (BothOpen sender) ((machine host).Ends (InStep sender))
      (InStep sender) (fun _ one _ other => InStep sender one other)
      ((executeDeploy (createAddress host (evm.over simulated.backdrop) salt initCode) value
        initCode (reserveCreate (evm.over simulated.backdrop)).1 >>= finishCreate)
        (reserveCreate (evm.over simulated.backdrop)).2) := by
  have backed := inStep.backed
  have self' : simulated.selfAddress = evm.selfAddress := (Prod.mk.inj own).1.symm
  have start := known.over (inStep.selfAddress.trans self')
  have start' := known'.over self'
  -- Setting gas aside leaves the creators in step.
  have reserved : InStep sender (reserveCreate (evm.over mined.backdrop)).2
    (reserveCreate (evm.over simulated.backdrop)).2 := ⟨rfl, backed⟩
  rw [bind_apply, bind_apply]
  cases static : evm.isStatic with
  | true =>
    have refused : ∀ back address gas, executeDeploy address value initCode gas
        (reserveCreate (evm.over back)).2 =
          .next (.error .staticCallViolation) (reserveCreate (evm.over back)).2 := by
      intro back address gas
      exact congrFun (if_pos static) _
    rw [refused, refused]
    exact reserved.both fun _ _ _ => lockstep_finishCreate _
  | false =>
    have mutable : ∀ back, (evm.over back).isStatic = false := fun _ => static
    -- Both creators have the value in their maps, or neither has.
    have funds : (evm.over mined.backdrop).legacyBalance (evm.over mined.backdrop).selfAddress =
        (evm.over simulated.backdrop).legacyBalance (evm.over simulated.backdrop).selfAddress :=
      start.balance.trans ((backed.bumped.sameReads.balance _).trans start'.balance.symm)
    rw [executeDeploy_of_mutable value salt initCode (mutable _),
      executeDeploy_of_mutable value salt initCode (mutable _), funds]
    split
    · exact reserved.both fun _ _ _ => lockstep_finishCreate _
    · intro faithful
      refine ⟨bothOpen_createdFrame inStep decoded creation own known known' faithful, ?_⟩
      intro result last last' ended
      obtain ⟨answer, after⟩ := inStep_afterCreate (backed.newAddress start start') backed value
        result ended
      constructor
      · unfold createSucceeds deploySucceeds
        rw [ends_gasLeft ended]
        rfl
      · simp only [Tree.bind]
        rw [answer]
        exact after.both fun _ _ _ => lockstep_finishCreate _

/-- A creation of either kind keeps frames in step. -/
theorem both_executeCreate (inStep : InStep sender mined simulated) {op : Opcode}
    (decoded : simulated.opcode = some op) (creation : op.isCreation = true)
    (known : KnownCreator sender mined) (known' : KnownCreator sender simulated)
    (own : evm.identity = simulated.identity) (value offsetWord sizeWord : Word)
    (salt : Option Word) :
    (executeCreate host value offsetWord sizeWord salt (evm.over mined.backdrop)).Both
      (BothFaithful mined simulated) (BothOpen sender) ((machine host).Ends (InStep sender))
      (InStep sender) (fun _ one _ other => InStep sender one other)
      (executeCreate host value offsetWord sizeWord salt (evm.over simulated.backdrop)) := by
  refine (lockstep_prepareInitCode offsetWord sizeWord salt).then inStep.backed own
    fun initCode mid own => ?_
  exact both_executeDeploy inStep decoded creation known known' own value salt initCode

/-- A creation opens frames in step, if the creator's nonces agree. -/
theorem both_opCreate (inStep : InStep sender mined simulated) (decoded : simulated.opcode = some .create)
    (known : KnownCreator sender mined) (known' : KnownCreator sender simulated)
    (own : evm.identity = simulated.identity) :
    (opCreate host (evm.over mined.backdrop)).Both (BothFaithful mined simulated) (BothOpen sender)
      ((machine host).Ends (InStep sender)) (InStep sender)
      (fun _ one _ other => InStep sender one other)
      (opCreate host (evm.over simulated.backdrop)) := by
  have backed := inStep.backed
  -- Up to the opening of the constructor both frames take the same steps.
  refine lockstep_requireMutable.then backed own fun _ mid own => ?_
  refine (lockstep_pop _).then backed own fun value mid own => ?_
  refine (lockstep_pop _).then backed own fun offset mid own => ?_
  refine (lockstep_pop _).then backed own fun size mid own => ?_
  exact both_executeCreate inStep decoded rfl known known' own value offset size none

/-- A creation with a salt opens frames in step, if the creator's nonces agree. -/
theorem both_opCreate2 (inStep : InStep sender mined simulated)
    (decoded : simulated.opcode = some .create2)
    (known : KnownCreator sender mined) (known' : KnownCreator sender simulated)
    (own : evm.identity = simulated.identity) :
    (opCreate2 host (evm.over mined.backdrop)).Both (BothFaithful mined simulated) (BothOpen sender)
      ((machine host).Ends (InStep sender)) (InStep sender)
      (fun _ one _ other => InStep sender one other)
      (opCreate2 host (evm.over simulated.backdrop)) := by
  have backed := inStep.backed
  -- Up to the opening of the constructor both frames take the same steps.
  refine lockstep_requireMutable.then backed own fun _ mid own => ?_
  refine (lockstep_pop _).then backed own fun value mid own => ?_
  refine (lockstep_pop _).then backed own fun offset mid own => ?_
  refine (lockstep_pop _).then backed own fun size mid own => ?_
  refine (lockstep_pop _).then backed own fun salt mid own => ?_
  exact both_executeCreate inStep decoded rfl known known' own value offset size (some salt)

end Creations

section Steps

variable {initial : StateFork}

/--
A state from which mining does what a simulation does.

The maps that are copied into the fork of an opened frame change nothing there.
An account that is removed was not there in the beginning, so no later look at the modified accounts
can miss it.
-/
structure Predictable (host : Host) (sender : Address) (initial : StateFork) (evm : Evm) :
    Prop where
  opens : ∀ {sofar child}, (machine host).Opens evm sofar child → Faithful evm child
  creates : ∀ op, evm.opcode = some op → op.isCreation = true → KnownCreator sender evm
  removes : evm.opcode = some .selfdestruct → evm.selfAddress ∈ evm.createdInTransaction →
    evm.selfAddress ≠ sender ∧ SameAccount 0 (initial.getAccount evm.selfAddress) {}

/-- The handler of every opcode leaves frames in step, once what it opens is faithful. -/
theorem both_dispatch (inStep : InStep sender mined simulated) {op : Opcode}
    (decoded : simulated.opcode = some op) (predictable : Predictable host sender initial mined)
    (predictable' : Predictable host sender initial simulated) :
    (dispatch host op ((simulated.begin op).over mined.backdrop)).Both
      (BothFaithful mined simulated) (BothOpen sender) ((machine host).Ends (InStep sender))
      (InStep sender) (fun _ one _ other => InStep sender one other)
      (dispatch host op ((simulated.begin op).over simulated.backdrop)) := by
  have backed := inStep.backed
  have decodedMined := inStep.opcode.trans decoded
  -- Most opcodes cannot tell the backdrops apart; eight of them are looked at one by one.
  cases reaches : op.reachesOut with
  | false => exact (lockstep_dispatch backed.bumped.sameReads reaches).inStep backed
  | true =>
    cases op with
    | sstore => exact both_opSstore backed rfl
    | tstore => exact both_opTstore backed rfl
    | selfdestruct =>
      exact both_opSelfdestruct backed fun created => (predictable'.removes decoded created).1
    | call | delegatecall | staticcall => exact both_executeCall backed _ _
    | create =>
      exact both_opCreate inStep decoded (predictable.creates _ decodedMined rfl)
        (predictable'.creates _ decoded rfl) rfl
    | create2 =>
      exact both_opCreate2 inStep decoded (predictable.creates _ decodedMined rfl)
        (predictable'.creates _ decoded rfl) rfl
    | _ => cases reaches

/-- One step of both frames leaves them in step, once what it opens is faithful. -/
theorem both_step (inStep : InStep sender mined simulated)
    (predictable : Predictable host sender initial mined)
    (predictable' : Predictable host sender initial simulated) :
    (step host mined).Both (BothFaithful mined simulated) (BothOpen sender)
      ((machine host).Ends (InStep sender)) (InStep sender)
      (fun _ one _ other => InStep sender one other) (step host simulated) := by
  -- Both frames have the same opcode, and the same gas for it.
  cases decoded : simulated.opcode with
  | none =>
    rw [step_of_idle (inStep.opcode.trans decoded), step_of_idle decoded]
    exact inStep
  | some op =>
    have begun : mined.begin op = (simulated.begin op).over mined.backdrop :=
      congrArg (Evm.begin · op) inStep.common
    rw [step_apply (inStep.opcode.trans decoded), step_apply decoded, inStep.gasLeft, begun]
    split
    · exact ⟨rfl, inStep⟩
    · exact both_dispatch inStep decoded predictable predictable'

/-- Two runs that start in step and stay predictable come to the same end. -/
theorem both_trace {start start' : Evm} (inStep : InStep sender start start')
    (predictable : ∀ visited reached, (machine host).Reaches start visited reached →
      (machine host).running reached = true → Predictable host sender initial reached)
    (predictable' : ∀ visited reached, (machine host).Reaches start' visited reached →
      (machine host).running reached = true → Predictable host sender initial reached)
    (fuel : Nat) :
    ((machine host).trace fuel start).Both
      (fun one other => one.2.1 = other.2.1 ∧ InStep sender one.2.2 other.2.2)
      ((machine host).trace fuel start') := by
  -- What is asked of every visited state is asked of the frames below as well.
  have grants : ∀ {mined simulated sofar sofar' child child'}, InStep sender mined simulated →
      Predictable host sender initial mined → Predictable host sender initial simulated →
      (machine host).Opens mined sofar child → (machine host).Opens simulated sofar' child' →
      BothFaithful mined simulated child child' :=
    fun _ here there opens opens' => ⟨here.opens opens, there.opens opens'⟩
  refine Machine.trace_both ?_ ?_ grants fuel inStep predictable predictable'
  · intro mined simulated inStep
    rw [inStep.common]
    rfl
  · exact fun inStep predictable predictable' => both_step inStep predictable predictable'

end Steps

end Frames

end MiniEvm
