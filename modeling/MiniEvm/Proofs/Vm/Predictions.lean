import MiniEvm.Frames.Check
import MiniEvm.Proofs.State.Snapshots
import MiniEvm.Proofs.Vm.Gas
import MiniEvm.Proofs.Vm.PairedFrames
import MiniEvm.Proofs.Vm.Transactions
import MiniEvm.Vm.Simulation

/-! What a simulation predicts: when mining the same transaction comes to the same. -/

namespace MiniEvm

open Frames

section Overlays

variable {initial fork : StateFork}

/-- The accounts that a fork has not modified are those of the initial state. -/
def Overlays (initial fork : StateFork) : Prop :=
  ∀ account, fork.dirtyState.lookup account = none →
    SameAccount 0 (fork.getAccount account) (initial.getAccount account)

namespace Overlays

theorem refl (state : StateFork) : Overlays state state :=
  fun _ _ => ⟨rfl, rfl, rfl, fun _ => rfl⟩

/-- Only the two layers of accounts matter. -/
theorem of_layers (overlays : Overlays initial fork) {other : StateFork}
    (dirty : other.dirtyState = fork.dirtyState) (base : other.baseState = fork.baseState) :
    Overlays initial other := by
  intro account clean
  -- An account is looked for in these two layers and nowhere else.
  have same : other.getAccount account = fork.getAccount account := by
    unfold StateFork.getAccount
    rw [dirty, base]
  rw [same]
  exact overlays account (dirty ▸ clean)

/-- A written account is a modified one. -/
theorem accountForWrite (overlays : Overlays initial fork) (address : Address)
    (write : AccountState → AccountState) :
    Overlays initial (fork.accountForWrite address write) := by
  intro account clean
  -- The written account is not among the clean ones any more.
  have others : account ≠ address := by
    rintro rfl
    simp [StateFork.accountForWrite] at clean
  rw [StateFork.getAccount_accountForWrite, if_neg others]
  simp only [StateFork.accountForWrite, AList.lookup_insert_ne others] at clean
  exact overlays account clean

/-- A removed account must have been an empty one in the beginning. -/
theorem erase (overlays : Overlays initial fork) {address : Address}
    (empty : SameAccount 0 (initial.getAccount address) {}) :
    Overlays initial { fork with
      dirtyState := fork.dirtyState.erase address
      baseState := fork.baseState.erase address } := by
  intro account clean
  rw [StateFork.getAccount_erase]
  -- The erased account reads as empty, as it did in the beginning.
  by_cases here : account = address
  · rw [if_pos here, here]
    exact ⟨empty.nonce.symm, empty.balance.symm, empty.code.symm, fun key =>
      (empty.storage key).symm⟩
  · rw [if_neg here]
    simp only [AList.lookup_erase_ne here] at clean
    exact overlays account clean

theorem sweepBalance (overlays : Overlays initial fork) (account beneficiary : Address) :
    Overlays initial (MiniEvm.sweepBalance fork account beneficiary) := by
  unfold MiniEvm.sweepBalance
  split
  · exact overlays
  · exact (overlays.accountForWrite _ _).accountForWrite _ _

/-- The copy of the old maps only writes. -/
theorem syncLegacyStateIntoFork {evm : Evm} (overlays : Overlays initial evm.state) :
    Overlays initial (MiniEvm.syncLegacyStateIntoFork evm).state :=
  syncLegacyStateIntoFork_induction evm overlays
    (fun _ overlays _ _ => overlays.accountForWrite _ _)
    (fun _ overlays _ _ => overlays.accountForWrite _ _)
    (fun _ overlays _ _ => overlays.accountForWrite _ _)
    (fun _ overlays _ _ => overlays.accountForWrite _ _)

end Overlays

end Overlays

section Keeps

/-- What a step and what a run keep of a fork that was laid over an initial state. -/
structure Keeps (initial : StateFork) (before after : StateFork) : Prop where
  indexed : after.SnapshotsIndexed
  snapshots : before.snapshots <+: after.snapshots
  overlays : Overlays initial before → Overlays initial after

variable {initial : StateFork} {host : Host} {sender : Address} {evm : Evm}

namespace Keeps

variable {a b c : StateFork}

theorem refl (indexed : a.SnapshotsIndexed) : Keeps initial a a :=
  ⟨indexed, List.prefix_rfl, id⟩

theorem trans (first : Keeps initial a b) (second : Keeps initial b c) : Keeps initial a c where
  indexed := second.indexed
  snapshots := first.snapshots.trans second.snapshots
  overlays := second.overlays ∘ first.overlays

/-- A change of the accounts alone. -/
theorem of_overlays (indexed : a.SnapshotsIndexed) (same : b.snapshots = a.snapshots)
    (overlays : Overlays initial a → Overlays initial b) : Keeps initial a b :=
  ⟨indexed.of_snapshots same, same ▸ List.prefix_rfl, overlays⟩

theorem snapshot (indexed : a.SnapshotsIndexed) : Keeps initial a a.snapshot.2 where
  indexed := indexed.snapshot
  snapshots := List.prefix_append _ _
  overlays := fun overlays => overlays.of_layers rfl rfl

theorem accountForWrite (indexed : a.SnapshotsIndexed) (address : Address)
    (write : AccountState → AccountState) : Keeps initial a (a.accountForWrite address write) :=
  of_overlays indexed rfl fun overlays => overlays.accountForWrite address write

end Keeps

/-- Whatever a self-destruction is about to remove was an empty account in the beginning. -/
def RemovesUnknown (initial : StateFork) (evm : Evm) : Prop :=
  evm.opcode = some .selfdestruct → evm.selfAddress ∈ evm.createdInTransaction →
    SameAccount 0 (initial.getAccount evm.selfAddress) {}

theorem Predictable.removesUnknown (predictable : Predictable host sender initial evm) :
    RemovesUnknown initial evm :=
  fun decoded created => (predictable.removes decoded created).2

/-- What a step does by itself. -/
theorem Effect.keeps {op : Opcode} {after : Evm} (effect : Effect evm op after)
    (decoded : evm.opcode = some op) (removes : RemovesUnknown initial evm)
    (indexed : evm.state.SnapshotsIndexed) : Keeps initial evm.state after.state := by
  refine .of_overlays indexed effect.snapshots fun overlays => ?_
  cases effect with
  | plain _ drift => rwa [drift.state]
  | sstore _ _ drift =>
    rw [← drift.state] at overlays
    exact overlays.accountForWrite _ _
  | tstore _ _ drift =>
    rw [← drift.state] at overlays
    exact overlays.of_layers rfl rfl
  | log _ drift =>
    rw [← drift.state] at overlays
    exact overlays
  | @selfdestruct mid word _ _ _ drift =>
    rw [← drift.state] at overlays
    have swept := overlays.sweepBalance mid.selfAddress (accountAddress word)
    simp only [destroyAccount]
    split
    · -- Only a condition on the removal keeps it visible among the modified accounts.
      rename_i created
      rw [drift.selfAddress, drift.createdInTransaction] at created
      have empty := removes decoded created
      rw [← drift.selfAddress] at empty
      exact swept.erase empty
    · exact swept

/-- The frame that a step opens starts with a snapshot, and with the maps copied. -/
theorem Opened.keeps {child : Evm} (opened : Opened host evm child)
    (indexed : evm.state.SnapshotsIndexed) :
    Keeps initial evm.state (syncLegacyStateIntoFork child).state := by
  have copied : ∀ child : Evm, child.state.SnapshotsIndexed →
      Keeps initial child.state (syncLegacyStateIntoFork child).state := fun child indexed =>
    .of_overlays indexed (syncLegacyStateIntoFork_snapshots child) .syncLegacyStateIntoFork
  cases opened with
  | @call _ delegate setup mid opening =>
    rw [← opening.drift.state] at indexed ⊢
    have start : Keeps initial mid.state (calledFrame mid delegate setup).state :=
      .snapshot indexed
    exact start.trans (copied _ start.indexed)
  | @create value salt initCode mid opening =>
    rw [← opening.drift.state] at indexed ⊢
    -- The value is moved by two writes on top of the snapshot.
    have start : Keeps initial mid.state mid.state.snapshot.2 := .snapshot indexed
    have funded : Keeps initial mid.state.snapshot.2
        (createdFrame host mid value salt initCode).state :=
      .of_overlays start.indexed rfl fun overlays =>
        (overlays.accountForWrite _ _).accountForWrite _ _
    have funded := start.trans funded
    exact funded.trans (copied _ funded.indexed)

/-- A step goes on from its own fork, or from that of a frame that succeeded. -/
theorem StepsTo.keeps
    {nested : Evm → History Evm ExecutionResult → ExecutionResult → Evm → Prop}
    {kept : History Evm ExecutionResult} {result : ExecutionResult} {after : Evm}
    (below : ∀ {child history outcome last}, Opened host evm child →
      nested child history outcome last → Keeps initial evm.state last.state)
    (stepped : StepsTo host nested evm kept result after) (removes : RemovesUnknown initial evm)
    (indexed : evm.state.SnapshotsIndexed) : Keeps initial evm.state after.state := by
  cases stepped with
  | stopped drift _ =>
    rw [drift.state]
    exact .refl indexed
  | done decoded effect _ => exact effect.keeps decoded removes indexed
  | @called _ delegate setup mid history outcome last _ _ opening ran quiet =>
    rw [quiet.state]
    cases succeeded : outcome.isSuccess with
    | true =>
      rw [afterCall_of_success succeeded]
      have ended := below (.call opening) ran
      exact ended
    | false =>
      have same := opening.drift.state
      -- A failure restores the snapshot that was taken before, which is the fork of the opener.
      rw [← same] at indexed ⊢
      rw [afterCall_of_failure indexed.fresh succeeded]
      exact .refl indexed
  | @created value salt initCode mid history outcome last _ _ opening ran quiet =>
    rw [quiet.state]
    cases succeeded : createSucceeds host mid value salt initCode outcome last with
    | true =>
      obtain ⟨code, state, _⟩ := afterCreate_of_success succeeded
      rw [state]
      have ended := below (.create opening) ran
      -- The deposit of the code is one more write.
      exact ended.trans (.accountForWrite ended.indexed _ _)
    | false =>
      have same := opening.drift.state
      rw [← same] at indexed ⊢
      rw [(afterCreate_of_failure indexed.fresh succeeded).1]
      exact .refl indexed

/-- So a whole run keeps the snapshots it started with, and what it did not modify. -/
theorem keeps_of_trace {fuel : Nat} {start final : Evm} {history : History Evm ExecutionResult}
    {result : ExecutionResult} (indexed : start.state.SnapshotsIndexed)
    (removes : ∀ visited reached, (machine host).Reaches start visited reached →
      (machine host).running reached = true → RemovesUnknown initial reached)
    (traced : (machine host).trace fuel start = .value (history, result, final)) :
    Keeps initial start.state final.state := by
  refine Machine.trace_relates
    (fun _ before after => before.state.SnapshotsIndexed →
      Keeps initial before.state after.state)
    (RemovesUnknown initial) ?_ ?_ ?_ fuel removes traced indexed
  · exact fun _ indexed => .refl indexed
  · exact fun first second indexed => (first indexed).trans (second (first indexed).indexed)
  · intro state kept result after running removes resolved indexed
    refine (stepsTo_of_resolves running resolved).keeps ?_ removes indexed
    rintro child history outcome _ opened ⟨stop, _, keeps, rfl⟩
    -- Between the opening and the end of the frame below stands its whole run.
    have opens : Keeps initial state.state (syncLegacyStateIntoFork child).state :=
      opened.keeps indexed
    have ended := opens.trans (keeps opens.indexed)
    rw [machine_closing, syncForkIntoLegacyState_state]
    exact ended

end Keeps

section Starts

variable {state : StateFork} {tx : SignedTransaction} {target : Address}

/-- The state in which the run of a transaction starts, if its nonce can be bumped. -/
def chargedState (state : StateFork) (tx : SignedTransaction) : StateFork :=
  chargeSender state tx (tx.nonce + 1)

/-- The simulation that belongs to a transaction. -/
def simulatedVm (state : StateFork) (tx : SignedTransaction) (target : Address) : Evm :=
  simulationVm state tx.sender target tx.value tx.data tx.gasLimit

/-- A transaction without a fee is charged its nonce only. -/
theorem bumped_chargedState (free : tx.maxFeePerGas = 0)
    (nonce : (state.getAccount tx.sender).nonce = tx.nonce) :
    Bumped tx.sender (chargedState state tx) state := by
  -- The most it can cost is nothing.
  have cost : state.getBalance tx.sender - tx.maxGasCost = state.getBalance tx.sender := by
    simp [SignedTransaction.maxGasCost, free]
  refine ⟨fun account => ⟨?_, ?_, ?_, fun key => ?_⟩, fun _ _ => rfl⟩
  · show (chargedState state tx).nonceOf account = state.nonceOf account + _
    unfold chargedState chargeSender
    rw [StateFork.nonceOf_setNonce, StateFork.nonceOf_setBalance]
    split
    · rename_i own
      rw [own]
      exact congrArg (· + 1) nonce.symm
    · rfl
  · show (chargedState state tx).getBalance account = state.getBalance account
    unfold chargedState chargeSender
    rw [StateFork.getBalance_setNonce, StateFork.getBalance_setBalance, cost]
    split
    · rename_i own
      rw [own]
    · rfl
  · show (chargedState state tx).getCode account = state.getCode account
    unfold chargedState chargeSender
    rw [StateFork.getCode_setNonce, StateFork.getCode_setBalance]
  · show (chargedState state tx).getStorage account key = state.getStorage account key
    unfold chargedState chargeSender
    rw [StateFork.getStorage_setNonce, StateFork.getStorage_setBalance]

/-- A simulation that moves nothing starts from what it was given. -/
theorem sameView_simulatedVm (unmoved : tx.value = 0 ∨ tx.sender = target) :
    state.SameView (simulatedVm state tx target).state := by
  -- First the value is taken, then it is given, and both are writes of balances.
  let debited := state.snapshot.2.setBalance tx.sender (state.getBalance tx.sender - tx.value)
  have fork : (simulatedVm state tx target).state =
    debited.setBalance target (debited.getBalance target + tx.value) := rfl
  have debits : ∀ account, debited.getBalance account =
      if account = tx.sender then state.getBalance tx.sender - tx.value
      else state.getBalance account :=
    fun account => StateFork.getBalance_setBalance _ _ account _
  rw [fork]
  refine ⟨fun account => ?_, fun account => ?_, fun account => ?_, fun account key => ?_,
    fun _ _ => rfl⟩
  · show (debited.setBalance target _).nonceOf account = state.nonceOf account
    rw [StateFork.nonceOf_setBalance, StateFork.nonceOf_setBalance]
    rfl
  · -- Either nothing is moved, or it comes back to where it was taken from.
    rw [StateFork.getBalance_setBalance, debits, debits]
    rcases unmoved with nothing | own
    · rw [nothing]
      split <;> split <;> simp_all
    · -- The caller is the target, and gets back what it has just paid.
      subst own
      split
      · rename_i here
        rw [if_pos rfl, BitVec.sub_add_cancel, here]
      · rfl
  · rw [StateFork.getCode_setBalance, StateFork.getCode_setBalance]
    rfl
  · rw [StateFork.getStorage_setBalance, StateFork.getStorage_setBalance]
    rfl

/-- The two frames start in step. -/
theorem inStep_start (known : tx.to_ = some target) (free : tx.maxFeePerGas = 0)
    (nonce : (state.getAccount tx.sender).nonce = tx.nonce)
    (unmoved : tx.value = 0 ∨ tx.sender = target) (indexed : state.SnapshotsIndexed) :
    InStep tx.sender (syncLegacyStateIntoFork (transactionVm (chargedState state tx) tx))
      (syncLegacyStateIntoFork (simulatedVm state tx target)) := by
  -- A free transaction has charged nothing, so that the two forks read alike but for the nonce.
  have bumped := bumped_chargedState free nonce
  have code : (chargedState state tx).getCode target = state.getCode target :=
    bumped.sameReads.code target
  constructor
  · show transactionVm (chargedState state tx) tx = _
    unfold transactionVm
    rw [known]
    simp only [Option.map_some, Option.getD_some, code]
    rfl
  · exact ⟨bumped.of_sameView (.refl _) (sameView_simulatedVm unmoved),
      indexed.of_snapshots rfl, indexed.snapshot.of_snapshots rfl⟩

end Starts

section Ends

variable {host : Host} {state : StateFork} {tx : SignedTransaction} {target : Address}

/-- The state with a diff laid over it, account by account. -/
def overlay (state : StateFork) (diff : HashMap Address AccountState) (account : Address) :
    AccountState := (diff.lookup account).getD (state.getAccount account)

/--
A mined transaction came to what its simulation came to.

Slots are compared as they are read, so one that holds zero counts as absent.
-/
structure Agrees (state : StateFork) (tx : SignedTransaction)
    (mined : Except ExecutionError TxExecutionReceipt × StateFork) (simulated : SimulationResult) :
    Prop where
  receipt : ∃ receipt, mined.1 = .ok receipt ∧
    receipt.status = (if simulated.success then 1 else 0) ∧
    receipt.gasUsed = simulated.gasUsed ∧ receipt.logs = simulated.logs
  account : ∀ account, SameAccount (if account = tx.sender then 1 else 0)
    (mined.2.getAccount account) (overlay state simulated.stateDiff account)

/-- A fork laid over the state shows in its diff. -/
theorem Overlays.overlay {fork : StateFork} (overlays : Overlays state fork) (account : Address) :
    SameAccount 0 (fork.getAccount account) (overlay state fork.dirtyState account) := by
  unfold MiniEvm.overlay
  -- The diff lists the modified accounts, and the others are those of the state.
  cases found : fork.dirtyState.lookup account with
  | none => exact overlays account found
  | some modified =>
    have same : fork.getAccount account = modified := by
      unfold StateFork.getAccount
      rw [found]
    rw [same]
    exact ⟨rfl, rfl, rfl, fun _ => rfl⟩

/-- Two agreements make one, and what either of them adds to the nonce adds up. -/
theorem SameAccount.trans {one other : Nat} {a b c : AccountState} (first : SameAccount one a b)
    (second : SameAccount other b c) : SameAccount (one + other) a c where
  nonce := by
    rw [first.nonce, second.nonce]
    omega
  balance := first.balance.trans second.balance
  code := first.code.trans second.code
  storage := fun key => (first.storage key).trans (second.storage key)

/-- A refund without a fee changes nothing. -/
theorem sameAccount_settledState (free : tx.maxFeePerGas = 0) (charged : StateFork)
    (result : ExecutionResult) (vm : Evm) (account : Address) :
    SameAccount 0 ((settledState charged tx result vm).getAccount account)
      ((if result.isSuccess then vm.state else charged).getAccount account) := by
  generalize kept : (if result.isSuccess then vm.state else charged) = left
  -- The balance is written over itself.
  have settled : settledState charged tx result vm =
      left.setBalance tx.sender (left.getBalance tx.sender) := by
    simp [settledState, kept, free]
  have same : left.SameView (left.setBalance tx.sender (left.getBalance tx.sender)) :=
    .accountForWrite _ _ rfl rfl rfl fun _ => rfl
  rw [settled]
  exact ⟨same.nonce account, same.balance account, same.code account, same.storage account⟩

/-- A revert finds the snapshot of this position among later ones. -/
theorem dirtyState_revertToSnapshot {before after : StateFork} (indexed : after.SnapshotsIndexed)
    (kept : before.snapshot.2.snapshots <+: after.snapshots) :
    (after.revertToSnapshot before.snapshots.length).dirtyState = before.dirtyState := by
  obtain ⟨later, kept⟩ := kept
  rw [indexed.revertToSnapshot, ← kept]
  simp [StateFork.snapshot]

/-- What a simulation reports once its frame has ended. -/
def predictionOf (state : StateFork) (gasLimit : Nat) (result : ExecutionResult) (vm : Evm) :
    SimulationResult where
  success := result.isSuccess
  gasUsed := gasLimit - vm.gasLeft
  returnData := match result with
    | .return_ data => data
    | .revert data => data
    | _ => vm.returnData
  stateDiff := (if result.isSuccess then vm.state
    else vm.state.revertToSnapshot state.snapshots.length).dirtyState
  logs := vm.logs

/-- A simulation that its caller can pay for runs its frame and reports. -/
theorem simulateTx_of_funded {fuel : Nat} {caller target : Address} {value : Word} {input : Bytes}
    {gasLimit : Nat} (funded : value ≤ state.getBalance caller) :
    simulateTx host fuel state caller target value input gasLimit = (do
      let (result, vm) ← run host fuel (simulationVm state caller target value input gasLimit)
      return predictionOf state gasLimit result vm) := by
  simp only [simulateTx, if_neg (BitVec.not_lt.mpr funded)]
  rfl

/--
The transactions whose simulation foresees what mining does.

Value is not moved by mining, a nonce at the end of its range cannot be bumped, and a simulation
that fails still reports the logs of its frame.
-/
structure Foreseen (host : Host) (state : StateFork) (tx : SignedTransaction) (target : Address) :
    Prop where
  unmoved : tx.value = 0 ∨ tx.sender = target
  countable : tx.nonce < u64Max
  mined : ∀ visited reached, (machine host).Reaches
    (syncLegacyStateIntoFork (transactionVm (chargedState state tx) tx)) visited reached →
      (machine host).running reached = true → Predictable host tx.sender state reached
  simulated : ∀ visited reached, (machine host).Reaches
    (syncLegacyStateIntoFork (simulatedVm state tx target)) visited reached →
      (machine host).running reached = true → Predictable host tx.sender state reached
  silent : ∀ fuel result vm, run host fuel (transactionVm (chargedState state tx) tx) =
    .value (result, vm) → result.isSuccess = false → vm.logs = []

variable {fuel : Nat} {result : ExecutionResult} {last last' : Evm}
  {history history' : History Evm ExecutionResult}

/-- What an entry point makes of the frame in which its loop ended. -/
def endedVm (host : Host) (last : Evm) : Evm :=
  { syncForkIntoLegacyState host last with state := last.state.clearTransientStorage }

/-- A run is its loop between the two copies. -/
theorem run_eq_trace (host : Host) (fuel : Nat) (evm : Evm) :
    run host fuel evm = (do
      let ended ← (machine host).trace fuel (syncLegacyStateIntoFork evm)
      return (ended.2.1, endedVm host ended.2.2)) := by
  -- The copies around the loop neither fail nor take fuel.
  cases traced : (machine host).trace fuel (syncLegacyStateIntoFork evm) with
  | outOfFuel => exact run_eq_outOfFuel.mpr traced
  | fault cause => exact run_eq_fault.mpr traced
  | value ended => exact run_of_trace traced

/-- Ends in step make a receipt and a prediction that agree. -/
theorem agrees_of_ends (free : tx.maxFeePerGas = 0)
    (nonce : (state.getAccount tx.sender).nonce = tx.nonce) (indexed : state.SnapshotsIndexed)
    (foreseen : Foreseen host state tx target)
    (traced : (machine host).trace fuel
      (syncLegacyStateIntoFork (transactionVm (chargedState state tx) tx)) =
        .value (history, result, last))
    (traced' : (machine host).trace fuel (syncLegacyStateIntoFork (simulatedVm state tx target)) =
      .value (history', result, last'))
    (inStep : InStep tx.sender last last') :
    Agrees state tx (.ok (receiptOf tx result (endedVm host last)),
        settledState (chargedState state tx) tx result (endedVm host last))
      (predictionOf state tx.gasLimit result (endedVm host last')) := by
  -- The two ends differ in the fork alone, and the closing copies leave gas and logs as they are.
  have gas : (endedVm host last).gasLeft = (endedVm host last').gasLeft := by
    simp only [endedVm, syncForkIntoLegacyState_gasLeft, inStep.gasLeft]
  have logs : (endedVm host last).logs = (endedVm host last').logs := by
    simp only [endedVm, syncForkIntoLegacyState_logs, inStep.logs]
  have start : (simulatedVm state tx target).state.SnapshotsIndexed :=
    indexed.snapshot.of_snapshots rfl
  have keeps := keeps_of_trace (start.of_snapshots rfl)
    (fun _ _ reaches running => (foreseen.simulated _ _ reaches running).removesUnknown) traced'
  constructor
  · refine ⟨_, rfl, rfl, ?_, ?_⟩
    · show tx.gasLimit - _ = tx.gasLimit - _
      rw [gas]
    · show (if result.isSuccess then (endedVm host last).logs else []) = (endedVm host last').logs
      split
      · exact logs
      · rename_i failed
        have ran := run_of_trace traced
        rw [← logs]
        exact (foreseen.silent fuel result _ ran (by simpa using failed)).symm
  · intro account
    have settled := sameAccount_settledState free (chargedState state tx) result
      (endedVm host last) account
    -- The fork that mining goes on from, and the one whose modified accounts are reported.
    have laid : SameAccount (if account = tx.sender then 1 else 0)
        ((if result.isSuccess then (endedVm host last).state
          else chargedState state tx).getAccount account)
        (overlay state (predictionOf state tx.gasLimit result (endedVm host last')).stateDiff
          account) := by
      cases succeeded : result.isSuccess with
      | true =>
        simp only [predictionOf, succeeded, if_true]
        -- After a success both go on from the fork in which the run ended.
        have bumped := inStep.backed.bumped.account account
        have overlays : Overlays state (simulatedVm state tx target).state := by
          have start : Overlays state state.snapshot.2 := (Overlays.refl state).of_layers rfl rfl
          exact (start.accountForWrite _ _).accountForWrite _ _
        exact bumped.trans ((keeps.overlays overlays).overlay account)
      | false =>
        simp only [predictionOf, succeeded, Bool.false_eq_true, if_false]
        -- After a failure both go back to the fork in which it started.
        have bumped := (bumped_chargedState free nonce).account account
        have reverted : ((endedVm host last').state.revertToSnapshot
            state.snapshots.length).dirtyState = state.dirtyState :=
          dirtyState_revertToSnapshot (keeps.indexed.of_snapshots rfl) keeps.snapshots
        rw [reverted]
        exact bumped.trans ((Overlays.refl state).overlay account)
    have whole := settled.trans laid
    rwa [Nat.zero_add] at whole

/--
When mining agrees with simulation.

A mined call and its simulation come to the same status, gas and logs, and to the same accounts but
for one nonce, or abort for the same reason, if the simulation can foresee the call.
-/
theorem mining_agrees_with_simulation (host : Host) (state : StateFork) (tx : SignedTransaction)
    (target : Address) (known : tx.to_ = some target)
    (nonce : (state.getAccount tx.sender).nonce = tx.nonce) (free : tx.maxFeePerGas = 0)
    (funded : tx.value ≤ state.getBalance tx.sender) (indexed : state.SnapshotsIndexed)
    (foreseen : Foreseen host state tx target) :
    (∀ fuel, (applySignedTransaction host fuel state tx).Both (Agrees state tx)
      (simulateTx host fuel state tx.sender target tx.value tx.data tx.gasLimit)) ∧
    ∃ fuel, applySignedTransaction host fuel state tx ≠ .outOfFuel := by
  -- Without a fee and with the value covered, only the nonce could have turned it down.
  have accepted : rejection state tx = none := by
    have cost : tx.value + tx.maxGasCost = tx.value := by
      simp [SignedTransaction.maxGasCost, free]
    simp only [rejection, nonce, ne_eq, not_true_eq_false, if_false, cost,
      if_neg (BitVec.not_lt.mpr funded)]
  have bumps : bumpNonce host tx.nonce = .value (tx.nonce + 1) :=
    if_pos (Nat.succ_le_of_lt foreseen.countable)
  have start := inStep_start known free nonce foreseen.unmoved indexed
  have applied : ∀ fuel, applySignedTransaction host fuel state tx = (do
      let (result, vm) ← run host fuel (transactionVm (chargedState state tx) tx)
      return (.ok (receiptOf tx result vm),
        settledState (chargedState state tx) tx result vm)) := by
    intro fuel
    rw [applySignedTransaction_of_accepted accepted, bumps]
    rfl
  constructor
  · intro fuel
    rw [applied, simulateTx_of_funded funded]
    have ends : (run host fuel (transactionVm (chargedState state tx) tx)).Both
        (fun one other => Agrees state tx (.ok (receiptOf tx one.1 one.2),
            settledState (chargedState state tx) tx one.1 one.2)
          (predictionOf state tx.gasLimit other.1 other.2))
        (run host fuel (simulatedVm state tx target)) := by
      rw [run_eq_trace, run_eq_trace]
      -- The two runs stay in step, so they end together.
      refine (both_trace start foreseen.mined foreseen.simulated fuel).bind ?_
      rintro ⟨history, result, last⟩ ⟨history', _, last'⟩ traced traced' ⟨rfl, inStep⟩
      exact agrees_of_ends free nonce indexed foreseen traced traced' inStep
    exact ends.bind fun _ _ agrees => agrees
  · obtain ⟨fuel, _, finished⟩ := run_finishes host (transactionVm (chargedState state tx) tx)
    refine ⟨fuel, ?_⟩
    rw [applied]
    cases ran : run host fuel (transactionVm (chargedState state tx) tx) with
    | outOfFuel => exact absurd ran finished
    | _ => simp

end Ends

section Transfers

/-- A caller with some ether, and an account whose code stores a value. -/
def storing : StateFork where
  baseState := ((∅ : HashMap Address AccountState).insert 0x02 { balance := 100 }).insert 0x01
    { code := [0x60, 7, 0x60, 3, 0x55] }

/-- A call of that account, without a fee. -/
def storingTx (value : Word) : SignedTransaction where
  hash := 1
  txType := .legacy
  chainId := none
  nonce := 0
  gasLimit := 100000
  maxFeePerGas := 0
  maxPriorityFeePerGas := 0
  to_ := some 0x01
  value
  data := []
  sender := 0x02

/-- Whether an account is like one that is not there. -/
def isBlank (account : AccountState) : Bool :=
  account.nonce = 0 && account.balance = 0 && account.code.isEmpty &&
    account.storage.entries.isEmpty

theorem sameAccount_of_isBlank {account : AccountState} (blank : isBlank account = true) :
    SameAccount 0 account {} := by
  obtain ⟨nonce, balance, code, storage⟩ := account
  simp only [isBlank, Bool.and_eq_true, decide_eq_true_eq, List.isEmpty_iff] at blank
  obtain ⟨⟨⟨rfl, rfl⟩, rfl⟩, slots⟩ := blank
  refine ⟨rfl, rfl, rfl, fun key => ?_⟩
  -- A map without entries is the empty one.
  obtain rfl : storage = ∅ := AList.ext slots
  rfl

/-- Whether a step removes nothing but an account that was not there in the beginning. -/
def removesOnlyNew (initial : StateFork) (evm : Evm) : Bool :=
  evm.opcode ≠ some .selfdestruct || evm.selfAddress ∉ evm.createdInTransaction ||
    isBlank (initial.getAccount evm.selfAddress)

theorem removesUnknown_of_check {initial : StateFork} {evm : Evm}
    (checked : removesOnlyNew initial evm = true) : RemovesUnknown initial evm := by
  intro decoded created
  simp only [removesOnlyNew, decoded, created, ne_eq, not_true_eq_false, decide_false,
    Bool.false_or] at checked
  exact sameAccount_of_isBlank checked

/-- Whether a frame is opened with maps that say what the fork says. -/
def opensFaithfully (evm child : Evm) : Bool :=
  child.storage.entries.all (fun entry =>
      child.state.getStorage child.selfAddress entry.1 = entry.2) &&
    child.balances.entries.all (fun entry => child.state.getBalance entry.1 = entry.2) &&
    child.contracts.entries.all (fun entry => child.state.getCode entry.1 = entry.2) &&
    child.nonces.entries.all (fun entry =>
      entry.1 = evm.selfAddress || child.state.nonceOf entry.1 = entry.2) &&
    (!evm.opcode.any Opcode.isCreation ||
      evm.legacyBalance child.selfAddress = evm.state.getBalance child.selfAddress)

/-- What the check finds of an opened frame holds of it. -/
theorem faithful_of_check {evm child : Evm} (checked : opensFaithfully evm child = true) :
    Faithful evm child := by
  simp only [opensFaithfully, Bool.and_eq_true, List.all_eq_true, decide_eq_true_eq,
    Bool.or_eq_true] at checked
  obtain ⟨⟨⟨⟨storage, balances⟩, contracts⟩, nonces⟩, created⟩ := checked
  refine ⟨storage, balances, contracts, ?_, ?_⟩
  · intro entry member other
    exact (nonces entry member).resolve_left other
  · intro op decoded creation
    refine created.resolve_left ?_
    simp [decoded, creation]

/-- Whether mining does from here what a simulation does. -/
def isPredictable (host : Host) (sender : Address) (initial : StateFork) (evm : Evm) : Bool :=
  (match step host evm with
    | .enter child _ _ => opensFaithfully evm child
    | _ => true) &&
  (!evm.opcode.any Opcode.isCreation || (evm.selfAddress ≠ sender &&
    evm.legacyNonce evm.selfAddress = evm.state.nonceOf evm.selfAddress &&
    evm.legacyBalance evm.selfAddress = evm.state.getBalance evm.selfAddress)) &&
  (evm.opcode ≠ some .selfdestruct || evm.selfAddress ≠ sender) && removesOnlyNew initial evm

/-- A state that passes the check is predictable. -/
theorem predictable_of_check {host : Host} {sender : Address} {initial : StateFork} {evm : Evm}
    (checked : isPredictable host sender initial evm = true) :
    Predictable host sender initial evm := by
  simp only [isPredictable, Bool.and_eq_true] at checked
  obtain ⟨⟨⟨opened, creator⟩, own⟩, unknown⟩ := checked
  constructor
  · -- The step opens one frame, and that is the one that was checked.
    intro sofar child opens
    obtain ⟨_, _, begins⟩ := enter_of_enters opens.2
    rw [begins] at opened
    exact faithful_of_check opened
  · intro op decoded creation
    simp only [decoded, Option.any_some, creation, Bool.not_true, Bool.false_or, Bool.and_eq_true,
      decide_eq_true_eq] at creator
    exact ⟨creator.1.1, creator.1.2, creator.2⟩
  · intro decoded created
    refine ⟨?_, removesUnknown_of_check unknown decoded created⟩
    simpa [decoded] using own

/-- A caller with some ether, and an account that stores a value and calls one that stores
another. -/
def storingTwice : StateFork where
  baseState := (((∅ : HashMap Address AccountState).insert 0x02 { balance := 100 }).insert 0x01
    { code := [0x60, 7, 0x60, 3, 0x55,
        0x60, 0, 0x60, 0, 0x60, 0, 0x60, 0, 0x60, 0, 0x60, 0x0b, 0x61, 0xff, 0xff, 0xf1] }).insert
    0x0b { code := [0x60, 9, 0x60, 3, 0x55] }

theorem mining_agrees_with_simulation_storing :
    (storingTwice.getAccount 0x02).nonce = 0 ∧
    Foreseen (tableHost []) storingTwice (storingTx 0) 0x01 ∧
    (∀ fuel, (applySignedTransaction (tableHost []) fuel storingTwice (storingTx 0)).Both
      (Agrees storingTwice (storingTx 0))
      (simulateTx (tableHost []) fuel storingTwice 0x02 0x01 0 [] 100000)) ∧
    ∃ fuel, applySignedTransaction (tableHost []) fuel storingTwice (storingTx 0) ≠
      .outOfFuel := by
  have succeeds : endsWith ((machine (tableHost [])).trace 20 (syncLegacyStateIntoFork
      (transactionVm (chargedState storingTwice (storingTx 0)) (storingTx 0))))
        (fun ended => ended.2.1.isSuccess) = true := by
    decide +kernel
  have mined : (machine (tableHost [])).visitsOnly
      (fun _ => isPredictable (tableHost []) 0x02 storingTwice) 20 [] (syncLegacyStateIntoFork
        (transactionVm (chargedState storingTwice (storingTx 0)) (storingTx 0))) = true := by
    decide +kernel
  have simulated : (machine (tableHost [])).visitsOnly
      (fun _ => isPredictable (tableHost []) 0x02 storingTwice) 20 [] (syncLegacyStateIntoFork
        (simulatedVm storingTwice (storingTx 0) 0x01)) = true := by
    decide +kernel
  obtain ⟨⟨history, result, last⟩, traced, succeeded⟩ := exists_of_endsWith succeeds
  have foreseen : Foreseen (tableHost []) storingTwice (storingTx 0) 0x01 := by
    refine ⟨.inl rfl, by decide, ?_, ?_, ?_⟩
    · exact fun visited reached reaches running =>
        predictable_of_check (Machine.passes_of_visitsOnly mined reaches running)
    · exact fun visited reached reaches running =>
        predictable_of_check (Machine.passes_of_visitsOnly simulated reaches running)
    · -- Whatever the fuel, there is one end that the run comes to.
      intro fuel other vm ran failed
      obtain ⟨past, stop, looped, _⟩ := run_eq_value ran
      obtain ⟨_, rfl, _⟩ := Machine.Runs.unique ⟨20, traced⟩ ⟨fuel, looped⟩
      exact absurd (succeeded.symm.trans failed) (by decide)
  exact ⟨rfl, foreseen, mining_agrees_with_simulation (tableHost []) storingTwice (storingTx 0) 0x01
    rfl rfl rfl (by decide) (fun _ _ found => by simp [storingTwice] at found) foreseen⟩

/-- Mining a call with a value leaves the value where it is, and simulating it moves it. -/
theorem mining_moves_no_value :
    ((storingTx 9).to_ = some 0x01 ∧ (storing.getAccount 0x02).nonce = (storingTx 9).nonce ∧
      (storingTx 9).maxFeePerGas = 0 ∧ (storingTx 9).value ≤ storing.getBalance 0x02) ∧
    (∃ receipt after outcome,
      applySignedTransaction (tableHost []) 5 storing (storingTx 9) = .value (.ok receipt, after) ∧
      simulateTx (tableHost []) 5 storing 0x02 0x01 9 [] 100000 = .value outcome ∧
      after.getBalance 0x01 = 0 ∧ (overlay storing outcome.stateDiff 0x01).balance = 9) ∧
    ¬ (applySignedTransaction (tableHost []) 5 storing (storingTx 9)).Both
      (Agrees storing (storingTx 9))
      (simulateTx (tableHost []) 5 storing 0x02 0x01 9 [] 100000) := by
  have mined : endsWith (applySignedTransaction (tableHost []) 5 storing (storingTx 9))
      (fun ended => ended.1.isOk && ended.2.getBalance 0x01 == 0) = true := by
    decide +kernel
  have simulated : endsWith (simulateTx (tableHost []) 5 storing 0x02 0x01 9 [] 100000)
      (fun outcome => (overlay storing outcome.stateDiff 0x01).balance == 9) = true := by
    decide +kernel
  obtain ⟨⟨answer, after⟩, applied, kept⟩ := exists_of_endsWith mined
  obtain ⟨outcome, ended, moved⟩ := exists_of_endsWith simulated
  obtain ⟨fine, still⟩ := Bool.and_eq_true_iff.mp kept
  have unpaid : after.getBalance 0x01 = 0 := by simpa using still
  have moved : (overlay storing outcome.stateDiff 0x01).balance = 9 := by simpa using moved
  refine ⟨⟨rfl, rfl, rfl, by decide⟩, ?_, ?_⟩
  · cases answer with
    | error error => cases fine
    | ok receipt => exact ⟨receipt, after, outcome, applied, ended, unpaid, moved⟩
  · rw [applied, ended]
    -- An agreement would have to give the target one balance.
    intro agrees
    have same : after.getBalance 0x01 = (overlay storing outcome.stateDiff 0x01).balance :=
      (agrees.account 0x01).balance
    rw [unpaid, moved] at same
    exact absurd same (by decide)

end Transfers

end MiniEvm
