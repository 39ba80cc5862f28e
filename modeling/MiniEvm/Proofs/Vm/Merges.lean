import MiniEvm.Proofs.State.Fork
import MiniEvm.Proofs.Vm.Runs

/-! The way into a frame and back: the copy into its fork, and what its opener takes over. -/

namespace MiniEvm

open Frames

section Copies

/--
The rule for the copy into the fork.

What holds of the fork and is kept by every single write of the copy holds afterwards.
-/
theorem syncLegacyStateIntoFork_induction {motive : StateFork → Prop} (evm : Evm)
    (start : motive evm.state)
    (storage : ∀ state, motive state → ∀ entry ∈ evm.storage.entries,
      motive (state.setStorage evm.selfAddress entry.1 entry.2))
    (balances : ∀ state, motive state → ∀ entry ∈ evm.balances.entries,
      motive (state.setBalance entry.1 entry.2))
    (nonces : ∀ state, motive state → ∀ entry ∈ evm.nonces.entries,
      motive (state.setNonce entry.1 entry.2))
    (contracts : ∀ state, motive state → ∀ entry ∈ evm.contracts.entries,
      motive (state.setCode entry.1 entry.2)) :
    motive (syncLegacyStateIntoFork evm).state := by
  -- The four maps are written one after the other.
  refine List.foldlRecOn _ _ ?_ contracts
  refine List.foldlRecOn _ _ ?_ nonces
  refine List.foldlRecOn _ _ ?_ balances
  exact List.foldlRecOn _ _ start storage

/-- Writing out a map leaves each key with its own entry, and every other key as it was. -/
theorem read_foldl_write {σ κ ν : Type} [DecidableEq κ] {write : σ → κ → ν → σ}
    {read : σ → κ → ν}
    (reads : ∀ state key value other,
      read (write state key value) other = if other = key then value else read state other)
    (map : HashMap κ ν) (state : σ) (key : κ) :
    read (map.entries.foldl (fun state entry => write state entry.1 entry.2) state) key =
      (map.lookup key).getD (read state key) := by
  obtain ⟨entries, nodup⟩ := map
  simp only [AList.lookup]
  induction entries generalizing state with
  | nil => rfl
  | cons entry rest ih =>
    obtain ⟨fresh, nodup⟩ := List.nodupKeys_cons.mp nodup
    rw [List.foldl_cons, ih _ nodup, reads]
    by_cases same : key = entry.1
    · -- The key comes up once, so nothing behind this entry overwrites it.
      subst same
      rw [List.dlookup_eq_none.mpr fresh, List.dlookup_cons_eq]
      simp
    · rw [List.dlookup_cons_ne _ _ same, if_neg same]

/-- Writing out a map keeps what none of its writes touches. -/
theorem read_foldl_same {σ κ ν α : Type} (read : σ → α) (write : σ → κ → ν → σ)
    (same : ∀ state key value, read (write state key value) = read state) (map : HashMap κ ν)
    (state : σ) :
    read (map.entries.foldl (fun state entry => write state entry.1 entry.2) state) =
      read state := by
  generalize map.entries = entries
  induction entries generalizing state with
  | nil => rfl
  | cons entry rest ih => rw [List.foldl_cons, ih, same]

/-- The copy into the fork takes no snapshot. -/
@[simp] theorem syncLegacyStateIntoFork_snapshots (evm : Evm) :
    (syncLegacyStateIntoFork evm).state.snapshots = evm.state.snapshots :=
  syncLegacyStateIntoFork_induction (motive := fun state => state.snapshots = evm.state.snapshots)
    evm rfl (fun _ same _ _ => same) (fun _ same _ _ => same) (fun _ same _ _ => same)
    (fun _ same _ _ => same)

/-- Nor does it write a transient slot. -/
theorem syncLegacyStateIntoFork_transientStorage (evm : Evm) :
    (syncLegacyStateIntoFork evm).state.transientStorage = evm.state.transientStorage :=
  syncLegacyStateIntoFork_induction
    (motive := fun state => state.transientStorage = evm.state.transientStorage)
    evm rfl (fun _ same _ _ => same) (fun _ same _ _ => same) (fun _ same _ _ => same)
    (fun _ same _ _ => same)

/-- The old storage map agrees with the account that a frame acts as. -/
def StorageAgrees (evm : Evm) : Prop :=
  ∀ entry ∈ evm.storage.entries, evm.state.getStorage evm.selfAddress entry.1 = entry.2

/-- The old balance map agrees with the fork. -/
def BalancesAgree (evm : Evm) : Prop :=
  ∀ entry ∈ evm.balances.entries, evm.state.getBalance entry.1 = entry.2

/-- A copy that agrees with the fork stores nothing. -/
theorem getStorage_syncLegacyStateIntoFork {evm : Evm} (agrees : StorageAgrees evm)
    (account : Address) (key : Word) :
    (syncLegacyStateIntoFork evm).state.getStorage account key =
      evm.state.getStorage account key := by
  -- Along the copy every reader keeps seeing the slots from before it.
  refine syncLegacyStateIntoFork_induction
    (motive := fun state => ∀ account key,
      state.getStorage account key = evm.state.getStorage account key)
    evm ?_ ?_ ?_ ?_ ?_ account key
  · exact fun _ _ => rfl
  · intro state same entry member account key
    rw [StateFork.getStorage_setStorage, same]
    split
    · -- The one slot that is written gets the value it has.
      rename_i hit
      rw [hit.1, hit.2]
      exact (agrees entry member).symm
    · rfl
  · intro state same entry _ account key
    rw [StateFork.getStorage_setBalance, same]
  · intro state same entry _ account key
    rw [StateFork.getStorage_setNonce, same]
  · intro state same entry _ account key
    rw [StateFork.getStorage_setCode, same]

/-- A copy that agrees with the fork moves no balance. -/
theorem getBalance_syncLegacyStateIntoFork {evm : Evm} (agrees : BalancesAgree evm)
    (account : Address) :
    (syncLegacyStateIntoFork evm).state.getBalance account = evm.state.getBalance account := by
  -- The same argument for balances, with the maps of the other three fields out of the way.
  refine syncLegacyStateIntoFork_induction
    (motive := fun state => ∀ account, state.getBalance account = evm.state.getBalance account)
    evm ?_ ?_ ?_ ?_ ?_ account
  · exact fun _ => rfl
  · intro state same entry _ account
    rw [StateFork.getBalance_setStorage, same]
  · intro state same entry member account
    rw [StateFork.getBalance_setBalance, same]
    split
    · rename_i hit
      rw [hit]
      exact (agrees entry member).symm
    · rfl
  · intro state same entry _ account
    rw [StateFork.getBalance_setNonce, same]
  · intro state same entry _ account
    rw [StateFork.getBalance_setCode, same]

/-- After the copy an account has the nonce of the old map, if there is one. -/
theorem nonceOf_syncLegacyStateIntoFork (evm : Evm) (account : Address) :
    (syncLegacyStateIntoFork evm).state.nonceOf account =
      (evm.nonces.lookup account).getD (evm.state.nonceOf account) := by
  simp only [syncLegacyStateIntoFork]
  -- Neither code, written last, nor storage and balances, written first, come with a nonce.
  rw [read_foldl_same (fun state => state.nonceOf account) StateFork.setCode
      fun state key value => StateFork.nonceOf_setCode state key account value,
    read_foldl_write fun state key value other => StateFork.nonceOf_setNonce state key other value,
    read_foldl_same (fun state => state.nonceOf account) StateFork.setBalance
      fun state key value => StateFork.nonceOf_setBalance state key account value,
    read_foldl_same (fun state => state.nonceOf account)
      (fun state key value => state.setStorage evm.selfAddress key value)
      fun state key value => StateFork.nonceOf_setStorage state evm.selfAddress account key value]

/-- After the copy an account has the code of the old map, if there is one. -/
theorem getCode_syncLegacyStateIntoFork (evm : Evm) (account : Address) :
    (syncLegacyStateIntoFork evm).state.getCode account =
      (evm.contracts.lookup account).getD (evm.state.getCode account) := by
  simp only [syncLegacyStateIntoFork]
  -- The old map of contracts is the last one that is written, and the only one with code in it.
  rw [read_foldl_write fun state key value other => StateFork.getCode_setCode state key other value,
    read_foldl_same (fun state => state.getCode account) StateFork.setNonce
      fun state key value => StateFork.getCode_setNonce state key account value,
    read_foldl_same (fun state => state.getCode account) StateFork.setBalance
      fun state key value => StateFork.getCode_setBalance state key account value,
    read_foldl_same (fun state => state.getCode account)
      (fun state key value => state.setStorage evm.selfAddress key value)
      fun state key value => StateFork.getCode_setStorage state evm.selfAddress account key value]

/-- All four old maps agree with the fork. -/
structure CopyAgrees (evm : Evm) : Prop where
  storage : StorageAgrees evm
  balances : BalancesAgree evm
  nonces : ∀ entry ∈ evm.nonces.entries, (evm.state.getAccount entry.1).nonce = entry.2
  contracts : ∀ entry ∈ evm.contracts.entries, evm.state.getCode entry.1 = entry.2

/-- A copy of maps that agree with the fork cannot be seen. -/
theorem sameView_syncLegacyStateIntoFork {evm : Evm} (agrees : CopyAgrees evm) :
    evm.state.SameView (syncLegacyStateIntoFork evm).state := by
  -- Each write puts back what a reader saw before the copy began.
  refine syncLegacyStateIntoFork_induction (motive := evm.state.SameView) evm (.refl _) ?_ ?_ ?_ ?_
  · -- Storing what is stored already changes no slot.
    intro state same entry member
    refine same.trans (.accountForWrite _ _ rfl rfl rfl fun key => ?_)
    by_cases hit : key = entry.1
    · subst hit
      rw [same.storage, agrees.storage entry member]
      simp
    · rw [AList.lookup_insert_ne hit]
      rfl
  · intro state same entry member
    refine same.trans (.accountForWrite _ _ rfl ?_ rfl fun _ => rfl)
    rw [same.balance, agrees.balances entry member]
  · intro state same entry member
    refine same.trans (.accountForWrite _ _ ?_ rfl rfl fun _ => rfl)
    rw [same.nonce, agrees.nonces entry member]
  · intro state same entry member
    refine same.trans (.accountForWrite _ _ rfl rfl ?_ fun _ => rfl)
    rw [same.code, agrees.contracts entry member]

end Copies

section Merges

variable {host : Host} {mid last : Evm} {outcome : ExecutionResult}

/-- A failed call leaves gas and output, and nothing else. -/
theorem afterCall_of_failure (fresh : mid.state.Fresh) (failed : outcome.isSuccess = false) :
    afterCall mid outcome last =
      { mid with
        gasLeft := saturatingAdd mid.gasLeft last.gasLeft
        returnData := outcome.output } := by
  -- The caller's own fork has only gained the snapshot, which the revert takes back.
  have restored : mid.takeSnapshot.2.state.revertToSnapshot mid.takeSnapshot.1 = mid.state :=
    StateFork.revertToSnapshot_of_fresh fresh rfl rfl
  simp only [afterCall, mergeCall, failed, Bool.false_eq_true, if_false, restored]
  rfl

/-- A successful call takes over the callee's fork, its set of accounts and its logs. -/
theorem afterCall_of_success (succeeded : outcome.isSuccess = true) :
    afterCall mid outcome last =
      { mid with
        gasLeft := saturatingAdd mid.gasLeft last.gasLeft
        returnData := outcome.output
        state := last.state
        storage := last.storage
        createdInTransaction := last.createdInTransaction
        logs := mid.logs ++ last.logs } := by
  simp only [afterCall, mergeCall, succeeded, if_true]
  rfl

section Creations

variable {value : Word} {salt : Option Word} {initCode : Bytes}

/-- The fork of a creator while its constructor runs holds the value moved, and a snapshot. -/
theorem createdFrame_state :
    (createdFrame host mid value salt initCode).state =
      (startDeploy host mid value salt initCode).2.state := rfl

/-- A failed creation leaves the fork as it was, and answers zero. -/
theorem afterCreate_of_failure (fresh : mid.state.Fresh)
    (failed : createSucceeds host mid value salt initCode outcome last = false) :
    (afterCreate host mid value salt initCode outcome last).2.state = mid.state ∧
      (afterCreate host mid value salt initCode outcome last).1 = .ok 0 := by
  -- Moving the value wrote two balances on top of the snapshot, which the revert takes back.
  have restored : (startDeploy host mid value salt initCode).2.state.revertToSnapshot
      (startDeploy host mid value salt initCode).1.snapshot = mid.state :=
    StateFork.revertToSnapshot_of_fresh fresh rfl rfl
  simp only [afterCreate]
  rcases mergeDeploy_cases (startDeploy host mid value salt initCode).2
    (startDeploy host mid value salt initCode).1 outcome last with
    ⟨_, abandoned⟩ | ⟨succeeded, _⟩
  · rw [abandoned]
    exact ⟨restored, rfl⟩
  · exact absurd (succeeded.symm.trans failed) (by decide)

/-- A creator whose constructor failed takes over its gas, its marks and its output. -/
theorem afterCreate_abandons
    (failed : createSucceeds host mid value salt initCode outcome last = false) :
    (afterCreate host mid value salt initCode outcome last).2 =
      abandonDeploy (joinDeploy (startDeploy host mid value salt initCode).2 outcome last)
        (startDeploy host mid value salt initCode).1 := by
  simp only [afterCreate]
  -- The merge takes one of two ways, told by whether code was installed.
  rcases mergeDeploy_cases (startDeploy host mid value salt initCode).2
    (startDeploy host mid value salt initCode).1 outcome last with
    ⟨_, abandoned⟩ | ⟨succeeded, _⟩
  · rw [abandoned]
  · exact absurd (succeeded.symm.trans failed) (by decide)

/-- A creator whose constructor succeeded takes over its fork and its maps, and installs the
code. -/
theorem afterCreate_commits
    (succeeded : createSucceeds host mid value salt initCode outcome last = true) :
    ∃ code gasLeft, outcome.runtimeCode = some code ∧
      (afterCreate host mid value salt initCode outcome last).2 =
        commitDeploy { joinDeploy (startDeploy host mid value salt initCode).2 outcome last with
          gasLeft } (createAddress host mid salt initCode) code last := by
  simp only [afterCreate]
  -- The merge takes one of two ways, told by whether code was installed.
  rcases mergeDeploy_cases (startDeploy host mid value salt initCode).2
    (startDeploy host mid value salt initCode).1 outcome last with
    ⟨failed, _⟩ | ⟨_, code, runtime, committed⟩
  · exact absurd (failed.symm.trans succeeded) (by decide)
  · rw [committed]
    exact ⟨code, _, runtime, rfl⟩

/-- A successful creation takes over the constructor's fork and installs the code. -/
theorem afterCreate_of_success
    (succeeded : createSucceeds host mid value salt initCode outcome last = true) :
    ∃ code, (afterCreate host mid value salt initCode outcome last).2.state =
        last.state.setCode (createAddress host mid salt initCode) code ∧
      (afterCreate host mid value salt initCode outcome last).2.createdInTransaction =
        insert (createAddress host mid salt initCode)
          (mid.createdInTransaction ∪ last.createdInTransaction) ∧
      (afterCreate host mid value salt initCode outcome last).1 =
        .ok ((createAddress host mid salt initCode).setWidth 256) := by
  simp only [afterCreate]
  -- The outcome that counts as a success is the one that commits.
  rcases mergeDeploy_cases (startDeploy host mid value salt initCode).2
    (startDeploy host mid value salt initCode).1 outcome last with
    ⟨failed, _⟩ | ⟨_, code, _, committed⟩
  · exact absurd (failed.symm.trans succeeded) (by decide)
  · rw [committed]
    exact ⟨code, rfl, rfl, rfl⟩

end Creations

end Merges

section Snapshots

variable {host : Host} {evm : Evm}

/-- What a step does by itself takes no snapshot. -/
theorem Effect.snapshots {op : Opcode} {after : Evm} (effect : Effect evm op after) :
    after.state.snapshots = evm.state.snapshots := by
  -- Writes go to the modified part, and a removal to the two layers of accounts.
  cases effect with
  | plain _ drift => rw [drift.state]
  | sstore _ _ drift | tstore _ _ drift | log _ drift =>
    have same : _ = evm.state.snapshots := congrArg StateFork.snapshots drift.state
    exact same
  | @selfdestruct mid word _ _ _ drift =>
    rw [← drift.state]
    simp only [destroyAccount, sweepBalance]
    split <;> split <;> rfl

/-- A step keeps snapshots at their positions, as soon as the frame below it does. -/
theorem StepsTo.indexed
    {nested : Evm → History Evm ExecutionResult → ExecutionResult → Evm → Prop}
    {kept : History Evm ExecutionResult} {result : ExecutionResult} {after : Evm}
    (below : ∀ {child history outcome last}, nested child history outcome last →
      child.state.SnapshotsIndexed → last.state.SnapshotsIndexed)
    (stepped : StepsTo host nested evm kept result after)
    (indexed : evm.state.SnapshotsIndexed) : after.state.SnapshotsIndexed := by
  cases stepped with
  | stopped drift _ => exact indexed.of_snapshots (by rw [drift.state])
  | done _ effect _ => exact indexed.of_snapshots effect.snapshots
  | @called _ delegate setup mid history outcome last _ _ opening ran quiet =>
    rw [← opening.drift.state] at indexed
    rw [quiet.state]
    -- The caller goes on with the callee's fork, or with its own as it was.
    cases succeeded : outcome.isSuccess with
    | true =>
      rw [afterCall_of_success succeeded]
      have ended : last.state.SnapshotsIndexed := below ran (by exact indexed.snapshot)
      exact ended
    | false =>
      rw [afterCall_of_failure indexed.fresh succeeded]
      exact indexed
  | @created value salt initCode mid history outcome last _ _ opening ran quiet =>
    rw [← opening.drift.state] at indexed
    rw [quiet.state]
    -- A creator does the same, with the code installed on top.
    cases succeeded : createSucceeds host mid value salt initCode outcome last with
    | true =>
      obtain ⟨code, state, _⟩ := afterCreate_of_success succeeded
      rw [state]
      have ended : last.state.SnapshotsIndexed :=
        below ran (indexed.snapshot.of_snapshots (by rfl))
      exact ended.of_snapshots rfl
    | false =>
      rw [(afterCreate_of_failure indexed.fresh succeeded).1]
      exact indexed

/-- The frame a step opens starts with its snapshots at their positions. -/
theorem Opened.indexed {child : Evm} (opened : Opened host evm child)
    (indexed : evm.state.SnapshotsIndexed) :
    (syncLegacyStateIntoFork child).state.SnapshotsIndexed := by
  -- The snapshot of the opener is the last one, at its position.
  cases opened with
  | call opening =>
    rw [← opening.drift.state] at indexed
    exact indexed.snapshot.of_snapshots (syncLegacyStateIntoFork_snapshots _)
  | create opening =>
    rw [← opening.drift.state] at indexed
    exact indexed.snapshot.of_snapshots (syncLegacyStateIntoFork_snapshots _)

/-- A step keeps snapshots at their positions, together with the frames below it. -/
theorem indexed_of_resolves {kept : History Evm ExecutionResult} {result : ExecutionResult}
    {after : Evm} (running : (machine host).running evm = true)
    (resolved : (step host evm).Resolves .halt ((machine host).Within fun _ before after =>
      before.state.SnapshotsIndexed → after.state.SnapshotsIndexed) kept result after) :
    evm.state.SnapshotsIndexed → after.state.SnapshotsIndexed := by
  refine (stepsTo_of_resolves running resolved).indexed ?_
  -- The copies around the frame below take no snapshots either.
  rintro child history outcome _ ⟨stop, _, keeps, rfl⟩ indexed
  rw [machine_closing, syncForkIntoLegacyState_state]
  exact keeps (indexed.of_snapshots (syncLegacyStateIntoFork_snapshots child))

/-- Every visited state has its snapshots at their positions, if the first one has. -/
theorem indexed_of_reaches {start : Evm} {history : History Evm ExecutionResult}
    (indexed : start.state.SnapshotsIndexed)
    (reaches : (machine host).Reaches start history evm) : evm.state.SnapshotsIndexed := by
  refine Machine.reaches_relates
    (fun _ before after => before.state.SnapshotsIndexed → after.state.SnapshotsIndexed)
    (fun _ => True) ?_ ?_ ?_ (fun _ _ _ _ => trivial) ?_ reaches indexed
  · exact fun _ indexed => indexed
  · exact fun first second indexed => second (first indexed)
  · exact fun running _ resolved => indexed_of_resolves running resolved
  · -- A frame is entered with one snapshot more, at its position.
    intro state kept child running _ enters
    exact (opened_of_enters enters).2.indexed

/-- So does the state in which a loop ends. -/
theorem indexed_of_trace {fuel : Nat} {start final : Evm} {history : History Evm ExecutionResult}
    {result : ExecutionResult} (indexed : start.state.SnapshotsIndexed)
    (traced : (machine host).trace fuel start = .value (history, result, final)) :
    final.state.SnapshotsIndexed := by
  refine Machine.trace_relates
    (fun _ before after => before.state.SnapshotsIndexed → after.state.SnapshotsIndexed)
    (fun _ => True) ?_ ?_ ?_ fuel (fun _ _ _ _ => trivial) traced indexed
  · exact fun _ indexed => indexed
  · exact fun first second indexed => second (first indexed)
  · exact fun running _ resolved => indexed_of_resolves running resolved

end Snapshots

end MiniEvm
