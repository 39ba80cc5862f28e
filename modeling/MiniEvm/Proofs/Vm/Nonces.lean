import MiniEvm.Proofs.Vm.Removals
import MiniEvm.Proofs.Vm.Transactions

/-! Nonces along a run: what creations add to them, and when the old nonce map takes that back. -/

namespace MiniEvm

open Frames

/-- Whether the next step opens the frame of a constructor. -/
def opensConstructor (host : Host) (evm : Evm) : Bool :=
  match evm.opcode, step host evm with
  | some op, .enter _ _ _ => op.isCreation
  | _, _ => false

/-- How many of the completed steps opened a constructor on behalf of an account. -/
def creations (host : Host) (account : Address) (history : History Evm ExecutionResult) : Nat :=
  history.countP fun done =>
    done.before.selfAddress = account && opensConstructor host done.before

/-- Every account that was not removed has its nonce raised by the number of its creations. -/
def Counts (host : Host) (history : History Evm ExecutionResult) (before after : Evm) : Prop :=
  ∀ account, removedIn history account = false →
    after.state.nonceOf account = before.state.nonceOf account + creations host account history

/--
A creation goes by nonces that are those of the fork, and comes to a good end.

The old nonce map is written into the fork as a whole, and a failed constructor is reverted together
with the bump.
-/
structure NoncesSound (host : Host) (evm : Evm) : Prop where
  maps : opensConstructor host evm = true →
    ∀ entry ∈ evm.nonces.entries, evm.state.nonceOf entry.1 = entry.2
  creator : opensConstructor host evm = true →
    evm.legacyNonce evm.selfAddress = evm.state.nonceOf evm.selfAddress
  bounded : opensConstructor host evm = true → evm.state.nonceOf evm.selfAddress < u64Max
  succeeds : opensConstructor host evm = true →
    ∀ child survives resume history outcome last, step host evm = .enter child survives resume →
      (machine host).RunsNested child history outcome last → survives outcome last = true

section Counting

variable {host : Host} {evm after : Evm} {account : Address}
  {first second kept : History Evm ExecutionResult} {result : ExecutionResult}

theorem Counts.trans {a b c : Evm} (one : Counts host first a b) (other : Counts host second b c) :
    Counts host (first ++ second) a c := by
  intro account stays
  rw [removedIn_append, Bool.or_eq_false_iff] at stays
  -- Removed in neither part, the account is counted in both.
  have left := one account stays.1
  have right := other account stays.2
  simp only [creations, List.countP_append] at left right ⊢
  omega

/-- Adding one step to a history adds one creation or none. -/
theorem creations_snoc (done : Transition Evm ExecutionResult) :
    creations host account (kept ++ [done]) = creations host account kept +
      if done.before.selfAddress = account ∧ opensConstructor host done.before = true then 1
      else 0 := by
  simp [creations, List.countP_append, List.countP_singleton]

/-- A step that opens no frame opens no constructor. -/
theorem opensConstructor_of_closed
    (closed : ∀ child survives resume, step host evm ≠ .enter child survives resume) :
    opensConstructor host evm = false := by
  unfold opensConstructor
  split
  · rename_i begins
    exact absurd begins (closed _ _ _)
  · rfl

/-- Which frame a step opens tells whether it is a constructor. -/
theorem opensConstructor_of_opcode {op : Opcode} {child : Evm}
    {survives : ExecutionResult → Evm → Bool}
    {resume : ExecutionResult → Evm → Tree Evm ExecutionResult Fault Unit}
    (decoded : evm.opcode = some op) (begins : step host evm = .enter child survives resume) :
    opensConstructor host evm = op.isCreation := by
  simp only [opensConstructor, decoded, begins]

/-- What a step does by itself changes no nonce but that of an account it removes. -/
theorem Effect.nonceOf {op : Opcode} (decoded : evm.opcode = some op) (effect : Effect evm op after)
    (stays : ¬ Removes account ⟨evm, .halt, after⟩) :
    after.state.nonceOf account = evm.state.nonceOf account := by
  cases effect with
  | plain _ drift => rw [drift.state]
  | sstore _ _ drift =>
    rw [← drift.state]
    exact StateFork.nonceOf_setStorage _ _ _ _ _
  | tstore _ _ drift =>
    rw [← drift.state]
    rfl
  | log _ drift =>
    rw [← drift.state]
  | @selfdestruct mid word _ _ _ drift =>
    rw [← drift.state]
    -- Sweeping writes balances only.
    have swept : (sweepBalance mid.state mid.selfAddress (accountAddress word)).nonceOf account =
        mid.state.nonceOf account := by
      unfold sweepBalance
      split
      · rfl
      · rw [StateFork.nonceOf_setBalance, StateFork.nonceOf_setBalance]
    simp only [destroyAccount]
    split
    · rename_i created
      rw [drift.createdInTransaction, drift.selfAddress] at created
      -- The removed account is not this one.
      have other : account ≠ mid.selfAddress := by
        rw [drift.selfAddress]
        rintro rfl
        exact stays ⟨decoded, rfl, created, rfl⟩
      rw [← swept]
      show (StateFork.getAccount _ _).nonce = (StateFork.getAccount _ _).nonce
      rw [removeAccount, StateFork.getAccount_erase, if_neg other]
    · exact swept

section Openings

variable {child last : Evm} {survives : ExecutionResult → Evm → Bool} {outcome : ExecutionResult}
  {resume : ExecutionResult → Evm → Tree Evm ExecutionResult Fault Unit}
  {history : History Evm ExecutionResult}

/-- A called frame starts with the nonces of its caller. -/
theorem nonceOf_calledFrame {forceStatic delegate : Bool} {setup : CallSetup} {mid : Evm}
    (opening : CallOpening evm forceStatic delegate setup mid) (account : Address) :
    (syncLegacyStateIntoFork (calledFrame mid delegate setup)).state.nonceOf account =
      evm.state.nonceOf account := by
  -- Its old nonce map is empty.
  rw [nonceOf_syncLegacyStateIntoFork, ← opening.drift.state]
  rfl

/-- A constructor starts with the nonce of its creator raised by one. -/
theorem nonceOf_createdFrame {value : Word} {salt : Option Word} {initCode : Bytes} {mid : Evm}
    (opening : CreateOpening evm value salt mid)
    (maps : ∀ entry ∈ evm.nonces.entries, evm.state.nonceOf entry.1 = entry.2)
    (creator : evm.legacyNonce evm.selfAddress = evm.state.nonceOf evm.selfAddress)
    (bounded : evm.state.nonceOf evm.selfAddress < u64Max) (account : Address) :
    (syncLegacyStateIntoFork (createdFrame host mid value salt initCode)).state.nonceOf account =
      evm.state.nonceOf account + if evm.selfAddress = account then 1 else 0 := by
  have nonces : mid.nonces = evm.nonces := opening.quiet.nonces
  -- The transfer of the value writes balances, so the fork still has the old nonces.
  have funded : (createdFrame host mid value salt initCode).state.nonceOf account =
      evm.state.nonceOf account := by
    rw [← opening.drift.state]
    show ((mid.state.snapshot.2.setBalance _ _).setBalance _ _).nonceOf account = _
    rw [StateFork.nonceOf_setBalance, StateFork.nonceOf_setBalance]
    rfl
  rw [nonceOf_syncLegacyStateIntoFork, funded]
  show ((mid.nonces.insert mid.selfAddress (saturatingAdd (mid.legacyNonce mid.selfAddress) 1)).lookup
    account).getD _ = _
  rw [nonces, opening.drift.selfAddress]
  by_cases own : evm.selfAddress = account
  · -- The bump in the old map is the one that the fork sees.
    subst own
    rw [AList.lookup_insert, if_pos rfl, Option.getD_some, Evm.legacyNonce, nonces]
    show saturatingAdd (evm.legacyNonce evm.selfAddress) 1 = _
    rw [creator, saturatingAdd]
    omega
  · rw [AList.lookup_insert_ne (Ne.symm own), if_neg own]
    cases listed : evm.nonces.lookup account with
    | none => rfl
    | some nonce => exact (maps _ (AList.mem_lookup_iff.mp listed)).symm

/-- One step counts, as soon as the frame below it does. -/
theorem counts_of_resolves (running : (machine host).running evm = true)
    (allowed : evm.state.SnapshotsIndexed ∧ NoncesSound host evm)
    (resolved : (step host evm).Resolves .halt ((machine host).Within (Counts host))
      kept result after) :
    Counts host (kept ++ [⟨evm, result, after⟩]) evm after := by
  obtain ⟨indexed, sound⟩ := allowed
  intro account stays
  rw [removedIn_append, Bool.or_eq_false_iff] at stays
  rw [creations_snoc]
  cases stepEnds_of_resolves running resolved with
  | alone closed ends =>
    -- Nothing is created without a frame.
    rw [opensConstructor_of_closed closed]
    rcases ends with ⟨drift, _⟩ | ⟨op, decoded, effect, rfl⟩
    · rw [drift.state]
      simp [creations]
    · have same : after.state.nonceOf account = evm.state.nonceOf account := by
        apply effect.nonceOf decoded
        intro now
        simp [removedIn, removes_iff.mpr now] at stays
      rw [same]
      simp [creations]
  | resumed begins within resumes =>
    cases resumes with
    | @called forceStatic delegate setup mid _ _ opening quiet =>
      rw [opensConstructor_of_opcode opening.opcode begins]
      have creation : (callOpcode forceStatic delegate).isCreation = false := by
        cases forceStatic <;> cases delegate <;> rfl
      rw [creation, quiet.state]
      obtain ⟨stop, _, counts, rfl⟩ := within
      -- The caller goes on with the callee's fork, or with its own as it was.
      split at stays
      · rename_i succeeded
        -- A call is no creation, so it adds nothing to the count of the callee.
        have inside := counts account stays.1
        rw [machine_opening, nonceOf_calledFrame opening] at inside
        rw [afterCall_of_success succeeded, if_pos succeeded]
        show (syncForkIntoLegacyState host stop).state.nonceOf account = _
        rw [syncForkIntoLegacyState_state, inside]
        simp
      · rename_i failed
        rw [← opening.drift.state] at indexed
        rw [afterCall_of_failure indexed.fresh (by simpa using failed), if_neg failed]
        show mid.state.nonceOf account = _
        rw [opening.drift.state]
        simp [creations]
    | @created value salt initCode mid _ _ opening quiet _ =>
      have creation : opensConstructor host evm = true := by
        rw [opensConstructor_of_opcode opening.opcode begins, createOpcode_isCreation]
      -- The constructor starts one nonce higher, and its end is the one that is kept.
      have succeeded := sound.succeeds creation _ _ _ _ _ _ begins within.runsNested
      obtain ⟨stop, _, counts, rfl⟩ := within
      rw [if_pos succeeded] at stays ⊢
      have inside := counts account stays.1
      rw [machine_opening,
        nonceOf_createdFrame opening (sound.maps creation) (sound.creator creation)
          (sound.bounded creation)] at inside
      obtain ⟨code, state, _⟩ := afterCreate_of_success succeeded
      rw [quiet.state, state, StateFork.nonceOf_setCode]
      show (syncForkIntoLegacyState host stop).state.nonceOf account = _
      rw [syncForkIntoLegacyState_state, inside, creation]
      simp only [and_true]
      omega

end Openings

/-- A whole run counts, if its creations go by the nonces of the fork and succeed. -/
theorem counts_of_trace {fuel : Nat} {start final : Evm} {history : History Evm ExecutionResult}
    (indexed : start.state.SnapshotsIndexed)
    (sound : ∀ visited reached, (machine host).Reaches start visited reached →
      (machine host).running reached = true → NoncesSound host reached)
    (traced : (machine host).trace fuel start = .value (history, result, final)) :
    Counts host history start final := by
  -- A step counts by itself, and counts add up along the run.
  refine Machine.trace_relates (Counts host)
    (fun evm => evm.state.SnapshotsIndexed ∧ NoncesSound host evm)
    ?_ Counts.trans counts_of_resolves fuel ?_ traced
  · intro state account _
    rfl
  · intro visited reached reaches running
    exact ⟨indexed_of_reaches indexed reaches, sound visited reached reaches running⟩

end Counting

section Bounds

variable {host : Host} {evm after : Evm} {account : Address} {bound : Nat}
  {kept : History Evm ExecutionResult} {result : ExecutionResult}

/-- Neither the fork nor the old map has a nonce above the bound for this account. -/
structure NonceAtMost (account : Address) (bound : Nat) (evm : Evm) : Prop where
  fork : evm.state.nonceOf account ≤ bound
  map : ∀ nonce, evm.nonces.lookup account = some nonce → nonce ≤ bound

/-- Reading the fork back finds no higher nonces than the fork has. -/
theorem NonceAtMost.closing (least : NonceAtMost account bound evm) :
    NonceAtMost account bound (syncForkIntoLegacyState host evm) := by
  constructor
  · rw [syncForkIntoLegacyState_state]
    exact least.fork
  · unfold syncForkIntoLegacyState
    -- Every entry that is read back is one of the fork.
    refine List.foldlRecOn (motive := fun state : Evm =>
      ∀ nonce, state.nonces.lookup account = some nonce → nonce ≤ bound) _ _ least.map ?_
    intro state kept entry member nonce found
    simp only [readBackAccount] at found
    by_cases same : account = entry.1
    · subst same
      rw [AList.lookup_insert] at found
      obtain rfl := Option.some.inj found
      -- Every entry is the account as the fork has it.
      have reads : evm.state.nonceOf entry.1 = entry.2.nonce := by
        rw [StateFork.nonceOf, getAccount_of_mem_order member]
      rw [← reads]
      exact least.fork
    · rw [AList.lookup_insert_ne same] at found
      exact kept nonce found

/-- What a frame does by itself raises no nonce of another account. -/
theorem NonceAtMost.of_drift (least : NonceAtMost account bound evm) (drift : Drift evm after)
    (other : account ≠ evm.selfAddress) : NonceAtMost account bound after where
  fork := by
    rw [drift.state]
    exact least.fork
  map := by
    rw [drift.nonces account other]
    exact least.map

theorem NonceAtMost.of_effect {op : Opcode} (least : NonceAtMost account bound evm)
    (decoded : evm.opcode = some op) (effect : Effect evm op after)
    (other : account ≠ evm.selfAddress) : NonceAtMost account bound after where
  fork := by
    rw [effect.nonceOf decoded fun removes => other removes.own.symm]
    exact least.fork
  map := by
    cases effect with
    | plain _ drift => exact (least.of_drift drift other).map
    | sstore _ _ drift | tstore _ _ drift | log _ drift =>
      exact (least.of_drift drift other).map
    | @selfdestruct mid word _ _ _ drift =>
      -- Removing the frame's own account takes no other entry out.
      simp only [destroyAccount]
      split
      · simp only [removeAccount]
        rw [AList.lookup_erase_ne (by rwa [drift.selfAddress])]
        exact (least.of_drift drift other).map
      · exact (least.of_drift drift other).map

theorem NonceAtMost.of_quiet (least : NonceAtMost account bound evm) (quiet : Quiet evm after) :
    NonceAtMost account bound after where
  fork := by
    rw [quiet.state]
    exact least.fork
  map := by
    rw [quiet.nonces]
    exact least.map

section Merges

variable {forceStatic delegate : Bool} {setup : CallSetup} {mid last : Evm} {value : Word}
  {salt : Option Word} {initCode : Bytes} {outcome : ExecutionResult}

/-- The callee starts with an empty nonce map. -/
theorem NonceAtMost.calledFrame (least : NonceAtMost account bound evm)
    (opening : CallOpening evm forceStatic delegate setup mid) :
    NonceAtMost account bound ((machine host).opening (calledFrame mid delegate setup)) where
  fork := by
    -- The copy takes the nonces of the map over, and that map is empty.
    show (syncLegacyStateIntoFork (MiniEvm.calledFrame mid delegate setup)).state.nonceOf account ≤
      bound
    rw [nonceOf_calledFrame opening]
    exact least.fork
  map := by
    intro nonce found
    cases found

/-- Only the fork of a callee is taken over, and not its map. -/
theorem NonceAtMost.afterCall (ready : NonceAtMost account bound mid)
    (indexed : mid.state.SnapshotsIndexed) (ended : last.state.nonceOf account ≤ bound) :
    NonceAtMost account bound (afterCall mid outcome last) where
  fork := by
    cases succeeded : outcome.isSuccess with
    | true =>
      rw [afterCall_of_success succeeded]
      exact ended
    | false =>
      -- The snapshot before the call is put back, with the nonces of then.
      rw [afterCall_of_failure indexed.fresh succeeded]
      exact ready.fork
  map := by
    simp only [MiniEvm.afterCall, mergeCall]
    split <;> exact ready.map

/-- The constructor inherits the map with the bump of the creator, who is somebody else. -/
theorem NonceAtMost.bumped (ready : NonceAtMost account bound mid)
    (own : account ≠ mid.selfAddress) :
    ∀ nonce, (mid.nonces.insert mid.selfAddress
      (saturatingAdd (mid.legacyNonce mid.selfAddress) 1)).lookup account = some nonce →
        nonce ≤ bound := by
  rw [AList.lookup_insert_ne own]
  exact ready.map

theorem NonceAtMost.createdFrame (ready : NonceAtMost account bound mid)
    (own : account ≠ mid.selfAddress) :
    NonceAtMost account bound
      ((machine host).opening (createdFrame host mid value salt initCode)) where
  fork := by
    show (syncLegacyStateIntoFork (MiniEvm.createdFrame host mid value salt initCode)).state.nonceOf
      account ≤ bound
    rw [nonceOf_syncLegacyStateIntoFork]
    cases listed : (MiniEvm.createdFrame host mid value salt initCode).nonces.lookup account with
    | some nonce => exact ready.bumped own nonce listed
    | none =>
      -- Funding the creation moves ether only.
      show ((mid.state.snapshot.2.setBalance _ _).setBalance _ _).nonceOf account ≤ bound
      rw [StateFork.nonceOf_setBalance, StateFork.nonceOf_setBalance]
      exact ready.fork
  map := ready.bumped own

/-- A creation takes over the fork and the map of its constructor, or neither. -/
theorem NonceAtMost.afterCreate (ready : NonceAtMost account bound mid)
    (own : account ≠ mid.selfAddress) (indexed : mid.state.SnapshotsIndexed)
    (ended : NonceAtMost account bound last) :
    NonceAtMost account bound (afterCreate host mid value salt initCode outcome last).2 := by
  cases succeeded : createSucceeds host mid value salt initCode outcome last with
  | true =>
    obtain ⟨code, state, _⟩ := afterCreate_of_success succeeded
    obtain ⟨_, gasLeft, _, commits⟩ := afterCreate_commits succeeded
    constructor
    · rw [state, StateFork.nonceOf_setCode]
      exact ended.fork
    · rw [commits]
      exact ended.map
  -- A failed creation has still raised the nonce of its creator, which is another account.
  | false =>
    constructor
    · rw [(afterCreate_of_failure indexed.fresh succeeded).1]
      exact ready.fork
    · rw [afterCreate_abandons succeeded]
      exact ready.bumped own

end Merges

/-- A step on behalf of another account keeps the bound, as soon as the frame below it does. -/
theorem nonceAtMost_of_resolves (running : (machine host).running evm = true)
    (indexed : evm.state.SnapshotsIndexed) (other : account ≠ evm.selfAddress)
    (resolved : (step host evm).Resolves .halt ((machine host).Within fun _ before after =>
      NonceAtMost account bound before → NonceAtMost account bound after) kept result after)
    (least : NonceAtMost account bound evm) : NonceAtMost account bound after := by
  -- Only a step that opens a frame has more to it than its own effect.
  cases stepEnds_of_resolves running resolved with
  | alone closed ends =>
    rcases ends with ⟨drift, _⟩ | ⟨op, decoded, effect, _⟩
    · exact least.of_drift drift other
    · exact least.of_effect decoded effect other
  | resumed begins within resumes =>
    obtain ⟨stop, _, keeps, rfl⟩ := within
    cases resumes with
    | @called _ delegate setup mid _ _ opening quiet =>
      have ready := least.of_drift opening.drift other
      have ended : NonceAtMost account bound (syncForkIntoLegacyState host stop) :=
        (keeps (least.calledFrame opening)).closing
      rw [← opening.drift.state] at indexed
      exact (ready.afterCall indexed ended.fork).of_quiet quiet
    | @created value salt initCode mid _ _ opening quiet _ =>
      have ready := least.of_drift opening.drift other
      have own : account ≠ mid.selfAddress := by rwa [opening.drift.selfAddress]
      have ended : NonceAtMost account bound (syncForkIntoLegacyState host stop) :=
        (keeps (ready.createdFrame own)).closing
      rw [← opening.drift.state] at indexed
      exact (ready.afterCreate own indexed ended).of_quiet quiet

/-- A run in which no code acts for an account raises no nonce of it. -/
theorem nonceAtMost_of_trace {fuel : Nat} {start final : Evm}
    {history : History Evm ExecutionResult} (indexed : start.state.SnapshotsIndexed)
    (unrun : ∀ visited reached, (machine host).Reaches start visited reached →
      (machine host).running reached = true → account ≠ reached.selfAddress)
    (traced : (machine host).trace fuel start = .value (history, result, final))
    (least : NonceAtMost account bound start) : NonceAtMost account bound final := by
  -- The bound is carried from state to state, so that the run keeps it from its start on.
  refine Machine.trace_relates
    (fun _ before after => NonceAtMost account bound before → NonceAtMost account bound after)
    (fun evm => evm.state.SnapshotsIndexed ∧ account ≠ evm.selfAddress)
    (fun _ least => least) (fun first second least => second (first least)) ?_ fuel ?_ traced least
  · intro state kept result after running allowed resolved
    exact nonceAtMost_of_resolves running allowed.1 allowed.2 resolved
  · intro visited reached reaches running
    exact ⟨indexed_of_reaches indexed reaches, unrun visited reached reaches running⟩

end Bounds

section Transactions

variable {host : Host} {fuel : Nat} {state after : StateFork} {tx : SignedTransaction}

/-- The completed steps of a transaction that were not rolled back, not even at its end. -/
def transactionHistory (host : Host) (fuel : Nat) (state : StateFork) (tx : SignedTransaction) :
    History Evm ExecutionResult :=
  match executedFrame host state tx with
  | none => []
  | some vm =>
    match (machine host).trace fuel (syncLegacyStateIntoFork vm) with
    | .value (history, result, _) => if result.isSuccess then history else []
    | _ => []

/-- Charging a transaction raises the nonce of its sender and of nobody else. -/
theorem nonceOf_chargeSender (state : StateFork) (tx : SignedTransaction) (bumped : Nat)
    (account : Address) :
    (chargeSender state tx bumped).nonceOf account =
      if account = tx.sender then bumped else state.nonceOf account := by
  rw [chargeSender, StateFork.nonceOf_setNonce, StateFork.nonceOf_setBalance]

/-- Below the end of the range the next nonce is the next number. -/
theorem bumpNonce_of_lt {nonce bumped : Nat} (bounded : nonce < u64Max)
    (bumps : bumpNonce host nonce = .value bumped) : bumped = nonce + 1 := by
  unfold bumpNonce at bumps
  rw [if_pos (by omega)] at bumps
  cases bumps
  rfl

/-- The bump never adds more than one. -/
theorem bumpNonce_le {nonce bumped : Nat} (bumps : bumpNonce host nonce = .value bumped) :
    bumped ≤ nonce + 1 := by
  unfold bumpNonce at bumps
  split at bumps
  · cases bumps
    exact Nat.le_refl _
  · split at bumps
    · cases bumps
    · cases bumps
      exact Nat.mod_le _ _

/-- Whether no code acts for this account while a transaction runs. -/
def ActsForOthers (host : Host) (state : StateFork) (tx : SignedTransaction) (account : Address) :
    Prop :=
  ∀ vm, executedFrame host state tx = some vm → ∀ visited reached,
    (machine host).Reaches (syncLegacyStateIntoFork vm) visited reached →
      (machine host).running reached = true → account ≠ reached.selfAddress

/-- The copy that a transaction starts with keeps snapshots at their positions. -/
theorem indexed_of_executed {bumped : Nat} (indexed : state.SnapshotsIndexed) :
    (syncLegacyStateIntoFork
      (transactionVm (chargeSender state tx bumped) tx)).state.SnapshotsIndexed := by
  intro position snapshot found
  rw [syncLegacyStateIntoFork_snapshots] at found
  exact indexed position snapshot found

/-- A transaction keeps snapshots at their positions. -/
theorem indexed_of_applied {answer : Except ExecutionError TxExecutionReceipt}
    (indexed : state.SnapshotsIndexed)
    (applied : applySignedTransaction host fuel state tx = .value (answer, after)) :
    after.SnapshotsIndexed := by
  -- A rejected transaction leaves the state, and a reverted one puts it back.
  rcases applySignedTransaction_cases applied with ⟨error, _, _, rfl⟩ |
    ⟨_, bumped, result, vm, _, ran, _, rfl⟩
  · exact indexed
  · obtain ⟨history, last, traced, rfl⟩ := run_eq_value ran
    simp only [settledState]
    split
    · have ended := indexed_of_trace (indexed_of_executed indexed) traced
      exact ended
    · exact indexed

/-- An account that no code acts for gains one nonce at most, and only as the sender. -/
theorem nonceOf_applied_le {answer : Except ExecutionError TxExecutionReceipt}
    {account : Address} (indexed : state.SnapshotsIndexed)
    (others : ActsForOthers host state tx account)
    (applied : applySignedTransaction host fuel state tx = .value (answer, after)) :
    after.nonceOf account ≤ state.nonceOf account + if account = tx.sender then 1 else 0 := by
  rcases applySignedTransaction_cases applied with ⟨error, _, _, rfl⟩ |
    ⟨accepted, bumped, result, vm, bumps, ran, _, rfl⟩
  · exact Nat.le_add_right _ _
  · have executed : executedFrame host state tx =
        some (transactionVm (chargeSender state tx bumped) tx) := by
      simp only [executedFrame, accepted, bumps]
    -- The charge raises the nonce of the sender by one, and no other.
    have charged : (chargeSender state tx bumped).nonceOf account ≤
        state.nonceOf account + if account = tx.sender then 1 else 0 := by
      rw [nonceOf_chargeSender]
      split
      · rename_i own
        have next := bumpNonce_le bumps
        rw [nonce_of_accepted accepted] at next
        rw [own]
        exact next
      · exact Nat.le_refl _
    obtain ⟨history, last, traced, rfl⟩ := run_eq_value ran
    simp only [settledState]
    rw [StateFork.nonceOf_setBalance]
    split
    · -- The bound that holds of the charged state holds to the end.
      have started : NonceAtMost account
          (state.nonceOf account + if account = tx.sender then 1 else 0)
          (syncLegacyStateIntoFork (transactionVm (chargeSender state tx bumped) tx)) := by
        refine ⟨?_, fun _ found => by cases found⟩
        rw [nonceOf_syncLegacyStateIntoFork]
        exact charged
      exact (nonceAtMost_of_trace (indexed_of_executed indexed) (others _ executed) traced
        started).fork
    · exact charged

/-- An aborting transaction keeps snapshots at their positions. -/
theorem indexed_abortedState (indexed : state.SnapshotsIndexed) :
    (abortedState host state tx).SnapshotsIndexed := by
  rcases abortedState_cases host state tx with ⟨_, _, same⟩ | ⟨_, _, same⟩ <;>
    · rw [same]
      exact indexed.of_snapshots rfl

/-- An aborting transaction raises the nonce of its sender by one at most, and no other. -/
theorem nonceOf_abortedState_le (host : Host) (state : StateFork) (tx : SignedTransaction)
    (account : Address) : (abortedState host state tx).nonceOf account ≤
      state.nonceOf account + if account = tx.sender then 1 else 0 := by
  -- The abort comes after the nonce was raised, or in raising it.
  rcases abortedState_cases host state tx with ⟨bumped, bumps, same⟩ | ⟨_, _, same⟩
  · rw [same, nonceOf_chargeSender]
    split
    · rename_i own
      rw [own]
      exact bumpNonce_le bumps
    · exact Nat.le_refl _
  · rw [same, StateFork.nonceOf_setBalance]
    exact Nat.le_add_right _ _

/--
Nonces never go back, and every creation that lasts raises one of them by exactly one.

This holds of every transaction whose creations go by the nonces of the fork and succeed.
-/
theorem nonces_count_creations (host : Host) (fuel : Nat) (state after : StateFork)
    (tx : SignedTransaction) (answer : Except ExecutionError TxExecutionReceipt)
    (account : Address) (indexed : state.SnapshotsIndexed)
    (bounded : (state.getAccount tx.sender).nonce < u64Max)
    (sound : ∀ vm, executedFrame host state tx = some vm → ∀ visited reached,
      (machine host).Reaches (syncLegacyStateIntoFork vm) visited reached →
        (machine host).running reached = true → NoncesSound host reached)
    (applied : applySignedTransaction host fuel state tx = .value (answer, after))
    (stays : removedIn (transactionHistory host fuel state tx) account = false) :
    (after.getAccount account).nonce =
      (state.getAccount account).nonce +
        (if account = tx.sender ∧ rejection state tx = none then 1 else 0) +
        creations host account (transactionHistory host fuel state tx) := by
  show after.nonceOf account = state.nonceOf account + _ + _
  rcases applySignedTransaction_cases applied with ⟨error, refused, _, rfl⟩ |
    ⟨accepted, bumped, result, vm, bumps, ran, _, rfl⟩
  · -- A transaction that is turned down has no history.
    have none_ : executedFrame host after tx = none := by simp [executedFrame, refused]
    simp [transactionHistory, none_, refused, creations]
  · have executed : executedFrame host state tx =
        some (transactionVm (chargeSender state tx bumped) tx) := by
      simp only [executedFrame, accepted, bumps]
    obtain ⟨history, last, traced, rfl⟩ := run_eq_value ran
    -- The frame starts with the nonces as charged, since its old nonce map is empty.
    have charged : (chargeSender state tx bumped).nonceOf account =
        state.nonceOf account + if account = tx.sender then 1 else 0 := by
      have nonce : tx.nonce = state.nonceOf tx.sender := nonce_of_accepted accepted
      have next := bumpNonce_of_lt (by rw [nonce]; exact bounded) bumps
      rw [nonceOf_chargeSender]
      split
      · rename_i own
        rw [next, nonce, own]
      · rfl
    have started : (syncLegacyStateIntoFork
        (transactionVm (chargeSender state tx bumped) tx)).state.nonceOf account =
          (chargeSender state tx bumped).nonceOf account :=
      nonceOf_syncLegacyStateIntoFork _ account
    simp only [settledState, accepted, and_true]
    rw [StateFork.nonceOf_setBalance]
    simp only [transactionHistory, executed, traced] at stays ⊢
    split
    · rename_i succeeded
      rw [if_pos succeeded] at stays
      -- From the start of the frame to its end, each creation adds one.
      have counts := counts_of_trace (indexed_of_executed indexed) (sound _ executed) traced
        account stays
      show last.state.nonceOf account = _
      rw [counts, started, charged]
    · -- A failed run leaves the charge, and nothing that it has created.
      rw [charged]
      rfl

end Transactions

section Runs

/-- A transaction without a fee to an account that has code. -/
def callTransaction : SignedTransaction where
  hash := 1
  txType := .legacy
  chainId := some 1
  nonce := 0
  gasLimit := 100000
  maxFeePerGas := 0
  maxPriorityFeePerGas := 0
  to_ := some 0x0a
  value := 0
  data := []
  sender := 0x01

/-- An account whose code creates an empty one, with some creations behind it already. -/
def repeatedCreator (nonce : Nat) : StateFork where
  baseState := (∅ : HashMap Address AccountState).insert 0x0a
    { nonce, code := [0x60, 0, 0x60, 0, 0x60, 0, 0xf0] }

/-- Whether the next creation goes by the nonces of the fork and succeeds. -/
def noncesSound (host : Host) (fuel : Nat) (evm : Evm) : Bool :=
  !opensConstructor host evm ||
    (evm.nonces.entries.all (fun entry => evm.state.nonceOf entry.1 = entry.2) &&
      evm.legacyNonce evm.selfAddress = evm.state.nonceOf evm.selfAddress &&
      decide (evm.state.nonceOf evm.selfAddress < u64Max) &&
      match step host evm with
      | .enter child survives _ =>
        match (machine host).nested ((machine host).trace fuel) child with
        | .value (_, outcome, last) => survives outcome last
        | _ => false
      | _ => false)

theorem noncesSound_of_check {host : Host} {fuel : Nat} {evm : Evm}
    (checked : noncesSound host fuel evm = true) : NoncesSound host evm := by
  have facts : ∀ creation : opensConstructor host evm = true, _ :=
    fun creation => by
      simp only [noncesSound, creation, Bool.not_true, Bool.false_or, Bool.and_eq_true,
        List.all_eq_true, decide_eq_true_eq] at checked
      exact checked
  refine ⟨fun creation => (facts creation).1.1.1, fun creation => (facts creation).1.1.2,
    fun creation => (facts creation).1.2, ?_⟩
  intro creation child survives resume history outcome last begins ran
  -- A frame has one end, so the one that was computed is the one it comes to.
  have ends := (facts creation).2
  rw [begins] at ends
  simp only at ends
  split at ends
  · rename_i finished
    obtain ⟨_, rfl, rfl⟩ := ((machine host).runsNested_of_nested finished).unique ran
    exact ends
  · cases ends

/-- A first creation is counted once. -/
theorem nonces_count_creations_once :
    ∃ answer after, applySignedTransaction createEmptyHost 10 (repeatedCreator 0) callTransaction =
        .value (answer, after) ∧
      creations createEmptyHost 0x0a
        (transactionHistory createEmptyHost 10 (repeatedCreator 0) callTransaction) = 1 ∧
      (after.getAccount 0x0a).nonce = ((repeatedCreator 0).getAccount 0x0a).nonce +
        (if (0x0a : Address) = callTransaction.sender ∧
          rejection (repeatedCreator 0) callTransaction = none then 1 else 0) +
        creations createEmptyHost 0x0a
          (transactionHistory createEmptyHost 10 (repeatedCreator 0) callTransaction) := by
  have ran : endsWith (applySignedTransaction createEmptyHost 10 (repeatedCreator 0)
      callTransaction) (fun _ => true) = true := by
    decide +kernel
  have once : creations createEmptyHost 0x0a
      (transactionHistory createEmptyHost 10 (repeatedCreator 0) callTransaction) = 1 := by
    decide +kernel
  have unremoved : removedIn (transactionHistory createEmptyHost 10 (repeatedCreator 0)
      callTransaction) 0x0a = false := by
    decide +kernel
  -- The creator has no nonce yet, which is what its empty map says as well.
  have visited : (match executedFrame createEmptyHost (repeatedCreator 0) callTransaction with
      | some vm => (machine createEmptyHost).visitsOnly
        (fun _ => noncesSound createEmptyHost 10) 10 [] (syncLegacyStateIntoFork vm)
      | none => true) = true := by
    decide +kernel
  obtain ⟨⟨answer, after⟩, applied, _⟩ := exists_of_endsWith ran
  refine ⟨answer, after, applied, once, ?_⟩
  refine nonces_count_creations createEmptyHost 10 (repeatedCreator 0) after callTransaction answer
    0x0a ?_ (by decide) ?_ applied unremoved
  · intro position snapshot found
    simp [repeatedCreator] at found
  · intro vm executed seen reached reaches running
    rw [executed] at visited
    exact noncesSound_of_check (Machine.passes_of_visitsOnly visited reaches running)

/--
A creation takes nonces back.

The old nonce map of the transaction's frame is empty, so the creator starts over, and the nonce that
it had in the fork is overwritten.
-/
theorem creation_takes_nonces_back :
    ((repeatedCreator 5).getAccount 0x0a).nonce = 5 ∧
      ∃ receipt after, applySignedTransaction createEmptyHost 10 (repeatedCreator 5)
          callTransaction = .value (.ok receipt, after) ∧ receipt.status = 1 ∧
        removedIn (transactionHistory createEmptyHost 10 (repeatedCreator 5) callTransaction)
          0x0a = false ∧
        (after.getAccount 0x0a).nonce = 1 := by
  have ran : endsWith (applySignedTransaction createEmptyHost 10 (repeatedCreator 5)
      callTransaction) (fun ended => ended.1.toOption.any fun receipt =>
        receipt.status = 1 && (ended.2.getAccount 0x0a).nonce = 1) = true := by
    decide +kernel
  have unremoved : removedIn (transactionHistory createEmptyHost 10 (repeatedCreator 5)
      callTransaction) 0x0a = false := by
    decide +kernel
  obtain ⟨⟨answer, after⟩, applied, noted⟩ := exists_of_endsWith ran
  -- The transaction is accepted, so that its receipt is looked at.
  cases answer with
  | error error => cases noted
  | ok receipt =>
    simp only [Except.toOption, Option.any_some, Bool.and_eq_true, decide_eq_true_eq] at noted
    exact ⟨by decide, receipt, after, applied, noted.1, unremoved, noted.2⟩

end Runs

end MiniEvm
