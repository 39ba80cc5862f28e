import MiniEvm.Frames.Check
import MiniEvm.Proofs.Vm.Merges
import MiniEvm.Vm.Runner
import MiniEvm.Vm.Simulation

/-! Storage over whole runs: what SSTORE wrote, and where the copies around frames get in
its way. -/

namespace MiniEvm

open Frames

/-- The value that a completed step stored in this slot of this account. -/
def storedBy (account : Address) (key : Word) (done : Transition Evm ExecutionResult) :
    Option Word :=
  match done.before.opcode, done.before.stack.data with
  | some .sstore, slot :: val :: _ =>
    if done.result = .halt ∧ done.before.selfAddress = account ∧ slot = key then some val else none
  | _, _ => none

/-- The value of the latest SSTORE to this slot in the frames that were not reverted. -/
def latestSstore (history : History Evm ExecutionResult) (account : Address) (key : Word) :
    Option Word :=
  history.reverse.findSome? (storedBy account key)

/-- Whether a completed step removed this account. -/
def removes (account : Address) (done : Transition Evm ExecutionResult) : Bool :=
  done.before.opcode = some .selfdestruct ∧ done.result = .halt ∧
    done.before.selfAddress = account ∧ account ∈ done.before.createdInTransaction

/-- Whether a step of a frame that was not reverted removed this account. -/
def removedIn (history : History Evm ExecutionResult) (account : Address) : Bool :=
  history.any (removes account)

/-- The slots of every account that stayed are what the history says. -/
def StorageFollows (history : History Evm ExecutionResult) (before after : Evm) : Prop :=
  ∀ account key, removedIn history account = false →
    after.state.getStorage account key =
      (latestSstore history account key).getD (before.state.getStorage account key)

section Histories

variable {account : Address} {key : Word}

/-- The latest store is in the later part, if there is one. -/
theorem latestSstore_append (first second : History Evm ExecutionResult) :
    latestSstore (first ++ second) account key =
      (latestSstore second account key).or (latestSstore first account key) := by
  simp only [latestSstore, List.reverse_append, List.findSome?_append]

/-- Of one step it is what that step stores. -/
@[simp] theorem latestSstore_single (done : Transition Evm ExecutionResult) :
    latestSstore [done] account key = storedBy account key done := by
  simp only [latestSstore, List.reverse_singleton, List.findSome?_singleton]

/-- An account is removed in one of the parts. -/
theorem removedIn_append (first second : History Evm ExecutionResult) :
    removedIn (first ++ second) account =
      (removedIn first account || removedIn second account) := List.any_append

/-- Where nothing happens, storage follows nothing. -/
theorem StorageFollows.refl (evm : Evm) : StorageFollows [] evm evm := fun _ _ _ => rfl

/-- Histories of storage compose: a later store hides an earlier one. -/
theorem StorageFollows.trans {first second : History Evm ExecutionResult} {a b c : Evm}
    (one : StorageFollows first a b) (other : StorageFollows second b c) :
    StorageFollows (first ++ second) a c := by
  -- An account that stayed through both parts stayed through each.
  intro account key stays
  rw [removedIn_append, Bool.or_eq_false_iff] at stays
  rw [other account key stays.2, one account key stays.1, latestSstore_append]
  cases latestSstore second account key with
  | none => rfl
  | some val => rfl

/-- A step that neither stores nor removes adds nothing to a history. -/
theorem StorageFollows.snoc {history : History Evm ExecutionResult} {a b : Evm}
    {done : Transition Evm ExecutionResult} (follows : StorageFollows history a b)
    (stores : ∀ account key, storedBy account key done = none) :
    StorageFollows (history ++ [done]) a b := by
  -- The longer history has the same latest store.
  intro account key stays
  rw [removedIn_append, Bool.or_eq_false_iff] at stays
  rw [follows account key stays.1, latestSstore_append, latestSstore_single, stores,
    Option.none_or]

end Histories

section Steps

variable {host : Host} {evm after : Evm} {result : ExecutionResult}

/-- Only an SSTORE stores. -/
theorem storedBy_of_opcode {op : Opcode} (decoded : evm.opcode = some op) (other : op ≠ .sstore)
    (account : Address) (key : Word) : storedBy account key ⟨evm, result, after⟩ = none := by
  unfold storedBy
  simp only [decoded]
  split
  · rename_i found _
    exact absurd (Option.some.inj found) other
  · rfl

/-- Only a step that reached its end stores. -/
theorem storedBy_of_result (early : result ≠ .halt) (account : Address) (key : Word) :
    storedBy account key ⟨evm, result, after⟩ = none := by
  unfold storedBy
  split
  · rw [if_neg fun stored => early stored.1]
  · rfl

/-- Forks that read alike follow the empty history. -/
theorem follows_of_reads {before later : Evm}
    (reads : ∀ account key, later.state.getStorage account key =
      before.state.getStorage account key) : StorageFollows [] before later :=
  fun account key _ => reads account key

/-- Moving a balance stores nothing. -/
theorem getStorage_sweepBalance (state : StateFork) (from_ to_ account : Address) (key : Word) :
    (sweepBalance state from_ to_).getStorage account key = state.getStorage account key := by
  simp only [sweepBalance]
  split
  · rfl
  · rw [StateFork.getStorage_setBalance, StateFork.getStorage_setBalance]

/-- Self-destruction stores nothing in the accounts it does not remove. -/
theorem getStorage_destroyAccount (evm : Evm) (beneficiary account : Address) (key : Word)
    (stays : ¬ (evm.selfAddress = account ∧ account ∈ evm.createdInTransaction)) :
    (destroyAccount evm beneficiary).state.getStorage account key =
      evm.state.getStorage account key := by
  simp only [destroyAccount]
  -- Only the account of the frame itself is ever removed.
  split
  · rename_i created
    have other : account ≠ evm.selfAddress := by
      rintro rfl
      exact stays ⟨rfl, created⟩
    simp only [removeAccount, StateFork.getStorage, StateFork.getAccount_erase, if_neg other]
    exact getStorage_sweepBalance _ _ _ _ _
  · exact getStorage_sweepBalance _ _ _ _ _

/-- What a step does by itself follows its own record. -/
theorem Effect.storageFollows {op : Opcode} (decoded : evm.opcode = some op)
    (effect : Effect evm op after) : StorageFollows [⟨evm, .halt, after⟩] evm after := by
  -- The history is one step long, so its latest store is its own.
  intro account key stays
  rw [latestSstore_single]
  cases effect with
  | plain plain drift =>
    rw [storedBy_of_opcode decoded (by rintro rfl; cases plain), drift.state]
    rfl
  | @sstore mid slot val rest _ operands drift =>
    -- The record and the fork speak of the same account, slot and value.
    have self : mid.selfAddress = evm.selfAddress := drift.selfAddress
    simp only [storedBy, decoded, operands, true_and, self, drift.state,
      StateFork.getStorage_setStorage]
    by_cases hit : account = evm.selfAddress ∧ key = slot
    · rw [if_pos hit, if_pos ⟨hit.1.symm, hit.2.symm⟩]
      rfl
    · rw [if_neg hit, if_neg fun same => hit ⟨same.1.symm, same.2.symm⟩]
      rfl
  | tstore _ _ drift =>
    rw [storedBy_of_opcode decoded (by simp), ← drift.state]
    rfl
  | log _ drift =>
    rw [storedBy_of_opcode decoded (by simp), ← drift.state]
    rfl
  | @selfdestruct mid word rest _ _ drift =>
    rw [storedBy_of_opcode decoded (by simp), getStorage_destroyAccount, drift.state]
    · rfl
    · -- Otherwise the record would say that the account was removed.
      rintro ⟨self, created⟩
      rw [drift.selfAddress] at self
      rw [drift.createdInTransaction] at created
      simp [removedIn, removes, decoded, self, created] at stays

/-- Moving the value of a creation stores nothing. -/
theorem getStorage_createdFrame (mid : Evm) (value : Word) (salt : Option Word) (initCode : Bytes)
    (account : Address) (key : Word) :
    (createdFrame host mid value salt initCode).state.getStorage account key =
      mid.state.getStorage account key := by
  rw [createdFrame_state]
  simp only [startDeploy, fundDeploy, Evm.takeSnapshot]
  rw [StateFork.getStorage_setBalance, StateFork.getStorage_setBalance,
    StateFork.getStorage_snapshot]
  rfl

/-- The frame a step opens starts with the slots of its opener. -/
theorem Opened.reads {child : Evm} (opened : Opened host evm child) (account : Address)
    (key : Word) : child.state.getStorage account key = evm.state.getStorage account key := by
  cases opened with
  | call opening =>
    rw [← opening.drift.state]
    rfl
  | create opening => rw [← opening.drift.state, getStorage_createdFrame]

/-- A call follows the record of its callee, or no record at all when it is reverted. -/
theorem CallOpening.storageFollows {forceStatic delegate : Bool} {setup : CallSetup}
    {mid last : Evm} {history : History Evm ExecutionResult} {outcome : ExecutionResult}
    (opening : CallOpening evm forceStatic delegate setup mid)
    (indexed : evm.state.SnapshotsIndexed)
    (below : StorageFollows history (calledFrame mid delegate setup) last)
    (quiet : Quiet (afterCall mid outcome last) after) :
    StorageFollows ((if outcome.isSuccess then history else []) ++ [⟨evm, result, after⟩])
      evm after := by
  -- The opened frame starts with the slots of its caller.
  have entered : StorageFollows [] evm (calledFrame mid delegate setup) := by
    apply follows_of_reads
    intro _ _
    rw [← opening.drift.state]
    rfl
  have other : callOpcode forceStatic delegate ≠ .sstore := by
    cases forceStatic <;> cases delegate <;> decide
  rw [← opening.drift.state] at indexed
  apply StorageFollows.snoc _ (storedBy_of_opcode opening.opcode other)
  cases succeeded : outcome.isSuccess with
  | true =>
    rw [afterCall_of_success succeeded] at quiet
    have left : StorageFollows [] last after := follows_of_reads fun _ _ => by
      rw [quiet.state]
    simpa using (entered.trans below).trans left
  | false =>
    rw [afterCall_of_failure indexed.fresh succeeded] at quiet
    apply follows_of_reads
    intro _ _
    rw [quiet.state, ← opening.drift.state]

/-- A creation follows the record of its constructor, or no record at all when it failed. -/
theorem CreateOpening.storageFollows {value : Word} {salt : Option Word} {initCode : Bytes}
    {mid last : Evm} {history : History Evm ExecutionResult} {outcome : ExecutionResult}
    (opening : CreateOpening evm value salt mid) (indexed : evm.state.SnapshotsIndexed)
    (below : StorageFollows history (createdFrame host mid value salt initCode) last)
    (quiet : Quiet (afterCreate host mid value salt initCode outcome last).2 after) :
    StorageFollows
      ((if createSucceeds host mid value salt initCode outcome last then history else []) ++
        [⟨evm, result, after⟩]) evm after := by
  have opened : Opened host evm (createdFrame host mid value salt initCode) := .create opening
  have entered := follows_of_reads opened.reads
  have other : createOpcode salt ≠ .sstore := by
    cases salt <;> simp [createOpcode]
  rw [← opening.drift.state] at indexed
  apply StorageFollows.snoc _ (storedBy_of_opcode opening.opcode other)
  cases succeeded : createSucceeds host mid value salt initCode outcome last with
  | true =>
    -- Installing the code stores nothing.
    obtain ⟨code, state, _⟩ := afterCreate_of_success succeeded
    have left : StorageFollows [] last after := follows_of_reads fun _ _ => by
      rw [quiet.state, state, StateFork.getStorage_setCode]
    simpa using (entered.trans below).trans left
  | false =>
    apply follows_of_reads
    intro _ _
    rw [quiet.state, (afterCreate_of_failure indexed.fresh succeeded).1, opening.drift.state]

/-- A step follows its record, as soon as the frame below it does. -/
theorem StepsTo.storageFollows
    {nested : Evm → History Evm ExecutionResult → ExecutionResult → Evm → Prop}
    {kept : History Evm ExecutionResult}
    (below : ∀ {child history outcome last}, nested child history outcome last →
      StorageFollows history child last)
    (indexed : evm.state.SnapshotsIndexed) (stepped : StepsTo host nested evm kept result after) :
    StorageFollows (kept ++ [⟨evm, result, after⟩]) evm after := by
  cases stepped with
  -- An ending step writes nothing, and records nothing.
  | stopped drift early =>
    refine StorageFollows.snoc (follows_of_reads fun _ _ => ?_) (storedBy_of_result early)
    rw [drift.state]
  | done decoded effect _ => exact effect.storageFollows decoded
  | called opening ran quiet => exact opening.storageFollows indexed (below ran) quiet
  | created opening ran quiet _ => exact opening.storageFollows indexed (below ran) quiet

end Steps

/-- Every frame that this step opens finds the storage map in agreement with its account. -/
def OpensInAgreement (host : Host) (evm : Evm) : Prop :=
  ∀ sofar child, (machine host).Opens evm sofar child → StorageAgrees child

/-- Storage follows the history to every visited state, while copies agree with the fork. -/
theorem storageFollows_of_visits {host : Host} {start evm : Evm}
    {history : History Evm ExecutionResult} (indexed : start.state.SnapshotsIndexed)
    (agrees : ∀ seen visited, (machine host).Reaches start seen visited →
      OpensInAgreement host visited)
    (visits : (machine host).Visits start history evm) : StorageFollows history start evm := by
  -- Histories of storage compose, so one step and one opening are left.
  refine Machine.visits_relates StorageFollows
    (fun visited => visited.state.SnapshotsIndexed ∧ OpensInAgreement host visited)
    StorageFollows.refl StorageFollows.trans ?_ ?_ ?_ visits
  · intro state kept result after running allowed resolved
    refine (stepsTo_of_resolves running
      (Machine.resolves_within_opened running resolved)).storageFollows ?_ allowed.1
    -- Neither copy around the frame below is seen by a reader of slots.
    rintro child past outcome _ ⟨⟨sofar, opens⟩, stop, _, follows, rfl⟩
    intro account key stays
    have read := follows account key stays
    rw [machine_opening, getStorage_syncLegacyStateIntoFork (allowed.2 sofar child opens)] at read
    rw [machine_closing, syncForkIntoLegacyState_state, read]
  · intro seen visited reaches _
    exact ⟨indexed_of_reaches indexed reaches, agrees seen visited reaches⟩
  · -- Opening a frame writes nothing but its copy, which agrees with the fork.
    intro state kept child running allowed enters
    obtain ⟨rfl, opened⟩ := opened_of_enters enters
    have opens := Machine.opens_of_enters running enters
    refine follows_of_reads fun account key => ?_
    rw [machine_opening, getStorage_syncLegacyStateIntoFork (allowed.2 _ child opens), opened.reads]

/-- The frames that the two entry points run on a fork. -/
inductive EntryVm (initial : StateFork) : Evm → Prop
  | simulation (caller target : Address) (value : Word) (input : Bytes) (gasLimit : Nat) :
      EntryVm initial (simulationVm initial caller target value input gasLimit)
  | transaction (tx : SignedTransaction) (bumped : Nat) :
      EntryVm initial (transactionVm (chargeSender initial tx bumped) tx)

section Entries

variable {initial : StateFork} {vm : Evm}

/-- The entry points leave the old maps empty, so the first copy does nothing. -/
theorem EntryVm.opening (entry : EntryVm initial vm) : syncLegacyStateIntoFork vm = vm := by
  cases entry <;> rfl

/-- The frame of an entry point has the snapshots of its fork. -/
theorem EntryVm.indexed (entry : EntryVm initial vm) (indexed : initial.SnapshotsIndexed) :
    vm.state.SnapshotsIndexed := by
  -- A simulation takes one snapshot, and a transaction takes none.
  cases entry with
  | simulation caller target value input gasLimit => exact indexed.snapshot.of_snapshots rfl
  | transaction tx bumped => exact indexed.of_snapshots rfl

/-- The entry points move balances and nonces only. -/
theorem EntryVm.reads (entry : EntryVm initial vm) (account : Address) (key : Word) :
    vm.state.getStorage account key = initial.getStorage account key := by
  cases entry with
  | simulation caller target value input gasLimit =>
    simp only [simulationVm, simulationFrame]
    rw [StateFork.getStorage_setBalance, StateFork.getStorage_setBalance,
      StateFork.getStorage_snapshot]
  | transaction tx bumped =>
    simp only [transactionVm, chargeSender]
    rw [StateFork.getStorage_setNonce, StateFork.getStorage_setBalance]

end Entries

/--
Storage changes by SSTORE only.

At every point of a run in which each frame is opened with a storage map that agrees with its
account, every slot of an account that was not removed holds what the latest surviving SSTORE put
there, and else what it held at first.
-/
theorem storage_changes_by_sstore (host : Host) (initial : StateFork) (vm : Evm)
    (entry : EntryVm initial vm) (indexed : initial.SnapshotsIndexed)
    (agrees : ∀ seen visited, (machine host).Reaches (syncLegacyStateIntoFork vm) seen visited →
      OpensInAgreement host visited)
    (history : History Evm ExecutionResult) (evm : Evm)
    (visits : (machine host).Visits (syncLegacyStateIntoFork vm) history evm)
    (account : Address) (key : Word) (stays : removedIn history account = false) :
    evm.state.getStorage account key =
      (latestSstore history account key).getD (initial.getStorage account key) := by
  -- The copy at the entrance changes nothing, and the steps behind it follow their records.
  rw [entry.opening] at agrees visits
  rw [storageFollows_of_visits (entry.indexed indexed) agrees visits account key stays,
    entry.reads]

/-- Whether the frame that a step opens finds its storage map in agreement with its account. -/
def opensInAgreement (host : Host) (evm : Evm) : Bool :=
  match step host evm with
  | .enter child _ _ => child.storage.entries.all fun entry =>
    child.state.getStorage child.selfAddress entry.1 = entry.2
  | _ => true

/-- What the check passes opens its frames in agreement. -/
theorem opensInAgreement_of_check {host : Host} {evm : Evm}
    (checked : opensInAgreement host evm = true) : OpensInAgreement host evm := by
  intro sofar child opens entry member
  obtain ⟨_, _, begins⟩ := enter_of_enters opens.2
  simp only [opensInAgreement, begins, List.all_eq_true, decide_eq_true_eq] at checked
  exact checked entry member

/-- An account that stores seven in its first slot and calls another one, which stores nine. -/
def storeSeven : StateFork where
  baseState := ((∅ : HashMap Address AccountState).insert 0x0a
    { code := [0x60, 7, 0x60, 0, 0x55,
        0x60, 0, 0x60, 0, 0x60, 0, 0x60, 0, 0x60, 0, 0x60, 0x0b, 0x61, 0xff, 0xff, 0xf1] }).insert
    0x0b { code := [0x60, 9, 0x60, 0, 0x55] }

/-- Both stores survive, and the callee ends up with what it stored. -/
theorem storage_changes_by_sstore_seven :
    ∃ history evm,
      (machine (tableHost [])).Visits
        (syncLegacyStateIntoFork (simulationVm storeSeven 0x01 0x0a 0 [] 100000)) history evm ∧
      latestSstore history 0x0a 0 = some 7 ∧ latestSstore history 0x0b 0 = some 9 ∧
      evm.state.getStorage 0x0b 0 =
        (latestSstore history 0x0b 0).getD (storeSeven.getStorage 0x0b 0) := by
  have ended : endsWith ((machine (tableHost [])).trace 20
      (syncLegacyStateIntoFork (simulationVm storeSeven 0x01 0x0a 0 [] 100000)))
      (fun ended => removedIn ended.1 0x0b = false ∧
        latestSstore ended.1 0x0a 0 = some 7 ∧ latestSstore ended.1 0x0b 0 = some 9) = true := by
    decide +kernel
  have checked : (machine (tableHost [])).visitsOnly (fun _ => opensInAgreement (tableHost [])) 20
      [] (syncLegacyStateIntoFork (simulationVm storeSeven 0x01 0x0a 0 [] 100000)) = true := by
    decide +kernel
  obtain ⟨⟨history, result, final⟩, ran, noted⟩ := exists_of_endsWith ended
  obtain ⟨stays, seven, nine⟩ := of_decide_eq_true noted
  have visits := Machine.visits_of_runs ⟨20, ran⟩
  refine ⟨history, final, visits, seven, nine, ?_⟩
  refine storage_changes_by_sstore (tableHost []) storeSeven _ (.simulation 0x01 0x0a 0 [] 100000)
    (fun _ _ found => by simp [storeSeven] at found) ?_ history final visits 0x0b 0 stays
  -- Every state that opens a frame is among those that were checked.
  intro seen visited reaches sofar child opens
  exact opensInAgreement_of_check
    (Machine.passes_of_visitsOnly checked reaches opens.1) sofar child opens

/-- An account that stores one in its first slot and then calls two others that have no code. -/
def storeThenCallTwice : StateFork where
  baseState := (∅ : HashMap Address AccountState).insert 0x0a
    { code := [0x60, 1, 0x60, 0, 0x55,
        0x60, 0, 0x60, 0, 0x60, 0, 0x60, 0, 0x60, 0, 0x60, 0x0b, 0x61, 0xff, 0xff, 0xf1,
        0x60, 0, 0x60, 0, 0x60, 0, 0x60, 0, 0x60, 0, 0x60, 0x0c, 0x61, 0xff, 0xff, 0xf1] }

/-- The second callee ends up with a slot that nobody stored: the first one of its caller. -/
theorem call_copies_slots_to_callee :
    ∃ history evm,
      (machine (tableHost [])).Visits
        (syncLegacyStateIntoFork (simulationVm storeThenCallTwice 0x01 0x0a 0 [] 1000000))
        history evm ∧
      removedIn history 0x0c = false ∧ latestSstore history 0x0c 0 = none ∧
      storeThenCallTwice.getStorage 0x0c 0 = 0 ∧ evm.state.getStorage 0x0c 0 = 1 := by
  have ended : endsWith ((machine (tableHost [])).trace 30
      (syncLegacyStateIntoFork (simulationVm storeThenCallTwice 0x01 0x0a 0 [] 1000000)))
      (fun ended => removedIn ended.1 0x0c = false ∧
        latestSstore ended.1 0x0c 0 = none ∧ storeThenCallTwice.getStorage 0x0c 0 = 0 ∧
        ended.2.2.state.getStorage 0x0c 0 = 1) = true := by
    decide +kernel
  obtain ⟨⟨history, result, final⟩, ran, noted⟩ := exists_of_endsWith ended
  exact ⟨history, final, Machine.visits_of_runs ⟨30, ran⟩, of_decide_eq_true noted⟩

end MiniEvm
