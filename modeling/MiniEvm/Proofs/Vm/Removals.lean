import MiniEvm.Frames.Check
import MiniEvm.Proofs.Vm.Ether
import MiniEvm.Proofs.Vm.Slots

/-! Removed accounts: what brings them back, and when they stay gone. -/

namespace MiniEvm

open Frames

/-- A completed step that took its own account out of the state. -/
structure Removes (account : Address) (done : Transition Evm ExecutionResult) : Prop where
  opcode : done.before.opcode = some .selfdestruct
  own : done.before.selfAddress = account
  created : account ∈ done.before.createdInTransaction
  completed : done.result = .halt

theorem removes_iff {account : Address} {done : Transition Evm ExecutionResult} :
    removes account done = true ↔ Removes account done := by
  simp only [removes, decide_eq_true_eq]
  constructor
  · rintro ⟨opcode, completed, own, created⟩
    exact ⟨opcode, own, created, completed⟩
  · rintro ⟨opcode, own, created, completed⟩
    exact ⟨opcode, completed, own, created⟩

section Removed

variable {host : Host} {evm after child : Evm} {account : Address}
  {first second kept past : History Evm ExecutionResult} {result : ExecutionResult}

/-- A step that did not remove the account itself adds nothing to what was removed before. -/
theorem removedIn_earlier {done : Transition Evm ExecutionResult}
    (removed : removedIn (past ++ (kept ++ [done])) account = true)
    (other : ¬ Removes account done) : removedIn (past ++ kept) account = true := by
  rw [← removes_iff, Bool.not_eq_true] at other
  simpa [removedIn, other] using removed

/-- The maps that a frame is opened with say nothing about an account. -/
structure Silent (account : Address) (child : Evm) : Prop where
  balance : (child.balances.lookup account).getD 0 = 0
  nonce : (child.nonces.lookup account).getD 0 = 0
  code : (child.contracts.lookup account).getD [] = []
  storage : child.selfAddress = account → child.storage.entries = []

/--
A step that leaves a removed account alone.

It stores nothing there, opens a frame only with maps that say nothing about the account, does not
create the account again and sends no value to it.
-/
structure Spares (host : Host) (account : Address) (evm : Evm) : Prop where
  stores : evm.opcode = some .sstore → evm.selfAddress ≠ account
  copies : ∀ sofar child, (machine host).Opens evm sofar child → Silent account child
  creates : ∀ op sofar child, evm.opcode = some op → op.isCreation = true →
    (machine host).Opens evm sofar child → child.selfAddress ≠ account
  sends : evm.opcode = some .selfdestruct → ∀ word rest, evm.stack.data = word :: rest →
    accountAddress word = account → evm.state.getBalance evm.selfAddress = 0

/-- No account is removed while its own constructor runs. -/
def ConstructorsLast (host : Host) (account : Address) (evm : Evm) : Prop :=
  ∀ op sofar child history outcome last, evm.opcode = some op → op.isCreation = true →
    (machine host).Opens evm sofar child → child.selfAddress = account →
    (machine host).RunsNested child history outcome last → removedIn history account = false

/-- The account is gone to every reader of the fork. -/
def Gone (account : Address) (evm : Evm) : Prop := evm.state.getAccount account = {}

/-- A write that puts nothing into the account leaves it gone. -/
theorem getAccount_of_void {state : StateFork} {addr : Address}
    {write : AccountState → AccountState} (gone : state.getAccount account = {})
    (void : addr = account → write {} = {}) :
    (state.accountForWrite addr write).getAccount account = {} := by
  rw [StateFork.getAccount_accountForWrite]
  split
  · rename_i same
    rw [← same, gone, void same.symm]
  · exact gone

/-- Whether the account is gone is a matter of the fork alone. -/
theorem Gone.of_state (gone : Gone account evm) (same : after.state = evm.state) :
    Gone account after := by
  unfold Gone
  rw [same]
  exact gone

/-- A sweep that moves nothing to the account leaves it gone. -/
theorem getAccount_sweepBalance {state : StateFork} {sender beneficiary : Address}
    (gone : state.getAccount account = {})
    (unpaid : beneficiary = account → state.getBalance sender = 0) :
    (sweepBalance state sender beneficiary).getAccount account = {} := by
  unfold sweepBalance
  split
  · exact gone
  · refine getAccount_of_void (getAccount_of_void gone fun same => ?_) fun same => ?_
    · -- Nothing is swept, and the beneficiary has nothing to begin with.
      have own : state.getBalance beneficiary = 0 := by
        rw [same, StateFork.getBalance, gone]
      rw [unpaid same, own]
      rfl
    · rfl

/-- An entry that says nothing is the only one there can be. -/
theorem eq_of_silent {ν : Type} {map : HashMap Address ν} {default value : ν}
    (silent : (map.lookup account).getD default = default)
    (member : (⟨account, value⟩ : Sigma fun _ : Address => ν) ∈ map.entries) :
    value = default := by
  rw [AList.mem_lookup_iff.mpr member] at silent
  exact silent

/-- The copy of such maps leaves the account gone. -/
theorem Gone.opening (gone : Gone account child) (silent : Silent account child) :
    Gone account (syncLegacyStateIntoFork child) := by
  refine syncLegacyStateIntoFork_induction (motive := fun state => state.getAccount account = {})
    child gone ?_ ?_ ?_ ?_
  · -- The storage map is only written where it is not empty.
    intro state gone entry member
    refine getAccount_of_void gone fun same => ?_
    rw [silent.storage same] at member
    cases member
  · intro state gone entry member
    refine getAccount_of_void gone fun same => ?_
    obtain ⟨key, value⟩ := entry
    subst same
    rw [eq_of_silent silent.balance member]
  · intro state gone entry member
    refine getAccount_of_void gone fun same => ?_
    obtain ⟨key, value⟩ := entry
    subst same
    rw [eq_of_silent silent.nonce member]
  · intro state gone entry member
    refine getAccount_of_void gone fun same => ?_
    obtain ⟨key, value⟩ := entry
    subst same
    rw [eq_of_silent silent.code member]

/-- A constructor whose balance map says nothing about the account has moved no value to it. -/
theorem Gone.createdFrame {value : Word} {salt : Option Word} {initCode : Bytes} {mid : Evm}
    (gone : Gone account mid) (silent : Silent account (createdFrame host mid value salt initCode)) :
    Gone account (createdFrame host mid value salt initCode) := by
  obtain ⟨target, balances, state, _⟩ := createdFrame_balances host mid value salt initCode
  have silent := silent.balance
  have snapped : mid.state.snapshot.2.getAccount account = {} := gone
  rw [balances] at silent
  unfold Gone
  rw [state, StateFork.setBalance, StateFork.getAccount_accountForWrite, StateFork.setBalance,
    StateFork.getAccount_accountForWrite, StateFork.getAccount_accountForWrite]
  generalize createAddress host mid salt initCode = newAddr at silent ⊢
  by_cases created : account = newAddr
  · -- The balance of the new account is written last.
    subst created
    rw [AList.lookup_insert] at silent
    have unpaid : target + value = 0 := silent
    rw [if_pos rfl, unpaid]
    split
    · rename_i own
      rw [← own, snapped]
    · rw [snapped]
  · rw [AList.lookup_insert_ne created] at silent
    rw [if_neg created]
    split
    · rename_i own
      subst own
      rw [AList.lookup_insert] at silent
      -- The account is the creator, and its map says that the value was all it had.
      have unpaid : mid.legacyBalance mid.selfAddress - value = 0 := silent
      rw [snapped, unpaid]
    · exact snapped

/-- What a step does by itself removes its account, or leaves a removed one alone. -/
theorem Effect.gone {op : Opcode} (decoded : evm.opcode = some op) (effect : Effect evm op after)
    (removes : Removes account ⟨evm, .halt, after⟩ ∨ Gone account evm ∧ Spares host account evm) :
    Gone account after := by
  cases effect with
  | plain plain drift =>
    rcases removes with now | ⟨gone, _⟩
    · -- None of the plain opcodes removes an account.
      obtain rfl := Option.some.inj (decoded.symm.trans now.opcode)
      cases plain
    · exact gone.of_state drift.state
  | @sstore mid key val rest _ _ drift =>
    rcases removes with now | ⟨gone, spares⟩
    · cases decoded.symm.trans now.opcode
    · refine getAccount_of_void (gone.of_state drift.state) fun same => ?_
      exact absurd (drift.selfAddress.symm.trans same) (spares.stores decoded)
  | tstore _ _ drift =>
    rcases removes with now | ⟨gone, _⟩
    · cases decoded.symm.trans now.opcode
    · have before := gone.of_state drift.state
      exact before
  | log _ drift =>
    rcases removes with now | ⟨gone, _⟩
    · cases decoded.symm.trans now.opcode
    · have before := gone.of_state drift.state
      exact before
  | @selfdestruct mid word rest _ operands drift =>
    -- A sweep moves nothing to the account, and the removal takes it out altogether.
    have swept : Gone account evm ∧ Spares host account evm →
        (sweepBalance mid.state mid.selfAddress (accountAddress word)).getAccount account = {} := by
      rintro ⟨gone, spares⟩
      refine getAccount_sweepBalance (gone.of_state drift.state) fun same => ?_
      rw [drift.state, drift.selfAddress]
      exact spares.sends decoded word rest operands same
    unfold Gone
    simp only [destroyAccount]
    split
    · simp only [removeAccount]
      rw [StateFork.getAccount_erase]
      split
      · rfl
      · rename_i created other
        refine swept (removes.resolve_left fun now => other ?_)
        rw [drift.selfAddress]
        exact now.own.symm
    · -- The frame's own account is not a new one, so this step removed nothing.
      rename_i older
      refine swept (removes.resolve_left fun now => older ?_)
      rw [drift.createdInTransaction, drift.selfAddress, now.own]
      exact now.created

/-- An opening step removes nothing by itself. -/
theorem not_removes_of_opcode {op : Opcode} (decoded : evm.opcode = some op)
    (opens : op.opensFrame = true) : ¬ Removes account ⟨evm, result, after⟩ := by
  intro removes
  obtain rfl := Option.some.inj (decoded.symm.trans removes.opcode)
  cases opens

/-- What has been removed so far is gone. -/
def StaysGone (account : Address) (past : History Evm ExecutionResult) (evm : Evm) : Prop :=
  removedIn past account = true → Gone account evm

/-- What a frame below a step comes to, if it leaves removed accounts alone. -/
def GoneBelow (host : Host) (account : Address) (past : History Evm ExecutionResult) (evm child : Evm)
    (history : History Evm ExecutionResult) (outcome : ExecutionResult) (final : Evm) : Prop :=
  ∃ sofar last, (machine host).Opens evm sofar child ∧
    (machine host).Runs ((machine host).opening child) history outcome last ∧
    (StaysGone account (past ++ sofar) ((machine host).opening child) →
      StaysGone account (past ++ sofar ++ history) last) ∧
    final = (machine host).closing last

section Frames

variable {outcome : ExecutionResult} {last mid : Evm} {history : History Evm ExecutionResult}

/-- A frame that starts with the account gone ends with it gone. -/
theorem GoneBelow.ends (below : GoneBelow host account past evm child history outcome last)
    (opened : removedIn past account = true → Gone account child)
    (silent : removedIn past account = true → Silent account child) :
    removedIn (past ++ history) account = true → Gone account last := by
  obtain ⟨sofar, stop, opens, _, keeps, rfl⟩ := below
  -- Nothing happens between the start of the step and the frame.
  obtain ⟨rfl, _⟩ := opened_of_enters opens.2
  simp only [List.append_nil] at keeps
  -- The copy at the start of the frame says nothing about the account.
  have ended := keeps fun removed => (opened removed).opening (silent removed)
  intro removed
  unfold Gone
  rw [machine_closing, syncForkIntoLegacyState_state]
  exact ended removed

/-- A call takes over the fork of a callee that leaves removed accounts gone, or its own. -/
theorem gone_afterCall {forceStatic delegate : Bool} {setup : CallSetup}
    (opening : CallOpening evm forceStatic delegate setup mid)
    (indexed : evm.state.SnapshotsIndexed)
    (spares : removedIn past account = true → Spares host account evm)
    (gone : StaysGone account past evm)
    (below : GoneBelow host account past evm (calledFrame mid delegate setup) history outcome last)
    (before : removedIn (past ++ if outcome.isSuccess then history else []) account = true) :
    Gone account (afterCall mid outcome last) := by
  obtain ⟨sofar, _, opens, _⟩ := id below
  have started : removedIn past account = true → Gone account (calledFrame mid delegate setup) := by
    intro earlier
    have prepared := (gone earlier).of_state opening.drift.state
    exact prepared
  unfold Gone
  cases succeeded : outcome.isSuccess with
  | true =>
    rw [if_pos succeeded] at before
    rw [afterCall_of_success succeeded]
    exact below.ends started (fun earlier => (spares earlier).copies _ _ opens) before
  | false =>
    -- The caller goes on with its own fork as it was.
    rw [if_neg (by simp [succeeded]), List.append_nil] at before
    rw [← opening.drift.state] at indexed
    rw [afterCall_of_failure indexed.fresh succeeded]
    exact (gone before).of_state opening.drift.state

/-- A creation also installs code, but never at an account that was removed. -/
theorem gone_afterCreate {value : Word} {salt : Option Word} {initCode : Bytes}
    (opening : CreateOpening evm value salt mid) (indexed : evm.state.SnapshotsIndexed)
    (spares : removedIn past account = true → Spares host account evm)
    (constructors : ConstructorsLast host account evm) (gone : StaysGone account past evm)
    (below : GoneBelow host account past evm (createdFrame host mid value salt initCode) history
      outcome last)
    (before : removedIn (past ++
      if createSucceeds host mid value salt initCode outcome last then history else [])
        account = true) :
    Gone account (afterCreate host mid value salt initCode outcome last).2 := by
  obtain ⟨sofar, _, opens, _⟩ := id below
  have creation := createOpcode_isCreation salt
  -- Preparing the creation has left the fork as it was.
  have prepared : removedIn past account = true → Gone account mid :=
    fun earlier => (gone earlier).of_state opening.drift.state
  unfold Gone
  cases succeeded : createSucceeds host mid value salt initCode outcome last with
  | true =>
    rw [if_pos succeeded] at before
    have silent := fun earlier => (spares earlier).copies _ _ opens
    have ended : Gone account last := below.ends
      (fun earlier => (prepared earlier).createdFrame (silent earlier)) silent before
    obtain ⟨code, state, _⟩ := afterCreate_of_success succeeded
    rw [state]
    refine getAccount_of_void ended fun same => ?_
    -- The installed code belongs to another account, whenever this one was removed.
    rw [← createdFrame_selfAddress] at same
    rw [removedIn_append, Bool.or_eq_true] at before
    rcases before with earlier | inside
    · exact absurd same ((spares earlier).creates _ _ _ opening.opcode creation opens)
    · obtain ⟨_, stop, _, ran, _, rfl⟩ := below
      rw [constructors _ _ _ _ _ _ opening.opcode creation opens same ⟨stop, ran, rfl⟩] at inside
      cases inside
  | false =>
    rw [if_neg (by simp [succeeded]), List.append_nil] at before
    rw [← opening.drift.state] at indexed
    rw [(afterCreate_of_failure indexed.fresh succeeded).1]
    exact prepared before

/-- One step leaves removed accounts gone, as soon as the frame below it does. -/
theorem gone_of_resolves (running : (machine host).running evm = true)
    (indexed : evm.state.SnapshotsIndexed)
    (spares : removedIn past account = true → Spares host account evm)
    (constructors : ConstructorsLast host account evm)
    (gone : StaysGone account past evm)
    (resolved : (step host evm).Resolves .halt (GoneBelow host account past evm)
      kept result after)
    (removed : removedIn (past ++ (kept ++ [⟨evm, result, after⟩])) account = true) :
    Gone account after := by
  cases stepEnds_of_resolves running resolved with
  | alone _ ends =>
    rcases ends with ⟨drift, early⟩ | ⟨op, decoded, effect, rfl⟩
    · -- A step that ended its frame early removed nothing.
      have before := removedIn_earlier removed fun removes => early removes.completed
      rw [List.append_nil] at before
      exact (gone before).of_state drift.state
    · apply @Effect.gone host evm after account op decoded effect
      by_cases now : Removes account ⟨evm, .halt, after⟩
      · exact .inl now
      · -- The removal lies behind, or this step is it.
        have before := removedIn_earlier removed now
        rw [List.append_nil] at before
        exact .inr ⟨gone before, spares before⟩
  | @resumed child survives resume history outcome last _ _ begins below resumes =>
    cases resumes with
    | @called forceStatic delegate setup mid _ _ opening quiet =>
      have before := removedIn_earlier removed (not_removes_of_opcode opening.opcode (by
        cases forceStatic <;> cases delegate <;> rfl))
      exact (gone_afterCall opening indexed spares gone below before).of_state quiet.state
    | @created value salt initCode mid _ _ opening quiet answered =>
      have before := removedIn_earlier removed (not_removes_of_opcode opening.opcode (by
        cases salt <;> rfl))
      exact (gone_afterCreate opening indexed spares constructors gone below before).of_state
        quiet.state

end Frames

end Removed

/--
A destroyed account stays destroyed.

This holds of every run in which the steps after the removal leave the account alone, and in which no
account is removed while its own constructor runs.
-/
theorem destroyed_account_stays_destroyed (host : Host) (fuel : Nat) (evm last : Evm)
    (history : History Evm ExecutionResult) (result : ExecutionResult) (account : Address)
    (indexed : evm.state.SnapshotsIndexed)
    (traced : (machine host).trace fuel (syncLegacyStateIntoFork evm) =
      .value (history, result, last))
    (removed : removedIn history account = true)
    (spared : ∀ visited reached,
      (machine host).Reaches (syncLegacyStateIntoFork evm) visited reached →
        (machine host).running reached = true →
          (removedIn visited account = true → Spares host account reached) ∧
            ConstructorsLast host account reached) :
    ∃ final, run host fuel evm = .value (result, final) ∧
      final.state.getAccount account = {} := by
  refine ⟨_, run_of_trace traced, ?_⟩
  show last.state.getAccount account = {}
  -- From an empty past on, the invariant holds at every end that counts.
  have stays := Machine.Runs.invariant (StaysGone account)
    (fun past evm => evm.state.SnapshotsIndexed ∧
      (removedIn past account = true → Spares host account evm) ∧ ConstructorsLast host account evm)
    (fun running allowed gone resolved =>
      gone_of_resolves running allowed.1 allowed.2.1 allowed.2.2 gone resolved)
    ⟨fuel, traced⟩ [] ?_ ?_
  · exact stays removed
  · intro visited reached reaches running
    refine ⟨indexed_of_reaches ?_ reaches, spared visited reached reaches running⟩
    exact indexed.of_snapshots (syncLegacyStateIntoFork_snapshots evm)
  · intro none_
    cases none_

section Runs

/-- Whether a step leaves the account alone, for steps that store and create nothing. -/
def spares (host : Host) (account : Address) (evm : Evm) : Bool :=
  match evm.opcode with
  | none => true
  | some op => op ≠ .sstore && !op.isCreation &&
    (match evm.stack.data with
    | word :: _ => accountAddress word ≠ account || op ≠ .selfdestruct
    | [] => true) &&
    match step host evm with
    | .enter child _ _ => (child.balances.lookup account).getD 0 = 0 &&
      (child.nonces.lookup account).getD 0 = 0 && (child.contracts.lookup account).getD [] = [] &&
      child.storage.entries.isEmpty
    | _ => true

theorem spares_of_check {host : Host} {account : Address} {evm : Evm}
    (running : (machine host).running evm = true) (checked : spares host account evm = true) :
    Spares host account evm ∧ ConstructorsLast host account evm := by
  unfold spares at checked
  split at checked
  · rename_i ended
    exact absurd ended (opcode_of_running running)
  · rename_i op decoded
    simp only [Bool.and_eq_true, decide_eq_true_eq, Bool.not_eq_true'] at checked
    obtain ⟨⟨⟨storeless, ordinary⟩, kept⟩, opened⟩ := checked
    -- A creation would have failed the test.
    have uncreating : ∀ other, evm.opcode = some other → other.isCreation = true → False := by
      intro other named creation
      obtain rfl := Option.some.inj (decoded.symm.trans named)
      rw [ordinary] at creation
      cases creation
    refine ⟨⟨?_, ?_, ?_, ?_⟩, ?_⟩
    · intro store
      exact absurd (Option.some.inj (decoded.symm.trans store)) storeless
    · intro sofar child opens
      obtain ⟨_, _, begins⟩ := enter_of_enters opens.2
      rw [begins] at opened
      simp only [Bool.and_eq_true, decide_eq_true_eq, List.isEmpty_iff] at opened
      exact ⟨opened.1.1.1, opened.1.1.2, opened.1.2, fun _ => opened.2⟩
    · exact fun other _ _ named creation _ => (uncreating other named creation).elim
    · intro destroys word rest operands same
      obtain rfl := Option.some.inj (decoded.symm.trans destroys)
      -- A beneficiary other than the account was part of the test.
      simp [operands, same] at kept
    · exact fun other _ _ _ _ _ named creation _ _ _ => (uncreating other named creation).elim

/-- Code that destroys its own account in favour of the zero address. -/
def destroySelf : Bytes := [0x60, 0, 0xff]

/-- Code that calls one of the first accounts without value or input. -/
def callTo (target : UInt8) : Bytes :=
  [0x60, 0, 0x60, 0, 0x60, 0, 0x60, 0, 0x60, 0, 0x60, target, 0x61, 0xff, 0xff, 0xf1]

/-- Code that creates an account with the code above and calls it. -/
def createAndDestroy : Bytes :=
  -- The init code goes to the end of the first word of memory, and returns three bytes of it.
  [0x6b, 0x62] ++ destroySelf ++ [0x60, 0, 0x52, 0x60, 3, 0x60, 29, 0xf3] ++
    [0x60, 0, 0x52, 0x60, 12, 0x60, 20, 0x60, 0, 0xf0] ++
    [0x60, 0, 0x60, 0, 0x60, 0, 0x60, 0, 0x60, 0, 0x85, 0x61, 0xff, 0xff, 0xf1]

/-- A frame with some code, and with an account that this transaction has created. -/
def frameOf (code : Bytes) : Evm :=
  { Evm.newWithGas code 1000000 with
    context := { address := 0x0a }
    storageAddress := 0x0a
    state := { baseState := (∅ : HashMap Address AccountState).insert 0x0b { code := destroySelf } }
    createdInTransaction := {0x0b} }

theorem destroyed_account_stays_destroyed_after_call :
    ∃ history result last, (machine (tableHost [])).trace 30
        (syncLegacyStateIntoFork (frameOf (callTo 0x0b ++ callTo 0x0c))) =
          .value (history, result, last) ∧
      ∃ final, run (tableHost []) 30 (frameOf (callTo 0x0b ++ callTo 0x0c)) =
          .value (result, final) ∧ final.state.getAccount 0x0b = {} := by
  have traced : endsWith ((machine (tableHost [])).trace 30
      (syncLegacyStateIntoFork (frameOf (callTo 0x0b ++ callTo 0x0c))))
      (fun ended => removedIn ended.1 0x0b) = true := by
    decide +kernel
  have visited : (machine (tableHost [])).visitsOnly (fun _ => spares (tableHost []) 0x0b) 30
      [] (syncLegacyStateIntoFork (frameOf (callTo 0x0b ++ callTo 0x0c))) = true := by
    decide +kernel
  obtain ⟨⟨history, result, last⟩, traced, removed⟩ := exists_of_endsWith traced
  refine ⟨history, result, last, traced, ?_⟩
  apply destroyed_account_stays_destroyed (tableHost []) 30 (frameOf (callTo 0x0b ++ callTo 0x0c))
    last history result 0x0b ?_ traced removed
  · intro seen reached reaches running
    have passes := Machine.passes_of_visitsOnly visited reaches running
    exact ⟨fun _ => (spares_of_check running passes).1, (spares_of_check running passes).2⟩
  · intro position snapshot found
    simp [frameOf, Evm.newWithGas] at found

/--
A destroyed account comes back.

The creator has noted the code of the account that it created, and writes it into the fork again with
the next frame that it opens, for a call to somebody else.
-/
theorem destroyed_account_comes_back :
    ∃ earlier removal later result last, (machine createEmptyHost).trace 60
        (syncLegacyStateIntoFork (frameOf (createAndDestroy ++ callTo 0x0c))) =
          .value (earlier ++ removal :: later, result, last) ∧ result.isSuccess = true ∧
      Removes 0xf6a171f57acac30c292e223ea8adbb28abd3e14d removal ∧
      (∀ done ∈ later, done.before.opcode ≠ some .create ∧ done.before.opcode ≠ some .create2 ∧
        done.before.opcode ≠ some .selfdestruct) ∧
      ∃ final, run createEmptyHost 60 (frameOf (createAndDestroy ++ callTo 0x0c)) =
          .value (result, final) ∧
        (final.state.getAccount 0xf6a171f57acac30c292e223ea8adbb28abd3e14d).code = destroySelf := by
  have traced : endsWith ((machine createEmptyHost).trace 60
      (syncLegacyStateIntoFork (frameOf (createAndDestroy ++ callTo 0x0c))))
      (fun ended =>
        ended.2.1.isSuccess &&
        (match ended.1.drop 21 with
        | removal :: later => removes 0xf6a171f57acac30c292e223ea8adbb28abd3e14d removal &&
          later.all fun done => done.before.opcode ≠ some .create &&
            done.before.opcode ≠ some .create2 && done.before.opcode ≠ some .selfdestruct
        | [] => false) &&
        (ended.2.2.state.getAccount 0xf6a171f57acac30c292e223ea8adbb28abd3e14d).code =
          destroySelf) = true := by
    decide +kernel
  obtain ⟨⟨history, result, last⟩, traced, noted⟩ := exists_of_endsWith traced
  simp only [Bool.and_eq_true, decide_eq_true_eq] at noted
  obtain ⟨⟨succeeded, removed⟩, code⟩ := noted
  split at removed
  · rename_i removal later dropped
    simp only [Bool.and_eq_true, removes_iff, List.all_eq_true, decide_eq_true_eq] at removed
    -- The removal is the transition at which the computed history was cut.
    have halves := List.take_append_drop 21 history
    rw [dropped] at halves
    refine ⟨history.take 21, removal, later, result, last, ?_, succeeded, removed.1, ?_, _,
      run_of_trace traced, code⟩
    · rw [halves]
      exact traced
    · exact fun done member => ⟨(removed.2 done member).1.1, (removed.2 done member).1.2,
        (removed.2 done member).2⟩
  · cases removed

end Runs

end MiniEvm
