import MiniEvm.Frames.Check
import MiniEvm.Proofs.State.Supply
import MiniEvm.Proofs.Vm.Merges
import MiniEvm.Vm.Simulation

/-! Ether over whole runs: who may lose some, and where a creation makes or destroys it. -/

namespace MiniEvm

open Frames

/-- The opcodes that create an account. -/
def Opcode.isCreation : Opcode → Bool
  | create | create2 => true
  | _ => false

/-- Creations open a frame. -/
theorem opensFrame_of_isCreation {op : Opcode} (creation : op.isCreation = true) :
    op.opensFrame = true := by
  unfold Opcode.isCreation at creation
  split at creation
  · rfl
  · rfl
  · cases creation

/-- What a completed step burned: the balance of an account it removed in favour of itself. -/
def selfBurn (done : Transition Evm ExecutionResult) : Option (Address × Nat) :=
  match done.before.opcode, done.before.stack.data with
  | some .selfdestruct, word :: _ =>
    let account := done.before.selfAddress
    -- Naming another beneficiary moves the balance, and an older account is not removed.
    if done.result = .halt ∧ accountAddress word = account ∧
        account ∈ done.before.createdInTransaction then
      some (account, (done.before.state.getBalance account).toNat)
    else none
  | _, _ => none

/-- What the frames that were not reverted burned in all. -/
def burned : History Evm ExecutionResult → Nat
  | [] => 0
  | done :: rest => (selfBurn done).elim 0 Prod.snd + burned rest

/-- This account burned its balance in a frame that was not reverted. -/
def BurnedIn (history : History Evm ExecutionResult) (account : Address) : Prop :=
  ∃ done ∈ history, ∃ amount, selfBurn done = some (account, amount)

/-- A creation that answered with this account. -/
structure Creates (account : Address) (done : Transition Evm ExecutionResult) : Prop where
  opcode : ∃ op, done.before.opcode = some op ∧ op.isCreation = true
  answer : done.after.stack.data.head? = some (account.setWidth 256)
  recorded : account ∈ done.after.createdInTransaction

/-- This account was created in a frame that was not reverted. -/
def CreatedIn (history : History Evm ExecutionResult) (account : Address) : Prop :=
  ∃ done ∈ history, Creates account done

/--
No ether was made, and only created accounts burned any.

The sum of all balances has to fit a word, which is what keeps a credit from wrapping.
-/
structure Conserves (history : History Evm ExecutionResult) (before after : Evm) : Prop where
  total : before.state.totalBalance < 2 ^ 256 →
    after.state.totalBalance + burned history = before.state.totalBalance
  created : ∀ account ∈ after.createdInTransaction,
    account ∈ before.createdInTransaction ∨ CreatedIn history account
  burners : ∀ account, BurnedIn history account →
    account ∈ before.createdInTransaction ∨ CreatedIn history account

section Histories

variable {first second : History Evm ExecutionResult} {account : Address}

/-- What burns in two parts of a run burns in the whole. -/
theorem burned_append (first second : History Evm ExecutionResult) :
    burned (first ++ second) = burned first + burned second := by
  -- The sum is taken from the front.
  induction first with
  | nil => simp [burned]
  | cons done rest ih => simp only [List.cons_append, burned, ih, Nat.add_assoc]

/-- One step burns what it sweeps onto a removed account. -/
theorem burned_single (done : Transition Evm ExecutionResult) :
    burned [done] = (selfBurn done).elim 0 Prod.snd := Nat.add_zero _

/-- What burns in a run burns in one of its parts. -/
theorem BurnedIn.split (burns : BurnedIn (first ++ second) account) :
    BurnedIn first account ∨ BurnedIn second account := by
  obtain ⟨done, member, amount, burnt⟩ := burns
  rcases List.mem_append.mp member with early | late
  · exact .inl ⟨done, early, amount, burnt⟩
  · exact .inr ⟨done, late, amount, burnt⟩

/-- An account that was created stays so when the run goes on. -/
theorem CreatedIn.before (creates : CreatedIn first account) :
    CreatedIn (first ++ second) account := by
  obtain ⟨done, member, created⟩ := creates
  exact ⟨done, List.mem_append_left _ member, created⟩

/-- It also does when steps come before. -/
theorem CreatedIn.after (creates : CreatedIn second account) :
    CreatedIn (first ++ second) account := by
  obtain ⟨done, member, created⟩ := creates
  exact ⟨done, List.mem_append_right _ member, created⟩

end Histories

namespace Conserves

variable {first second : History Evm ExecutionResult} {a b c : Evm}

/-- Moving no ether and creating nothing conserves. -/
theorem of_same
    (total : a.state.totalBalance < 2 ^ 256 → b.state.totalBalance = a.state.totalBalance)
    (created : b.createdInTransaction = a.createdInTransaction) : Conserves [] a b where
  total := total
  created := fun account member => .inl (created ▸ member)
  burners := by
    rintro account ⟨done, member, _⟩
    cases member

/-- Nothing is lost where nothing happens. -/
theorem refl (evm : Evm) : Conserves [] evm evm := of_same (fun _ => rfl) rfl

/-- Losses add up along a run. -/
theorem trans (one : Conserves first a b) (other : Conserves second b c) :
    Conserves (first ++ second) a c where
  total := by
    intro bounded
    have left := one.total bounded
    have right := other.total (by omega)
    rw [burned_append]
    omega
  created := by
    intro account member
    rcases other.created account member with middle | late
    · exact (one.created account middle).imp_right CreatedIn.before
    · exact .inr late.after
  burners := by
    intro account burns
    rcases burns.split with early | late
    · exact (one.burners account early).imp_right CreatedIn.before
    · -- An account that the first part left in the set was in it before, or created on the way.
      rcases other.burners account late with middle | created
      · exact (one.created account middle).imp_right CreatedIn.before
      · exact .inr created.after

/-- A step that burns nothing adds only to what was created. -/
theorem snoc {done : Transition Evm ExecutionResult} (conserves : Conserves first a b)
    (burns : selfBurn done = none) : Conserves (first ++ [done]) a b where
  total := by
    intro bounded
    have sofar := conserves.total bounded
    rwa [burned_append, burned_single, burns]
  created := fun account member => (conserves.created account member).imp_right CreatedIn.before
  burners := by
    intro account burnt
    -- The last step burned nothing, so whoever burned did so before it.
    rcases burnt.split with early | ⟨step, member, amount, here⟩
    · exact (conserves.burners account early).imp_right CreatedIn.before
    · rw [List.mem_singleton.mp member, burns] at here
      cases here

end Conserves

section Effects

variable {evm after : Evm} {result : ExecutionResult}

/-- Only a self-destruction burns. -/
theorem selfBurn_of_opcode {op : Opcode} (decoded : evm.opcode = some op)
    (other : op ≠ .selfdestruct) : selfBurn ⟨evm, result, after⟩ = none := by
  unfold selfBurn
  simp only [decoded]
  split
  · rename_i found _
    exact absurd (Option.some.inj found) other
  · rfl

/-- A completed self-destruction burns what its account leaves to itself. -/
theorem selfBurn_of_selfdestruct {word : Word} {rest : List Word}
    (decoded : evm.opcode = some .selfdestruct) (operands : evm.stack.data = word :: rest) :
    selfBurn ⟨evm, .halt, after⟩ =
      if accountAddress word = evm.selfAddress ∧ evm.selfAddress ∈ evm.createdInTransaction then
        some (evm.selfAddress, (evm.state.getBalance evm.selfAddress).toNat) else none := by
  simp only [selfBurn, decoded, operands, true_and]

/-- Only a step that reached its end burns. -/
theorem selfBurn_of_result (early : result ≠ .halt) : selfBurn ⟨evm, result, after⟩ = none := by
  unfold selfBurn
  split
  · exact if_neg fun burnt => early burnt.1
  · rfl

/-- Sweeping an account into another one keeps the sum. -/
theorem totalBalance_sweepBalance (state : StateFork) (account beneficiary : Address)
    (bounded : state.totalBalance < 2 ^ 256) :
    (sweepBalance state account beneficiary).totalBalance = state.totalBalance := by
  unfold sweepBalance
  split
  · rfl
  · rename_i other
    -- Debiting first would have come to the same.
    have transferred := state.totalBalance_transfer account beneficiary (state.getBalance account)
      bounded (BitVec.le_refl _)
    refine Eq.trans (StateFork.totalBalance_congr fun reader => ?_) transferred
    simp only [StateFork.getBalance_setBalance, BitVec.sub_self, if_neg (Ne.symm other)]
    by_cases swept : reader = account
    · simp [swept, other]
    · simp [swept]

/-- Removing an account takes its balance out of the sum. -/
theorem totalBalance_removeAccount (evm : Evm) (account : Address) :
    (removeAccount evm account).state.totalBalance + (evm.state.getBalance account).toNat =
      evm.state.totalBalance := by
  -- To every reader the removed account has nothing left.
  have reads : ∀ reader, (removeAccount evm account).state.getBalance reader =
      if reader = account then 0 else evm.state.getBalance reader := by
    intro reader
    simp only [removeAccount, StateFork.getBalance, StateFork.getAccount_erase]
    split <;> rfl
  have others : ∀ reader, reader ≠ account →
      (removeAccount evm account).state.getBalance reader = evm.state.getBalance reader := by
    intro reader other
    rw [reads, if_neg other]
  have updated := StateFork.totalBalance_of_update account others
  rw [reads, if_pos rfl] at updated
  simpa using updated

/-- Self-destruction keeps the sum, but for what an account leaves to itself. -/
theorem totalBalance_destroyAccount (evm : Evm) (beneficiary : Address)
    (bounded : evm.state.totalBalance < 2 ^ 256) :
    (destroyAccount evm beneficiary).state.totalBalance +
        (if beneficiary = evm.selfAddress ∧ evm.selfAddress ∈ evm.createdInTransaction then
          (evm.state.getBalance evm.selfAddress).toNat else 0) =
      evm.state.totalBalance := by
  have swept := totalBalance_sweepBalance evm.state evm.selfAddress beneficiary bounded
  simp only [destroyAccount]
  split
  · rename_i created
    have removed := totalBalance_removeAccount
      { evm with state := sweepBalance evm.state evm.selfAddress beneficiary } evm.selfAddress
    by_cases own : beneficiary = evm.selfAddress
    · -- Nothing was swept, so the whole balance goes with the account.
      simp only [own, created, and_self, if_true]
      simpa [sweepBalance, own] using removed
    · -- What was swept away is no longer there to be removed.
      have emptied : ((sweepBalance evm.state evm.selfAddress beneficiary).getBalance
          evm.selfAddress).toNat = 0 := by
        simp [sweepBalance, Ne.symm own, StateFork.getBalance_setBalance]
      simp only [emptied, Nat.add_zero] at removed
      simp only [own, false_and, if_false, Nat.add_zero, removed, swept]
  · -- An older account stays, and has only been swept.
    rename_i old
    simp only [old, and_false, if_false, Nat.add_zero, swept]

/-- What a step does by itself conserves. -/
theorem Effect.conserves {op : Opcode} (decoded : evm.opcode = some op)
    (effect : Effect evm op after) : Conserves [⟨evm, .halt, after⟩] evm after := by
  cases effect with
  | plain plain drift =>
    refine (Conserves.of_same (fun _ => ?_) drift.createdInTransaction).snoc
      (selfBurn_of_opcode decoded (by rintro rfl; cases plain))
    rw [drift.state]
  | @sstore mid key val _ _ _ drift =>
    refine (Conserves.of_same (fun _ => ?_) ?_).snoc (selfBurn_of_opcode decoded (by simp))
    · rw [← drift.state]
      exact StateFork.totalBalance_congr fun reader => StateFork.getBalance_setStorage ..
    · exact drift.createdInTransaction
  | tstore _ _ drift =>
    refine (Conserves.of_same (fun _ => ?_) ?_).snoc (selfBurn_of_opcode decoded (by simp))
    · rw [← drift.state]
      exact StateFork.totalBalance_congr fun reader => rfl
    · exact drift.createdInTransaction
  | log _ drift =>
    refine (Conserves.of_same (fun _ => ?_) ?_).snoc (selfBurn_of_opcode decoded (by simp))
    · rw [← drift.state]
    · exact drift.createdInTransaction
  | @selfdestruct mid word rest _ operands drift =>
    have self : mid.selfAddress = evm.selfAddress := drift.selfAddress
    have created : (destroyAccount mid (accountAddress word)).createdInTransaction =
        evm.createdInTransaction := by
      rw [← drift.createdInTransaction]
      simp only [destroyAccount]
      split <;> rfl
    constructor
    · -- The record and the fork agree on whether and how much was burned.
      intro bounded
      rw [← drift.state] at bounded
      have destroyed := totalBalance_destroyAccount mid (accountAddress word) bounded
      rw [self, drift.state, drift.createdInTransaction] at destroyed
      have amount : burned [⟨evm, .halt, destroyAccount mid (accountAddress word)⟩] =
          if accountAddress word = evm.selfAddress ∧ evm.selfAddress ∈ evm.createdInTransaction then
            (evm.state.getBalance evm.selfAddress).toNat else 0 := by
        rw [burned_single, selfBurn_of_selfdestruct decoded operands]
        split <;> rfl
      rw [amount, destroyed]
    · exact fun account member => .inl (created ▸ member)
    · rintro account ⟨done, member, amount, burnt⟩
      obtain rfl := List.mem_singleton.mp member
      rw [selfBurn_of_selfdestruct decoded operands] at burnt
      split at burnt
      · rename_i own
        simp only [Option.some.injEq, Prod.mk.injEq] at burnt
        exact .inl (burnt.1 ▸ own.2)
      · cases burnt

end Effects

section Creations

variable {host : Host} {evm : Evm}

/-- The balance of an account in the old balance map. -/
def Evm.legacyBalance (evm : Evm) (account : Address) : Word :=
  (evm.balances.lookup account).getD 0

/-- The old balances that a creation goes by are those of the fork. -/
structure FundsAgree (evm child : Evm) : Prop where
  maps : BalancesAgree evm
  creator : evm.legacyBalance evm.selfAddress = evm.state.getBalance evm.selfAddress
  created : evm.legacyBalance child.selfAddress = evm.state.getBalance child.selfAddress

variable {value : Word} {salt : Option Word} {initCode : Bytes} {mid : Evm}

/-- A constructor runs as the new account. -/
theorem createdFrame_selfAddress : (createdFrame host mid value salt initCode).selfAddress =
    createAddress host mid salt initCode := by
  -- Both of its addresses are the new account.
  unfold Evm.selfAddress
  split <;> rfl

/-- The two old balances as they are when the value has been moved. -/
theorem createdFrame_balances (host : Host) (mid : Evm) (value : Word) (salt : Option Word)
    (initCode : Bytes) :
    ∃ target, (createdFrame host mid value salt initCode).balances =
        (mid.balances.insert mid.selfAddress
          (mid.legacyBalance mid.selfAddress - value)).insert
            (createAddress host mid salt initCode) (target + value) ∧
      (createdFrame host mid value salt initCode).state =
        (mid.state.snapshot.2.setBalance mid.selfAddress
          (mid.legacyBalance mid.selfAddress - value)).setBalance
            (createAddress host mid salt initCode) (target + value) ∧
      target = if createAddress host mid salt initCode = mid.selfAddress then
          mid.legacyBalance mid.selfAddress - value
        else mid.legacyBalance (createAddress host mid salt initCode) := by
  refine ⟨_, rfl, rfl, ?_⟩
  -- The target is read after the debit, which shows when the creator creates onto itself.
  by_cases own : createAddress host mid salt initCode = mid.selfAddress
  · rw [if_pos own, own]
    show ((mid.balances.insert mid.selfAddress _).lookup mid.selfAddress).getD 0 = _
    rw [AList.lookup_insert]
    rfl
  · rw [if_neg own]
    show ((mid.balances.insert mid.selfAddress _).lookup _).getD 0 = _
    rw [AList.lookup_insert_ne own]
    rfl

/-- A creation funded from balances that agree is a transfer, after which they still agree. -/
theorem CreateOpening.transfers (opening : CreateOpening evm value salt mid)
    (agree : FundsAgree evm (createdFrame host mid value salt initCode)) :
    (evm.state.totalBalance < 2 ^ 256 →
      (createdFrame host mid value salt initCode).state.totalBalance = evm.state.totalBalance) ∧
    BalancesAgree (createdFrame host mid value salt initCode) := by
  have self : mid.selfAddress = evm.selfAddress := opening.drift.selfAddress
  have state : mid.state = evm.state := opening.drift.state
  have legacy : ∀ account, mid.legacyBalance account = evm.legacyBalance account := by
    intro account
    simp only [Evm.legacyBalance, opening.drift.balances]
  have created := agree.created
  rw [createdFrame_selfAddress] at created
  obtain ⟨target, balances, funded, targetIs⟩ :=
    createdFrame_balances host mid value salt initCode
  have afforded : value ≤ evm.state.getBalance evm.selfAddress := by
    rw [← agree.creator, ← legacy, ← self]
    exact opening.funded
  generalize createAddress host mid salt initCode = newAddr at *
  rw [legacy, self, agree.creator] at balances funded targetIs
  rw [legacy, created] at targetIs
  rw [state] at funded
  -- So the credit starts from what the debited fork says, too.
  have held : target = (evm.state.snapshot.2.setBalance evm.selfAddress
      (evm.state.getBalance evm.selfAddress - value)).getBalance newAddr := by
    rw [StateFork.getBalance_setBalance, StateFork.getBalance_snapshot]
    exact targetIs
  constructor
  · intro bounded
    rw [funded, held]
    exact StateFork.totalBalance_transfer evm.state.snapshot.2 evm.selfAddress newAddr value
      bounded afforded
  · -- An entry is one of the two that were just written, or was there and agreed before.
    rintro ⟨account, balance⟩ member
    rw [balances, ← AList.mem_lookup_iff] at member
    rw [funded, StateFork.getBalance_setBalance]
    by_cases isNew : account = newAddr
    · rw [isNew, AList.lookup_insert] at member
      rw [if_pos isNew]
      exact Option.some.inj member
    · rw [AList.lookup_insert_ne isNew] at member
      rw [if_neg isNew, StateFork.getBalance_setBalance]
      by_cases isCreator : account = evm.selfAddress
      · rw [isCreator, AList.lookup_insert] at member
        rw [if_pos isCreator]
        exact Option.some.inj member
      · rw [AList.lookup_insert_ne isCreator, opening.drift.balances,
          AList.mem_lookup_iff] at member
        rw [if_neg isCreator]
        exact agree.maps ⟨account, balance⟩ member

end Creations

/--
The creations of this step go by the right balances and leave no account behind in vain.

A creation that answers zero has failed, and must not have added to the set of new accounts.
-/
structure CreationsSound (host : Host) (evm : Evm) : Prop where
  funded : ∀ op sofar child, evm.opcode = some op → op.isCreation = true →
    (machine host).Opens evm sofar child → FundsAgree evm child
  forgets : ∀ op kept result after, evm.opcode = some op → op.isCreation = true →
    (machine host).Steps evm kept result after → after.stack.data.head? = some 0 →
    after.createdInTransaction ⊆ evm.createdInTransaction

section Runs

variable {host : Host} {evm after : Evm} {kept : History Evm ExecutionResult}
  {result : ExecutionResult}

/-- A nested frame conserves if its loop does and its copy moves no balance. -/
theorem conserves_of_within {child last : Evm} {history : History Evm ExecutionResult}
    {outcome : ExecutionResult} (agrees : BalancesAgree child)
    (within : (machine host).Within Conserves child history outcome last) :
    Conserves history child last := by
  obtain ⟨stop, _, conserves, rfl⟩ := within
  -- Neither copy moves a balance or creates an account.
  have opened : Conserves [] child (syncLegacyStateIntoFork child) :=
    .of_same (fun _ => StateFork.totalBalance_congr (getBalance_syncLegacyStateIntoFork agrees)) rfl
  have closed : Conserves [] stop (syncForkIntoLegacyState host stop) :=
    .of_same (fun _ => by rw [syncForkIntoLegacyState_state])
      (syncForkIntoLegacyState_createdInTransaction stop)
  show Conserves history child (syncForkIntoLegacyState host stop)
  simpa using (opened.trans conserves).trans closed

/-- Both creating opcodes are creations. -/
theorem createOpcode_isCreation (salt : Option Word) : (createOpcode salt).isCreation = true := by
  cases salt <;> rfl

/-- A call of a frame that conserves conserves, whether it succeeds or is reverted. -/
theorem CallOpening.conserves {forceStatic delegate : Bool} {setup : CallSetup} {mid last : Evm}
    {history : History Evm ExecutionResult} {outcome : ExecutionResult}
    (opening : CallOpening evm forceStatic delegate setup mid)
    (indexed : evm.state.SnapshotsIndexed)
    (nested : Conserves history (calledFrame mid delegate setup) last)
    (quiet : Quiet (afterCall mid outcome last) after) :
    Conserves ((if outcome.isSuccess then history else []) ++ [⟨evm, result, after⟩]) evm after := by
  have entered : Conserves [] evm (calledFrame mid delegate setup) :=
    .of_same (fun _ => by rw [← opening.drift.state]; exact StateFork.totalBalance_congr fun _ => rfl)
      opening.drift.createdInTransaction
  have other : callOpcode forceStatic delegate ≠ .selfdestruct := by
    cases forceStatic <;> cases delegate <;> decide
  rw [← opening.drift.state] at indexed
  -- The call itself burns nothing, so only the merge is left.
  apply Conserves.snoc _ (selfBurn_of_opcode opening.opcode other)
  cases succeeded : outcome.isSuccess with
  | true =>
    rw [afterCall_of_success succeeded] at quiet
    have left : Conserves [] last after :=
      .of_same (fun _ => by rw [quiet.state]) quiet.createdInTransaction
    simpa using (entered.trans nested).trans left
  | false =>
    rw [afterCall_of_failure indexed.fresh succeeded] at quiet
    apply Conserves.of_same
    · intro _
      rw [quiet.state, ← opening.drift.state]
    · exact quiet.createdInTransaction.trans opening.drift.createdInTransaction

section Created

variable {value : Word} {salt : Option Word} {initCode : Bytes} {mid last : Evm}
  {history : History Evm ExecutionResult} {outcome : ExecutionResult}

/-- No creation burns by itself. -/
theorem CreateOpening.selfBurn (opening : CreateOpening evm value salt mid) :
    selfBurn ⟨evm, result, after⟩ = none := by
  apply selfBurn_of_opcode opening.opcode
  cases salt <;> simp [createOpcode]

/-- A creation that succeeded conserves, and adds the account it answers with. -/
theorem CreateOpening.conserves_of_success (opening : CreateOpening evm value salt mid)
    (inside : Conserves history evm last)
    (quiet : Quiet (afterCreate host mid value salt initCode outcome last).2 after)
    (answered : Answered (afterCreate host mid value salt initCode outcome last).1 result after)
    (succeeded : createSucceeds host mid value salt initCode outcome last = true) :
    Conserves (history ++ [⟨evm, result, after⟩]) evm after := by
  obtain ⟨code, state, created, answer⟩ := afterCreate_of_success succeeded
  have noted : Conserves (history ++ [⟨evm, result, after⟩]) evm last :=
    inside.snoc opening.selfBurn
  have total : after.state.totalBalance = last.state.totalBalance := by
    rw [quiet.state, state]
    exact StateFork.totalBalance_congr fun _ => StateFork.getBalance_setCode ..
  have recorded := quiet.createdInTransaction.trans created
  refine ⟨?_, ?_, noted.burners⟩
  · rw [total]
    exact noted.total
  · intro account member
    rw [recorded, Finset.mem_insert, Finset.mem_union] at member
    rcases member with rfl | old | below
    · -- The new account is the one this very step answers with.
      right
      refine ⟨_, List.mem_append_right _ (List.mem_singleton.mpr rfl), ?_⟩
      exact ⟨⟨_, opening.opcode, createOpcode_isCreation salt⟩, (answered _ answer).2,
        by rw [recorded]; exact Finset.mem_insert_self _ _⟩
    · exact .inl (opening.drift.createdInTransaction ▸ old)
    · exact noted.created account below

/-- A creation that failed conserves, as long as it leaves no account behind. -/
theorem CreateOpening.conserves_of_failure (opening : CreateOpening evm value salt mid)
    (indexed : evm.state.SnapshotsIndexed)
    (quiet : Quiet (afterCreate host mid value salt initCode outcome last).2 after)
    (failed : createSucceeds host mid value salt initCode outcome last = false)
    (forgotten : after.createdInTransaction ⊆ evm.createdInTransaction) :
    Conserves [⟨evm, result, after⟩] evm after := by
  rw [← opening.drift.state] at indexed
  have same : Conserves ([] ++ [⟨evm, result, after⟩]) evm evm :=
    (Conserves.refl evm).snoc opening.selfBurn
  refine ⟨?_, ?_, same.burners⟩
  · rw [quiet.state, (afterCreate_of_failure indexed.fresh failed).1, opening.drift.state]
    exact same.total
  · exact fun account member => .inl (forgotten member)

end Created

/-- One step conserves, as soon as the frames it opens do. -/
theorem conserves_of_resolves (running : (machine host).running evm = true)
    (allowed : evm.state.SnapshotsIndexed ∧ CreationsSound host evm)
    (resolved : (step host evm).Resolves .halt ((machine host).Within Conserves)
      kept result after) :
    Conserves (kept ++ [⟨evm, result, after⟩]) evm after := by
  obtain ⟨indexed, sound⟩ := allowed
  have steps : (machine host).Steps evm kept result after :=
    ⟨running, resolved.mono fun _ within => within.runsNested⟩
  cases stepsTo_of_resolves running (Machine.resolves_within_opened running resolved) with
  | stopped drift early =>
    refine (Conserves.of_same (fun _ => ?_) drift.createdInTransaction).snoc
      (selfBurn_of_result early)
    rw [drift.state]
  | done decoded effect _ => exact effect.conserves decoded
  | called opening ran quiet =>
    -- A callee has no old balances, so its copy has nothing to move.
    have nested := conserves_of_within (fun entry member => by cases member) ran.2
    exact opening.conserves indexed nested quiet
  | @created value salt initCode mid history outcome last _ _ opening ran quiet answered =>
    obtain ⟨⟨sofar, opens⟩, within⟩ := ran
    have creation := createOpcode_isCreation salt
    -- The value was moved from one balance to another, and the copies agree on both.
    obtain ⟨moved, agrees⟩ :=
      opening.transfers (sound.funded _ sofar _ opening.opcode creation opens)
    have entered : Conserves [] evm (createdFrame host mid value salt initCode) :=
      .of_same moved opening.drift.createdInTransaction
    cases succeeded : createSucceeds host mid value salt initCode outcome last with
    | true =>
      have inside : Conserves history evm last := entered.trans (conserves_of_within agrees within)
      simpa using opening.conserves_of_success inside quiet answered succeeded
    | false =>
      have fresh := opening.drift.state ▸ indexed.fresh
      have answer := (answered _ (afterCreate_of_failure fresh succeeded).2).2
      have forgotten := sound.forgets _ _ _ _ opening.opcode creation steps answer
      simpa using opening.conserves_of_failure indexed quiet succeeded forgotten

/-- A loop conserves, while all its creations are sound. -/
theorem conserves_of_trace {start final : Evm} {fuel : Nat}
    {history : History Evm ExecutionResult} (indexed : start.state.SnapshotsIndexed)
    (sound : ∀ seen visited, (machine host).Reaches start seen visited →
      CreationsSound host visited)
    (looped : (machine host).trace fuel start = .value (history, result, final)) :
    Conserves history start final :=
  Machine.trace_relates Conserves
    (fun visited => visited.state.SnapshotsIndexed ∧ CreationsSound host visited)
    Conserves.refl Conserves.trans conserves_of_resolves fuel
    (fun seen visited reaches _ =>
      ⟨indexed_of_reaches indexed reaches, sound seen visited reaches⟩) looped

end Runs

/-- A simulation that its caller can pay for starts with the ether of the fork it was given. -/
theorem totalBalance_simulationVm (state : StateFork) (caller target : Address) (value : Word)
    (input : Bytes) (gasLimit : Nat) (bounded : state.totalBalance < 2 ^ 256)
    (afforded : value ≤ state.getBalance caller) :
    (simulationVm state caller target value input gasLimit).state.totalBalance =
      state.totalBalance :=
  StateFork.totalBalance_transfer state.snapshot.2 caller target value bounded afforded

/--
Ether is conserved by execution.

A successful simulation whose creations are sound ends with the ether it started with, less what
accounts burned that it created and that destroyed themselves in their own favour.
-/
theorem ether_conserved (host : Host) (fuel : Nat) (state : StateFork) (caller target : Address)
    (value : Word) (input : Bytes) (gasLimit : Nat) (outcome : SimulationResult)
    (indexed : state.SnapshotsIndexed) (bounded : state.totalBalance < 2 ^ 256)
    (sound : ∀ seen visited, (machine host).Reaches
      (syncLegacyStateIntoFork (simulationVm state caller target value input gasLimit)) seen visited →
        CreationsSound host visited)
    (simulated : simulateTx host fuel state caller target value input gasLimit = .value outcome)
    (succeeded : outcome.success = true) :
    ∃ history result last vm,
      (machine host).trace fuel
        (syncLegacyStateIntoFork (simulationVm state caller target value input gasLimit)) =
          .value (history, result, last) ∧
      run host fuel (simulationVm state caller target value input gasLimit) = .value (result, vm) ∧
      vm.state.totalBalance + burned history = state.totalBalance ∧
      ∀ account, BurnedIn history account → CreatedIn history account := by
  unfold simulateTx at simulated
  split at simulated
  · -- A caller that cannot pay is told so, which is no success.
    simp only [Outcome.pure_eq, Outcome.value.injEq] at simulated
    rw [← simulated] at succeeded
    cases succeeded
  · rename_i covered
    obtain ⟨⟨result, vm⟩, ran, _⟩ := Outcome.bind_eq_value simulated
    obtain ⟨history, last, looped, final⟩ := run_eq_value ran
    -- The value moved once before the run began.
    have start := totalBalance_simulationVm state caller target value input gasLimit bounded
      (BitVec.not_lt.mp covered)
    have conserves := conserves_of_trace (indexed.snapshot.of_snapshots (by rfl)) sound looped
    refine ⟨history, result, last, vm, looped, ran, ?_, ?_⟩
    · have total := conserves.total (by rw [← start] at bounded; exact bounded)
      rw [final]
      exact total.trans start
    · intro account burns
      exact (conserves.burners account burns).resolve_left (Finset.notMem_empty account)

/-- The one hash that this asks for: of the creator's address and its first nonce. -/
def createEmptyHost : Host :=
  tableHost [([0xd6, 0x94, 0, 0, 0, 0, 0, 0, 0, 0, 0, 0, 0, 0, 0, 0, 0, 0, 0, 0, 0, 0x0a, 0x80],
    0x3d090c08c3cdd2bd86609a51f6a171f57acac30c292e223ea8adbb28abd3e14d)]

/-- Whether the creation that a step makes, if any, is sound. -/
def createsSoundly (host : Host) (fuel : Nat) (evm : Evm) : Bool :=
  match evm.opcode with
  | none => true
  | some op => !op.isCreation ||
    (match step host evm with
    | .enter child _ _ =>
      evm.balances.entries.all (fun entry => evm.state.getBalance entry.1 = entry.2) &&
        evm.legacyBalance evm.selfAddress = evm.state.getBalance evm.selfAddress &&
        evm.legacyBalance child.selfAddress = evm.state.getBalance child.selfAddress
    | _ => true) &&
    match stepFrame host fuel evm with
    | .value (_, after) => after.stack.data.head? ≠ some 0
    | _ => false

/-- What the check passes is sound. -/
theorem creationsSound_of_check {host : Host} {fuel : Nat} {evm : Evm}
    (checked : createsSoundly host fuel evm = true) : CreationsSound host evm := by
  constructor
  · intro op sofar child decoded creation opens
    obtain ⟨_, _, begins⟩ := enter_of_enters opens.2
    simp only [createsSoundly, decoded, creation, begins, Bool.not_true, Bool.false_or,
      Bool.and_eq_true, List.all_eq_true, decide_eq_true_eq] at checked
    obtain ⟨⟨⟨maps, creator⟩, created⟩, _⟩ := checked
    exact ⟨maps, creator, created⟩
  · intro op kept result after decoded creation steps answer
    simp only [createsSoundly, decoded, creation, Bool.not_true, Bool.false_or,
      Bool.and_eq_true] at checked
    obtain ⟨_, answered⟩ := checked
    -- The step that was computed is the step that was taken, and it did not answer zero.
    cases stepped : stepFrame host fuel evm with
    | outOfFuel => simp [stepped] at answered
    | fault cause => simp [stepped] at answered
    | value ended =>
      obtain ⟨outcome, other⟩ := ended
      obtain ⟨past, resolved⟩ := stepFrame_eq_value stepped
      obtain ⟨_, _, rfl⟩ := ((machine host).steps_of_resolve steps.1 resolved).unique steps
      simp [stepped, answer] at answered

/-- An account without ether that creates another one, and then calls one that pays out a
hundred. -/
def payOut : StateFork where
  baseState := ((∅ : HashMap Address AccountState).insert 0x0a
    { code := [0x60, 0, 0x60, 0, 0x60, 0, 0xf0,
        0x60, 0, 0x60, 0, 0x60, 0, 0x60, 0, 0x60, 0, 0x60, 0x0c, 0x61, 0xff, 0xff, 0xf1] }).insert
    0x0c { balance := 100, code := [0x60, 0x0b, 0xff] }

/-- Both frames below end in success, and the hundred are still there. -/
theorem ether_conserved_pay_out :
    ∃ history result last vm,
      (machine createEmptyHost).trace 20
        (syncLegacyStateIntoFork (simulationVm payOut 0x01 0x0a 0 [] 100000)) =
          .value (history, result, last) ∧
      run createEmptyHost 20 (simulationVm payOut 0x01 0x0a 0 [] 100000) = .value (result, vm) ∧
      vm.state.totalBalance + burned history = payOut.totalBalance ∧
      ∀ account, BurnedIn history account → CreatedIn history account := by
  have ended : endsWith (simulateTx createEmptyHost 20 payOut 0x01 0x0a 0 [] 100000)
      (fun outcome => outcome.success) = true := by
    decide +kernel
  have checked : (machine createEmptyHost).visitsOnly (fun _ => createsSoundly createEmptyHost 20)
      20 [] (syncLegacyStateIntoFork (simulationVm payOut 0x01 0x0a 0 [] 100000)) = true := by
    decide +kernel
  obtain ⟨outcome, simulated, succeeded⟩ := exists_of_endsWith ended
  refine ether_conserved createEmptyHost 20 payOut 0x01 0x0a 0 [] 100000 outcome
    (fun _ _ found => by simp [payOut] at found) (by decide +kernel) ?_ simulated succeeded
  intro seen visited reaches
  cases running : (machine createEmptyHost).running visited with
  | true => exact creationsSound_of_check (Machine.passes_of_visitsOnly checked reaches running)
  | false =>
    -- A frame that has stopped takes no step.
    constructor
    · intro op sofar child _ _ opens
      exact absurd (running.symm.trans opens.1) (by decide)
    · intro op kept result after _ _ steps
      exact absurd (running.symm.trans steps.1) (by decide)

/-- An account with some ether that creates another one with no ether and no code. -/
def createEmpty : StateFork where
  -- Three zero operands: value, offset and size.
  baseState := (∅ : HashMap Address AccountState).insert 0x0a
    { balance := 100, code := [0x60, 0, 0x60, 0, 0x60, 0, 0xf0] }

/--
A creation destroys ether.

It goes by the old balance map, which a simulation leaves empty, and so all that the creator has
is gone without any self-destruction.
-/
theorem create_destroys_ether :
    createEmpty.totalBalance = 100 ∧
      (∃ outcome, simulateTx createEmptyHost 10 createEmpty 0x01 0x0a 0 [] 100000 =
        .value outcome ∧ outcome.success = true) ∧
      ∃ history result last vm,
        (machine createEmptyHost).trace 10
          (syncLegacyStateIntoFork (simulationVm createEmpty 0x01 0x0a 0 [] 100000)) =
            .value (history, result, last) ∧
        run createEmptyHost 10 (simulationVm createEmpty 0x01 0x0a 0 [] 100000) =
          .value (result, vm) ∧
        burned history = 0 ∧ vm.state.totalBalance = 0 := by
  have ended : endsWith ((machine createEmptyHost).trace 10
      (syncLegacyStateIntoFork (simulationVm createEmpty 0x01 0x0a 0 [] 100000)))
      (fun ended => burned ended.1 = 0 ∧
        ended.2.2.state.clearTransientStorage.totalBalance = 0) = true := by
    decide +kernel
  -- The run and the simulation around it are computed separately.
  have simulated : endsWith (simulateTx createEmptyHost 10 createEmpty 0x01 0x0a 0 [] 100000)
      (fun outcome => outcome.success) = true := by
    decide +kernel
  obtain ⟨⟨history, result, last⟩, looped, noted⟩ := exists_of_endsWith ended
  obtain ⟨kept, gone⟩ := of_decide_eq_true noted
  exact ⟨by decide +kernel, exists_of_endsWith simulated, history, result, last, _, looped,
    run_of_trace looped, kept, gone⟩

end MiniEvm
