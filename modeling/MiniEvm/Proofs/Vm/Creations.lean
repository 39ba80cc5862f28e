import MiniEvm.Proofs.Vm.Ether

/-! Failed creations: what is put back, and which accounts stay marked as new. -/

namespace MiniEvm

open Frames

/--
Running on from this state marks the account as created by this transaction.

Either a creation answers with it, or it is marked in a frame below.
A failed call undoes the marks of its callee, while a failed creation keeps those of its constructor.
-/
inductive Marks (host : Host) (account : Address) : Evm → Prop
  | answers {evm kept result after} : (machine host).Steps evm kept result after →
      Creates account ⟨evm, result, after⟩ → Marks host account evm
  | inside {evm sofar child history outcome last op} : (machine host).Opens evm sofar child →
      (machine host).RunsNested child history outcome last → evm.opcode = some op →
      op.isCreation = true ∨ outcome.isSuccess = true →
      Marks host account (syncLegacyStateIntoFork child) → Marks host account evm
  | later {evm kept after} : (machine host).Steps evm kept .halt after →
      Marks host account after → Marks host account evm

section Marked

variable {host : Host} {evm after : Evm} {account : Address}
  {kept : History Evm ExecutionResult} {result : ExecutionResult}

/-- What a step does by itself marks nothing. -/
theorem Effect.createdInTransaction {op : Opcode} (effect : Effect evm op after) :
    after.createdInTransaction = evm.createdInTransaction := by
  cases effect with
  | plain _ drift => exact drift.createdInTransaction
  | sstore _ _ drift | tstore _ _ drift | log _ drift =>
    have same : _ = evm.createdInTransaction := drift.createdInTransaction
    exact same
  -- A removal drops an account, and leaves its mark.
  | @selfdestruct mid word _ _ _ drift =>
    rw [← drift.createdInTransaction]
    simp only [destroyAccount]
    split <;> rfl

theorem callOpcode_isCreation (forceStatic delegate : Bool) :
    (callOpcode forceStatic delegate).isCreation = false := by
  cases forceStatic <;> cases delegate <;> rfl

section Merges

variable {mid last : Evm} {value : Word} {salt : Option Word} {initCode : Bytes}
  {outcome : ExecutionResult}

/-- A creator keeps its own marks and those of its constructor, whatever became of it. -/
theorem marked_afterCreate : account ∈
      (afterCreate host mid value salt initCode outcome last).2.createdInTransaction ↔
    (createSucceeds host mid value salt initCode outcome last = true ∧
      account = createAddress host mid salt initCode) ∨
    account ∈ mid.createdInTransaction ∨ account ∈ last.createdInTransaction := by
  -- Marks come back either way; only a success adds that of the new account.
  cases succeeded : createSucceeds host mid value salt initCode outcome last with
  | true =>
    obtain ⟨_, _, created, _⟩ := afterCreate_of_success succeeded
    rw [created, Finset.mem_insert, Finset.mem_union]
    simp
  | false =>
    rw [afterCreate_abandons succeeded]
    show account ∈ mid.createdInTransaction ∪ last.createdInTransaction ↔ _
    rw [Finset.mem_union]
    simp

end Merges

/-- A step takes no mark back, as soon as the frame below it does not. -/
theorem StepsTo.keeps_marks
    {nested : Evm → History Evm ExecutionResult → ExecutionResult → Evm → Prop}
    (below : ∀ {child history outcome last}, nested child history outcome last →
      child.createdInTransaction ⊆ last.createdInTransaction)
    (stepped : StepsTo host nested evm kept result after) :
    evm.createdInTransaction ⊆ after.createdInTransaction := by
  cases stepped with
  | stopped drift _ => rw [drift.createdInTransaction]
  | done _ effect _ => rw [effect.createdInTransaction]
  | @called _ delegate setup mid history outcome last _ _ opening ran quiet =>
    rw [quiet.createdInTransaction, ← opening.drift.createdInTransaction]
    cases succeeded : outcome.isSuccess with
    | true =>
      rw [afterCall_of_success succeeded]
      -- The callee started with the marks of its caller.
      have kept := below ran
      exact kept
    | false =>
      simp only [afterCall, mergeCall, succeeded, Bool.false_eq_true, if_false]
      exact Finset.Subset.refl _
  | created opening ran quiet _ =>
    rw [quiet.createdInTransaction, ← opening.drift.createdInTransaction]
    exact fun account old => marked_afterCreate.mpr (.inr (.inl old))

/-- No run takes a mark back. -/
theorem runs_keeps_marks {start final : Evm} {history : History Evm ExecutionResult}
    (ran : (machine host).Runs start history result final) :
    start.createdInTransaction ⊆ final.createdInTransaction := by
  obtain ⟨fuel, looped⟩ := ran
  refine Machine.trace_relates (fun _ before after =>
      before.createdInTransaction ⊆ after.createdInTransaction) (fun _ => True)
    (fun _ => Finset.Subset.refl _) Finset.Subset.trans ?_ fuel (fun _ _ _ _ => trivial) looped
  intro state kept result after running _ resolved
  refine (stepsTo_of_resolves running resolved).keeps_marks ?_
  -- The frame below starts from the marks of its opener, and keeps them by induction.
  rintro child history outcome _ ⟨stop, _, keeps, rfl⟩
  rw [machine_closing, syncForkIntoLegacyState_createdInTransaction]
  exact keeps

/-- A step marks only what it answers with and what the frame below hands on. -/
theorem StepsTo.marks
    {nested : Evm → History Evm ExecutionResult → ExecutionResult → Evm → Prop}
    (stepped : StepsTo host nested evm kept result after)
    (member : account ∈ after.createdInTransaction) :
    account ∈ evm.createdInTransaction ∨ Creates account ⟨evm, result, after⟩ ∨
      ∃ child history outcome last op, nested child history outcome last ∧ evm.opcode = some op ∧
        (op.isCreation = true ∨ outcome.isSuccess = true) ∧
        account ∈ last.createdInTransaction := by
  cases stepped with
  | stopped drift _ => exact .inl (drift.createdInTransaction ▸ member)
  | done _ effect _ => exact .inl (effect.createdInTransaction ▸ member)
  | @called _ _ _ _ history outcome last _ _ opening ran quiet =>
    rw [quiet.createdInTransaction] at member
    -- A successful callee replaces the set, and a failed one leaves it alone.
    cases succeeded : outcome.isSuccess with
    | true =>
      rw [afterCall_of_success succeeded] at member
      exact .inr (.inr ⟨_, history, outcome, last, _, ran, opening.opcode, .inr succeeded, member⟩)
    | false =>
      simp only [afterCall, mergeCall, succeeded, Bool.false_eq_true, if_false] at member
      exact .inl (opening.drift.createdInTransaction ▸ member)
  | @created value salt initCode mid history outcome last _ _ opening ran quiet answered =>
    have creation := createOpcode_isCreation salt
    have recorded := quiet.createdInTransaction ▸ member
    rcases marked_afterCreate.mp recorded with ⟨succeeded, rfl⟩ | old | below
    · obtain ⟨_, _, _, answer⟩ := afterCreate_of_success succeeded
      exact .inr (.inl ⟨⟨_, opening.opcode, creation⟩, (answered _ answer).2, member⟩)
    · exact .inl (opening.drift.createdInTransaction ▸ old)
    · exact .inr (.inr ⟨_, history, outcome, last, _, ran, opening.opcode, .inl creation, below⟩)

/-- A frame is opened with the marks of its opener. -/
theorem Opened.createdInTransaction {child : Evm} (opened : Opened host evm child) :
    child.createdInTransaction = evm.createdInTransaction := by
  cases opened with
  | call opening => exact opening.drift.createdInTransaction
  | create opening => exact opening.drift.createdInTransaction

/-- A step marks only what it goes on to mark, as soon as that holds of the frame below. -/
theorem marks_of_nested (steps : (machine host).Steps evm kept result after)
    (nested : (step host evm).Resolves .halt ((machine host).Nests fun start _ _ final =>
      account ∈ final.createdInTransaction → account ∈ start.createdInTransaction ∨
        Marks host account start) kept result after)
    (member : account ∈ after.createdInTransaction) :
    account ∈ evm.createdInTransaction ∨ Marks host account evm := by
  have stepped := stepsTo_of_resolves steps.1
    (Machine.resolves_opened steps.1 Machine.Nests.runsNested nested)
  rcases stepped.marks member with old | creates | ⟨child, history, outcome, last, op,
    ⟨⟨sofar, opens⟩, nests⟩, decoded, passes, below⟩
  · exact .inl old
  · exact .inr (.answers steps creates)
  · have ran := nests.runsNested
    -- What the frame below hands on it had marked by its own end.
    obtain ⟨stop, _, marks, rfl⟩ := nests
    rw [machine_closing, syncForkIntoLegacyState_createdInTransaction] at below
    rcases marks below with old | deeper
    · -- What the frame began with it had from its opener.
      have opened := (opened_of_enters opens.2).2
      exact .inl (opened.createdInTransaction ▸ old)
    · exact .inr (.inside opens ran decoded passes deeper)

/-- What the frame below hands on is marked after the step. -/
theorem marked_of_opens {sofar history : History Evm ExecutionResult} {child last : Evm}
    {outcome : ExecutionResult} {op : Opcode} (opens : (machine host).Opens evm sofar child)
    (ended : (machine host).RunsNested child history outcome last)
    (decoded : evm.opcode = some op) (passes : op.isCreation = true ∨ outcome.isSuccess = true)
    (below : account ∈ last.createdInTransaction)
    (steps : (machine host).Steps evm kept result after) :
    account ∈ after.createdInTransaction := by
  obtain ⟨survives, resume, begins⟩ := enter_of_enters opens.2
  cases resumes_of_steps begins ended steps with
  | @called forceStatic delegate setup mid _ _ opening quiet =>
    -- A call is no creation, so it succeeded and its set was taken over.
    obtain rfl := Option.some.inj (decoded.symm.trans opening.opcode)
    rw [callOpcode_isCreation] at passes
    have succeeded := passes.resolve_left (by decide)
    rw [quiet.createdInTransaction, afterCall_of_success succeeded]
    exact below
  | created opening quiet _ =>
    rw [quiet.createdInTransaction]
    exact marked_afterCreate.mpr (.inr (.inr below))

/-- A finished run ends with the marks it began with and those it made. -/
theorem marked_iff {start final : Evm} {history : History Evm ExecutionResult}
    (ran : (machine host).Runs start history result final) :
    account ∈ final.createdInTransaction ↔
      account ∈ start.createdInTransaction ∨ Marks host account start := by
  constructor
  · intro member
    revert member
    refine Machine.Runs.induction (motive := fun start _ _ final =>
      account ∈ final.createdInTransaction → account ∈ start.createdInTransaction ∨
        Marks host account start) ?_ ?_ ?_ ran
    · exact fun _ member => .inl member
    · intro state kept result after steps nested _ member
      exact marks_of_nested steps nested member
    · intro state kept after later outcome final steps nested rest member
      rcases rest member with here | ahead
      · exact marks_of_nested steps nested here
      · exact .inr (.later steps ahead)
  · -- On how the mark was made: by a step, in a frame below one, or later on.
    rintro (old | marks)
    · exact runs_keeps_marks ran old
    · induction marks generalizing history result final with
      | @answers evm kept outcome after steps creates =>
        rcases ran.split steps with ⟨_, _, rfl⟩ | ⟨_, later, rest⟩
        · exact creates.recorded
        · exact runs_keeps_marks rest creates.recorded
      | @inside evm sofar child past outcome last op opens ended decoded passes _ ih =>
        obtain ⟨stop, looped, rfl⟩ := ended
        have marked : account ∈
            (syncForkIntoLegacyState host stop).createdInTransaction := by
          rw [syncForkIntoLegacyState_createdInTransaction]
          exact ih looped
        obtain ⟨kept, result, after, steps⟩ := ran.first opens.1
        have handed := marked_of_opens opens ⟨stop, looped, rfl⟩ decoded passes marked steps
        rcases ran.split steps with ⟨_, _, rfl⟩ | ⟨_, later, rest⟩
        · exact handed
        · exact runs_keeps_marks rest handed
      | @later evm kept after steps _ ih =>
        -- A run goes on behind its first step unless that has ended it.
        rcases ran.split steps with ⟨stopped, _⟩ | ⟨_, later, rest⟩
        · exact absurd rfl stopped
        · exact ih rest

end Marked

section Failures

/-- What a failed creation must leave as it was: the fork, the logs, the marks, and three maps. -/
structure RolledBack (before after : Evm) : Prop where
  state : after.state = before.state
  logs : after.logs = before.logs
  createdInTransaction : after.createdInTransaction = before.createdInTransaction
  contracts : after.contracts = before.contracts
  storage : after.storage = before.storage
  -- Maps are equal when every key leads to the same entry, and an entry of zero is one.
  balances : ∀ account, after.balances.lookup account = before.balances.lookup account

variable {host : Host} {mid last : Evm} {value : Word} {salt : Option Word} {initCode : Bytes}
  {outcome : ExecutionResult} {newAddr : Address}

/-- The old balance that a creation has read for the new account, once it has paid. -/
def targetBalance (mid : Evm) (value : Word) (newAddr : Address) : Word :=
  ((mid.balances.insert mid.selfAddress (mid.legacyBalance mid.selfAddress - value)).lookup
    newAddr).getD 0

/-- A failed creation puts back two balances, whether there were any or not. -/
theorem afterCreate_balances
    (failed : createSucceeds host mid value salt initCode outcome last = false)
    (account : Address) :
    (afterCreate host mid value salt initCode outcome last).2.balances.lookup account =
      if account = createAddress host mid salt initCode then
        some (targetBalance mid value (createAddress host mid salt initCode))
      else if account = mid.selfAddress then some (mid.legacyBalance mid.selfAddress)
      else mid.balances.lookup account := by
  rw [afterCreate_abandons failed]
  generalize created : createAddress host mid salt initCode = newAddr
  -- Both were written once when the value moved, and once more when it moved back.
  have written : (abandonDeploy (joinDeploy (startDeploy host mid value salt initCode).2 outcome
        last) (startDeploy host mid value salt initCode).1).balances =
      ((((mid.balances.insert mid.selfAddress (mid.legacyBalance mid.selfAddress - value)).insert
        newAddr (targetBalance mid value newAddr + value)).insert mid.selfAddress
          (mid.legacyBalance mid.selfAddress)).insert newAddr
            (targetBalance mid value newAddr)) := by
    rw [← created]
    rfl
  rw [written]
  by_cases isNew : account = newAddr
  · rw [if_pos isNew, isNew, AList.lookup_insert]
  · rw [if_neg isNew, AList.lookup_insert_ne isNew]
    by_cases isCreator : account = mid.selfAddress
    · rw [if_pos isCreator, isCreator, AList.lookup_insert]
    · rw [if_neg isCreator, AList.lookup_insert_ne isCreator, AList.lookup_insert_ne isNew,
        AList.lookup_insert_ne isCreator]

theorem targetBalance_self (mid : Evm) (value : Word) :
    targetBalance mid value mid.selfAddress = mid.legacyBalance mid.selfAddress - value := by
  simp [targetBalance]

theorem targetBalance_other (value : Word) (other : newAddr ≠ mid.selfAddress) :
    targetBalance mid value newAddr = mid.legacyBalance newAddr := by
  simp only [targetBalance, AList.lookup_insert_ne other]
  rfl

/-- An entry is put back as it was exactly when there was one. -/
theorem some_legacyBalance_iff (mid : Evm) (account : Address) :
    some (mid.legacyBalance account) = mid.balances.lookup account ↔ account ∈ mid.balances := by
  rw [← AList.lookup_isSome, Evm.legacyBalance]
  cases mid.balances.lookup account <;> simp

/-- The balances are as before exactly when there were two entries to put back. -/
theorem balances_restored_iff
    (failed : createSucceeds host mid value salt initCode outcome last = false)
    (created : newAddr = createAddress host mid salt initCode) :
    (∀ account, (afterCreate host mid value salt initCode outcome last).2.balances.lookup account =
        mid.balances.lookup account) ↔
      mid.selfAddress ∈ mid.balances ∧ newAddr ∈ mid.balances ∧
        (newAddr = mid.selfAddress → value = 0) := by
  subst created
  simp only [afterCreate_balances failed]
  generalize createAddress host mid salt initCode = newAddr
  by_cases own : newAddr = mid.selfAddress
  · -- An account that creates onto itself gets back what it had after it paid.
    subst own
    rw [targetBalance_self]
    constructor
    · intro same
      have restored := same mid.selfAddress
      rw [if_pos rfl] at restored
      -- What is written is an entry, so there must have been one before.
      have listed : mid.selfAddress ∈ mid.balances := by
        rw [← AList.lookup_isSome, ← restored]
        rfl
      rw [← (some_legacyBalance_iff mid _).mpr listed, Option.some.injEq] at restored
      refine ⟨listed, listed, fun _ => ?_⟩
      bv_omega
    · rintro ⟨listed, _, unpaid⟩ account
      split
      · rename_i here
        rw [here, unpaid rfl, (some_legacyBalance_iff mid _).mpr listed |>.symm]
        simp
      · rfl
  · rw [targetBalance_other value own]
    constructor
    · intro same
      -- The two written entries are looked at one by one, and the others are untouched.
      have atNew := same newAddr
      have atCreator := same mid.selfAddress
      rw [if_pos rfl, some_legacyBalance_iff] at atNew
      rw [if_neg (Ne.symm own), if_pos rfl, some_legacyBalance_iff] at atCreator
      exact ⟨atCreator, atNew, fun same => absurd same own⟩
    · rintro ⟨creator, target, _⟩ account
      split
      · rename_i here
        rw [here]
        exact (some_legacyBalance_iff mid _).mpr target
      · split
        · rename_i here
          rw [here]
          exact (some_legacyBalance_iff mid _).mpr creator
        · rfl

/-- The marks are as before exactly when the constructor made no new ones. -/
theorem marks_restored_iff {history : History Evm ExecutionResult}
    (failed : createSucceeds host mid value salt initCode outcome last = false)
    (ran : (machine host).RunsNested (createdFrame host mid value salt initCode) history outcome
      last) :
    (afterCreate host mid value salt initCode outcome last).2.createdInTransaction =
        mid.createdInTransaction ↔
      ∀ account, Marks host account
          (syncLegacyStateIntoFork (createdFrame host mid value salt initCode)) →
        account ∈ mid.createdInTransaction := by
  have joined : (afterCreate host mid value salt initCode outcome last).2.createdInTransaction =
      mid.createdInTransaction ∪ last.createdInTransaction := by
    rw [afterCreate_abandons failed]
    rfl
  obtain ⟨stop, looped, rfl⟩ := ran
  -- The constructor began with the marks of its creator.
  have marked : ∀ account, account ∈ stop.createdInTransaction ↔
      account ∈ mid.createdInTransaction ∨ Marks host account
        (syncLegacyStateIntoFork (createdFrame host mid value salt initCode)) :=
    fun account => marked_iff looped
  rw [joined, machine_closing, syncForkIntoLegacyState_createdInTransaction, Finset.union_eq_left]
  constructor
  · intro inside account marks
    exact inside ((marked account).mpr (.inr marks))
  · intro unmarked account member
    rcases (marked account).mp member with old | marks
    · exact old
    · exact unmarked account marks

/--
A failed creation is rolled back exactly when nothing of it can be left over.

The creator and the new account must have entries in the old balance map, since both are written
back, and no account may have been marked as new by the constructor or in a frame below it, since
those marks are kept.
-/
theorem failed_creation_rolled_back_iff (host : Host) (evm : Evm) (op : Opcode) (value : Word)
    (child : Evm) (keptGas : Nat)
    (resume : ExecutionResult → Evm → Tree Evm ExecutionResult Fault Unit)
    (fuel : Nat) (ended : ExecutionResult) (final : Evm) (result : ExecutionResult) (after : Evm)
    (indexed : evm.state.SnapshotsIndexed) (decoded : evm.opcode = some op)
    (creates : op.isCreation = true) (operand : evm.stack.data.head? = some value)
    (opens : step host evm = .enter child (deploySucceeds keptGas) resume)
    (ran : runChild host fuel child = .value (ended, final))
    (failed : deploySucceeds keptGas ended final = false)
    (stepped : stepFrame host fuel evm = .value (result, after)) :
    RolledBack evm after ↔
      evm.selfAddress ∈ evm.balances ∧ child.selfAddress ∈ evm.balances ∧
        (child.selfAddress = evm.selfAddress → value = 0) ∧
        ∀ account, Marks host account (syncLegacyStateIntoFork child) →
          account ∈ evm.createdInTransaction := by
  -- Both the step and its child are read as runs of the machine.
  obtain ⟨kept, resolved⟩ := stepFrame_eq_value stepped
  obtain ⟨history, nested⟩ := runChild_eq_value.mp ran
  have steps := (machine host).steps_of_resolve (running_of_opcode decoded) resolved
  have finished := (machine host).runsNested_of_nested nested
  generalize deploySucceeds keptGas = survives at opens failed
  cases resumes_of_steps opens finished steps with
  | @called forceStatic delegate setup mid _ _ opening _ =>
    -- Calls are no creations.
    obtain rfl := Option.some.inj (decoded.symm.trans opening.opcode)
    rw [callOpcode_isCreation] at creates
    cases creates
  | @created paid salt initCode mid _ _ opening quiet answered =>
    have drift := opening.drift
    have fresh : mid.state.Fresh := by
      rw [drift.state]
      exact indexed.fresh
    -- The value is the first operand.
    obtain rfl : paid = value := by
      obtain ⟨offset, size, operands⟩ := opening.operands
      rw [operands] at operand
      exact Option.some.inj operand
    have balances := balances_restored_iff failed rfl
    have marks := marks_restored_iff failed finished
    rw [← createdFrame_selfAddress, drift.selfAddress, drift.balances] at balances
    rw [drift.createdInTransaction] at marks
    have abandons := afterCreate_abandons failed
    constructor
    · intro rolledBack
      -- The quiet end of the step does not touch what the abandoned creation left.
      have entries := balances.mp fun account => by
        rw [← quiet.balances]
        exact rolledBack.balances account
      have unmarked := marks.mp (by
        rw [← quiet.createdInTransaction]
        exact rolledBack.createdInTransaction)
      exact ⟨entries.1, entries.2.1, entries.2.2, unmarked⟩
    · rintro ⟨creator, created, unpaid, unmarked⟩
      -- Whatever the constructor wrote is reverted, and the rest was never touched.
      exact {
        state := by rw [quiet.state, (afterCreate_of_failure fresh failed).1, drift.state]
        logs := by
          rw [quiet.logs, abandons]
          exact drift.logs
        createdInTransaction := by
          rw [quiet.createdInTransaction]
          exact marks.mpr unmarked
        contracts := by
          rw [quiet.contracts, abandons]
          exact drift.contracts
        storage := by
          rw [quiet.storage, abandons]
          exact drift.storage
        balances := by
          rw [quiet.balances]
          exact balances.mpr ⟨creator, created, unpaid⟩ }

/-- Code that opens no frame marks nothing. -/
theorem not_marks_of_opensNothing {host : Host} {account : Address} {evm : Evm}
    (closed : opensNothing evm.code = true) : ¬ Marks host account evm := by
  intro marks
  -- A mark comes of a creation, or from below a frame, and there is neither.
  induction marks with
  | answers steps creates =>
    obtain ⟨op, decoded, creation⟩ := creates.opcode
    have quiet := opensFrame_of_opensNothing closed decoded
    rw [opensFrame_of_isCreation creation] at quiet
    cases quiet
  | inside opens => exact not_opens_of_opensNothing closed opens
  | later steps _ ih =>
    apply ih
    rw [(stepsTo_of_steps steps).sameFrame.code]
    exact closed

/-- A frame about to create an account from the init code in its memory, without any value. -/
def creator (initCode : Bytes) (balances : HashMap Address Word) : Evm :=
  { Evm.newWithGas [0xf0] 1000000 with
    stack := ⟨[0, 0, BitVec.ofNat 256 initCode.length], by simp⟩
    memory := resize initCode 32
    balances
    context := { address := 0x0a }
    storageAddress := 0x0a }

/-- The hashes behind the first account of the creator, and behind the first one of that. -/
def creatorHost : Host :=
  tableHost [([0xd6, 0x94, 0, 0, 0, 0, 0, 0, 0, 0, 0, 0, 0, 0, 0, 0, 0, 0, 0, 0, 0, 0x0a, 0x80],
      0x3d090c08c3cdd2bd86609a51f6a171f57acac30c292e223ea8adbb28abd3e14d),
    ([0xd6, 0x94, 0xf6, 0xa1, 0x71, 0xf5, 0x7a, 0xca, 0xc3, 0x0c, 0x29, 0x2e, 0x22, 0x3e, 0xa8,
        0xad, 0xbb, 0x28, 0xab, 0xd3, 0xe1, 0x4d, 0x80],
      0xebc703230e1b3ac1eba3ddfedcd9ceb877441856aafee00ead9727f82f6c20a8)]

/-- An old balance map that lists the creator and the account it is about to create. -/
def listedBalances : HashMap Address Word :=
  ((∅ : HashMap Address Word).insert 0x0a 5).insert 0xf6a171f57acac30c292e223ea8adbb28abd3e14d 0

/-- Whether a creation opens a constructor of which the test holds. -/
def createsWith (host : Host) (evm : Evm)
    (test : Evm → (ExecutionResult → Evm → Bool) → Bool) : Bool :=
  match step host evm with
  | .enter child survives _ => test child survives
  | _ => false

theorem exists_of_createsWith {host : Host} {evm : Evm} {op : Opcode}
    {test : Evm → (ExecutionResult → Evm → Bool) → Bool} (decoded : evm.opcode = some op)
    (creates : op.isCreation = true) (tested : createsWith host evm test = true) :
    ∃ child keptGas resume, step host evm = .enter child (deploySucceeds keptGas) resume ∧
      test child (deploySucceeds keptGas) = true := by
  unfold createsWith at tested
  have shape := stepShape host evm
  generalize step host evm = tree at tested shape ⊢
  cases shape with
  | idle _ => cases tested
  -- A step that stays in its frame does not pass the test.
  | leaf _ leaf =>
    cases tree with
    | enter child survives resume => exact leaf.elim
    | _ => cases tested
  | @call forceStatic delegate _ _ opening =>
    obtain rfl := Option.some.inj (decoded.symm.trans opening.opcode)
    rw [callOpcode_isCreation] at creates
    cases creates
  | create opening => exact ⟨_, _, _, rfl, tested⟩

theorem failed_creation_rolled_back_invalid :
    ∃ child keptGas resume ended final result after,
      step creatorHost (creator [0xfe] listedBalances) =
          .enter child (deploySucceeds keptGas) resume ∧
        runChild creatorHost 2 child = .value (ended, final) ∧
        deploySucceeds keptGas ended final = false ∧
        stepFrame creatorHost 2 (creator [0xfe] listedBalances) = .value (result, after) ∧
        RolledBack (creator [0xfe] listedBalances) after := by
  -- The opened frame, its run and the whole step are computed one after the other.
  have opened : createsWith creatorHost (creator [0xfe] listedBalances) (fun child survives =>
      child.selfAddress ∈ (creator [0xfe] listedBalances).balances && opensNothing child.code &&
        endsWith (runChild creatorHost 2 child) fun ended => !survives ended.1 ended.2) = true := by
    decide +kernel
  have stepped : endsWith (stepFrame creatorHost 2 (creator [0xfe] listedBalances))
      (fun _ => true) = true := by
    decide +kernel
  obtain ⟨child, keptGas, resume, begins, tested⟩ := exists_of_createsWith rfl rfl opened
  simp only [Bool.and_eq_true, decide_eq_true_eq] at tested
  obtain ⟨⟨listed, closed⟩, ran⟩ := tested
  obtain ⟨⟨ended, final⟩, ran, failed⟩ := exists_of_endsWith ran
  obtain ⟨⟨result, after⟩, stepped, _⟩ := exists_of_endsWith stepped
  have failed : deploySucceeds keptGas ended final = false := by simpa using failed
  refine ⟨child, keptGas, resume, ended, final, result, after, begins, ran, failed, stepped, ?_⟩
  refine (failed_creation_rolled_back_iff creatorHost (creator [0xfe] listedBalances) .create 0
    child keptGas resume 2 ended final result after
    (fun _ _ found => by simp [creator, Evm.newWithGas] at found) rfl rfl rfl
    begins ran failed stepped).mpr ⟨by decide, listed, fun _ => rfl, ?_⟩
  intro account marks
  exact absurd marks (not_marks_of_opensNothing closed)

/-- A constructor that creates an empty account and then fails. -/
def createThenFail : Bytes := [0x60, 0, 0x60, 0, 0x60, 0, 0xf0, 0xfe]

/--
A failed creation leaves something behind.

The account that its constructor created stays marked as new, and a balance of zero appears in a
map that had none.
-/
theorem failed_creation_leaves_marks_and_zeros :
    ∃ child keptGas resume ended final result after,
      step creatorHost (creator createThenFail ∅) =
          .enter child (deploySucceeds keptGas) resume ∧
        runChild creatorHost 10 child = .value (ended, final) ∧
        deploySucceeds keptGas ended final = false ∧
        stepFrame creatorHost 10 (creator createThenFail ∅) = .value (result, after) ∧
        (creator createThenFail ∅).createdInTransaction = ∅ ∧
        0xdcd9ceb877441856aafee00ead9727f82f6c20a8 ∈ after.createdInTransaction ∧
        (creator createThenFail ∅).balances.lookup 0x0a = none ∧
        after.balances.lookup 0x0a = some 0 ∧
        ¬ RolledBack (creator createThenFail ∅) after := by
  -- The constructor marks an account of its own before it fails.
  have opened : createsWith creatorHost (creator createThenFail ∅) (fun child survives =>
      endsWith (runChild creatorHost 10 child) fun ended => !survives ended.1 ended.2) = true := by
    decide +kernel
  have stepped : endsWith (stepFrame creatorHost 10 (creator createThenFail ∅)) (fun ended =>
      0xdcd9ceb877441856aafee00ead9727f82f6c20a8 ∈ ended.2.createdInTransaction &&
        ended.2.balances.lookup 0x0a = some 0) = true := by
    decide +kernel
  obtain ⟨child, keptGas, resume, begins, tested⟩ := exists_of_createsWith rfl rfl opened
  obtain ⟨⟨ended, final⟩, ran, failed⟩ := exists_of_endsWith tested
  obtain ⟨⟨result, after⟩, stepped, noted⟩ := exists_of_endsWith stepped
  simp only [Bool.and_eq_true, decide_eq_true_eq] at noted
  refine ⟨child, keptGas, resume, ended, final, result, after, begins, ran, by simpa using failed,
    stepped, rfl, noted.1, rfl, noted.2, ?_⟩
  intro rolledBack
  have same := rolledBack.balances 0x0a
  rw [noted.2] at same
  cases same

end Failures

end MiniEvm
