import MiniEvm.Proofs.Vm.Predictions
import MiniEvm.Proofs.Vm.Slots

/-! The snapshots that calls and creations leave behind: one for every frame that succeeds. -/

namespace MiniEvm

open Frames

/-- A step opens a frame that comes to what its opener counts as a success. -/
def OpensSurvivor (host : Host) (evm : Evm) : Prop :=
  ∃ child survives resume history outcome last, step host evm = .enter child survives resume ∧
    (machine host).RunsNested child history outcome last ∧ survives outcome last = true

/-- One step of a frame, after which the frame goes on. -/
def OwnStep (host : Host) (evm after : Evm) : Prop :=
  ∃ kept, (machine host).Steps evm kept .halt after

/-- Some step of the frame that starts here opens a frame that succeeds. -/
def NestsSurvivor (host : Host) (start : Evm) : Prop :=
  ∃ evm, Relation.ReflTransGen (OwnStep host) start evm ∧ OpensSurvivor host evm

section Steps

variable {host : Host} {evm after child last : Evm} {kept history : History Evm ExecutionResult}
  {result outcome : ExecutionResult}

/-- A run takes snapshots on top of those it started with. -/
theorem snapshots_of_runs (indexed : evm.state.SnapshotsIndexed)
    (ran : (machine host).Runs evm history result after) :
    after.state.SnapshotsIndexed ∧ evm.state.snapshots <+: after.state.snapshots := by
  obtain ⟨fuel, traced⟩ := ran
  -- Over a state without accounts no removal needs to be looked at.
  have keeps : Keeps {} evm.state after.state :=
    keeps_of_trace indexed (fun _ _ _ _ _ _ => ⟨rfl, rfl, rfl, fun _ => rfl⟩) traced
  exact ⟨keeps.indexed, keeps.snapshots⟩

/-- So the frame below ends with at least the snapshots that its opener gave it. -/
theorem snapshots_of_nested (indexed : child.state.SnapshotsIndexed)
    (ran : (machine host).RunsNested child history outcome last) :
    child.state.snapshots.length ≤ last.state.snapshots.length := by
  obtain ⟨stop, runs, rfl⟩ := ran
  have start : ((machine host).opening child).state.snapshots = child.state.snapshots :=
    syncLegacyStateIntoFork_snapshots child
  have more := (snapshots_of_runs (indexed.of_snapshots start) runs).2.length_le
  rw [start] at more
  rwa [machine_closing, syncForkIntoLegacyState_state]

/-- A frame that succeeds leaves the snapshot that was taken for it, and one that fails does not. -/
theorem Resumes.snapshots {survives : ExecutionResult → Evm → Bool}
    (indexed : evm.state.SnapshotsIndexed)
    (ran : (machine host).RunsNested child history outcome last)
    (resumes : Resumes host evm outcome last child survives result after) :
    if survives outcome last then evm.state.snapshots.length < after.state.snapshots.length
    else after.state.snapshots = evm.state.snapshots := by
  cases resumes with
  | @called _ delegate setup mid _ _ opening quiet =>
    rw [← opening.drift.state] at indexed ⊢
    rw [quiet.state]
    split
    next succeeded =>
      -- The callee's own steps only add snapshots.
      have more := snapshots_of_nested (by exact indexed.snapshot) ran
      rw [afterCall_of_success succeeded]
      refine Nat.lt_of_lt_of_le ?_ more
      show _ < (mid.state.snapshots ++ [_]).length
      rw [List.length_append, List.length_singleton]
      exact Nat.lt_succ_self _
    -- The revert drops the snapshot together with all later ones.
    next failed =>
      rw [afterCall_of_failure indexed.fresh (by simpa using failed)]
  | @created value salt initCode mid _ _ opening quiet _ =>
    rw [← opening.drift.state] at indexed ⊢
    rw [quiet.state]
    split
    next succeeded =>
      have more := snapshots_of_nested (indexed.snapshot.of_snapshots (by rfl)) ran
      obtain ⟨code, state, _⟩ := afterCreate_of_success succeeded
      rw [state]
      refine Nat.lt_of_lt_of_le ?_ more
      show _ < (mid.state.snapshots ++ [_]).length
      rw [List.length_append, List.length_singleton]
      exact Nat.lt_succ_self _
    next failed =>
      rw [(afterCreate_of_failure indexed.fresh (by simpa using failed)).1]

/-- A step that opens no survivor leaves the snapshots as they are, and any other leaves more. -/
theorem snapshots_of_steps (indexed : evm.state.SnapshotsIndexed)
    (steps : (machine host).Steps evm kept result after) :
    (OpensSurvivor host evm → evm.state.snapshots.length < after.state.snapshots.length) ∧
      (¬ OpensSurvivor host evm → after.state.snapshots = evm.state.snapshots) := by
  cases stepEnds_of_resolves steps.1 steps.2 with
  | alone closed ends =>
    refine ⟨fun ⟨_, _, _, _, _, _, begins, _⟩ => absurd begins (closed _ _ _), fun _ => ?_⟩
    rcases ends with ⟨drift, _⟩ | ⟨op, _, effect, _⟩
    · rw [drift.state]
    · exact effect.snapshots
  | @resumed child survives resume _ outcome last _ _ begins ran resumes =>
    have counted := resumes.snapshots indexed ran
    constructor
    · rintro ⟨_, _, _, _, _, _, begins', ran', survived⟩
      -- There is one frame that the step opens, and one end that it comes to.
      rw [begins] at begins'
      cases begins'
      obtain ⟨_, rfl, rfl⟩ := ran.unique ran'
      rwa [if_pos survived] at counted
    · intro none_of
      have died : ¬ survives outcome last = true :=
        fun survived => none_of ⟨_, _, _, _, _, _, begins, ran, survived⟩
      rwa [if_neg died] at counted

/-- And it keeps them at their positions. -/
theorem indexed_of_steps (indexed : evm.state.SnapshotsIndexed)
    (steps : (machine host).Steps evm kept .halt after) : after.state.SnapshotsIndexed :=
  indexed_of_reaches indexed (.step .refl steps)

theorem length_snapshots_iff (indexed : evm.state.SnapshotsIndexed)
    (steps : (machine host).Steps evm kept result after) :
    after.state.snapshots.length = evm.state.snapshots.length ↔ ¬ OpensSurvivor host evm := by
  obtain ⟨more, same⟩ := snapshots_of_steps indexed steps
  constructor
  · intro equal survivor
    exact absurd equal (Nat.ne_of_gt (more survivor))
  · intro none_of
    rw [same none_of]

end Steps

section Runs

variable {host : Host} {start final : Evm} {history : History Evm ExecutionResult}
  {outcome : ExecutionResult}

/-- A frame that has stopped opens nothing. -/
theorem not_nestsSurvivor_of_idle (idle : (machine host).running start = false) :
    ¬ NestsSurvivor host start := by
  rintro ⟨evm, path, child, survives, resume, _, _, _, begins, _⟩
  -- Neither the state itself takes a step, nor is there one behind it.
  rcases path.cases_head with rfl | ⟨_, ⟨kept, steps⟩, _⟩
  · have outside : ¬ start.pc < start.code.length := of_decide_eq_false idle
    have stopped : start.opcode = none := by simp [Evm.opcode, Nat.le_of_not_lt outside]
    rw [step_of_idle stopped] at begins
    cases begins
  · rw [steps.1] at idle
    cases idle

/-- A frame nests a survivor where its first step or the rest of it does. -/
theorem nestsSurvivor_iff {kept : History Evm ExecutionResult} {after : Evm}
    (steps : (machine host).Steps start kept .halt after) :
    NestsSurvivor host start ↔ OpensSurvivor host start ∨ NestsSurvivor host after := by
  constructor
  · rintro ⟨evm, path, opens⟩
    rcases path.cases_head with rfl | ⟨next, ⟨kept', steps'⟩, rest⟩
    · exact .inl opens
    · -- A state has one step at most.
      obtain ⟨_, _, rfl⟩ := steps.unique steps'
      exact .inr ⟨evm, rest, opens⟩
  · rintro (opens | ⟨evm, rest, opens⟩)
    · exact ⟨start, .refl, opens⟩
    · exact ⟨evm, .head ⟨kept, steps⟩ rest, opens⟩

/-- A frame that ends with its first step nests only what that step opens. -/
theorem nestsSurvivor_iff_of_stop {kept : History Evm ExecutionResult} {after : Evm}
    (steps : (machine host).Steps start kept outcome after) (stopped : outcome ≠ .halt) :
    NestsSurvivor host start ↔ OpensSurvivor host start := by
  constructor
  · rintro ⟨evm, path, opens⟩
    rcases path.cases_head with rfl | ⟨next, ⟨kept', steps'⟩, _⟩
    · exact opens
    · obtain ⟨_, halted, _⟩ := steps.unique steps'
      exact absurd halted stopped
  · exact fun opens => ⟨start, .refl, opens⟩

/-- A frame loses no snapshot, and gains none exactly if it nests no survivor. -/
theorem length_snapshots_of_runs (indexed : start.state.SnapshotsIndexed)
    (ran : (machine host).Runs start history outcome final) :
    start.state.snapshots.length ≤ final.state.snapshots.length ∧
      (final.state.snapshots.length = start.state.snapshots.length ↔
        ¬ NestsSurvivor host start) := by
  refine Machine.Runs.induction (motive := fun start _ _ final => start.state.SnapshotsIndexed →
    start.state.snapshots.length ≤ final.state.snapshots.length ∧
      (final.state.snapshots.length = start.state.snapshots.length ↔
        ¬ NestsSurvivor host start)) ?_ ?_ ?_ ran indexed
  · intro state idle _
    exact ⟨Nat.le_refl _, iff_of_true rfl (not_nestsSurvivor_of_idle idle)⟩
  · intro state kept result after steps _ stopped indexed
    obtain ⟨more, same⟩ := snapshots_of_steps indexed steps
    rw [nestsSurvivor_iff_of_stop steps stopped]
    refine ⟨?_, length_snapshots_iff indexed steps⟩
    by_cases opens : OpensSurvivor host state
    · exact (more opens).le
    · rw [same opens]
  · intro state kept after later outcome final steps _ rest indexed
    obtain ⟨more, same⟩ := snapshots_of_steps indexed steps
    obtain ⟨le, iff⟩ := rest (indexed_of_steps indexed steps)
    rw [nestsSurvivor_iff steps]
    -- What the first step gains the rest of the frame keeps.
    by_cases opens : OpensSurvivor host state
    · have gained := more opens
      exact ⟨by omega, iff_of_false (by omega) (fun none_of => none_of (.inl opens))⟩
    · rw [same opens] at le iff
      exact ⟨le, iff.trans (by simp [opens])⟩

end Runs

section Chains

variable {host : Host} {start final : StateFork} {state after : StateFork}
  {tx : SignedTransaction} {done : List (StateFork × SignedTransaction)}

/-- A transaction succeeds, and one of the frames that its own frame opens does so too. -/
def LeavesSnapshot (host : Host) (state : StateFork) (tx : SignedTransaction) : Prop :=
  ∃ vm history result last, executedFrame host state tx = some vm ∧
    (machine host).Runs (syncLegacyStateIntoFork vm) history result last ∧
    result.isSuccess = true ∧ NestsSurvivor host (syncLegacyStateIntoFork vm)

/-- Transactions applied one after the other, each with the state that it was applied to. -/
inductive Mined (host : Host) (start : StateFork) :
    List (StateFork × SignedTransaction) → StateFork → Prop
  | none : Mined host start [] start
  | next {done state tx fuel answer after} : Mined host start done state →
      applySignedTransaction host fuel state tx = .value (answer, after) →
      Mined host start (done ++ [(state, tx)]) after

/-- One transaction loses no snapshot, and gains none exactly if it leaves none. -/
theorem length_snapshots_of_transaction {fuel : Nat}
    {answer : Except ExecutionError TxExecutionReceipt} (indexed : state.SnapshotsIndexed)
    (applied : applySignedTransaction host fuel state tx = .value (answer, after)) :
    after.SnapshotsIndexed ∧ state.snapshots.length ≤ after.snapshots.length ∧
      (after.snapshots.length = state.snapshots.length ↔ ¬ LeavesSnapshot host state tx) := by
  rcases applySignedTransaction_cases applied with ⟨error, rejected, _, rfl⟩ |
    ⟨accepted, bumped, result, vm, bumps, ran, _, rfl⟩
  · -- Turned down, it runs no frame.
    refine ⟨indexed, Nat.le_refl _, iff_of_true rfl ?_⟩
    rintro ⟨vm, _, _, _, executed, _⟩
    simp only [executedFrame, rejected] at executed
    cases executed
  · have executed := executedFrame_of_accepted accepted bumps
    obtain ⟨history, last, traced, rfl⟩ := run_eq_value ran
    have start : (syncLegacyStateIntoFork
        (transactionVm (chargeSender state tx bumped) tx)).state.snapshots = state.snapshots :=
      syncLegacyStateIntoFork_snapshots _
    have runs : (machine host).Runs _ history result last := ⟨fuel, traced⟩
    obtain ⟨le, iff⟩ := length_snapshots_of_runs (indexed.of_snapshots start) runs
    have ended := (snapshots_of_runs (indexed.of_snapshots start) runs).1
    rw [start] at le iff
    cases succeeded : result.isSuccess with
    | true =>
      have kept : (settledState (chargeSender state tx bumped) tx result
          { syncForkIntoLegacyState host last with
            state := last.state.clearTransientStorage }).snapshots = last.state.snapshots := by
        simp only [settledState, succeeded, if_true]
        rfl
      refine ⟨ended.of_snapshots kept, by rwa [kept], ?_⟩
      rw [kept, iff]
      refine not_congr ⟨fun nests => ⟨_, _, _, _, executed, runs, succeeded, nests⟩, ?_⟩
      rintro ⟨vm, _, _, _, executed', _, _, nests⟩
      rw [executed] at executed'
      cases executed'
      exact nests
    | false =>
      have kept : (settledState (chargeSender state tx bumped) tx result
          { syncForkIntoLegacyState host last with
            state := last.state.clearTransientStorage }).snapshots = state.snapshots := by
        simp only [settledState, succeeded, Bool.false_eq_true, if_false]
        rfl
      refine ⟨indexed.of_snapshots kept, by rw [kept], iff_of_true (by rw [kept]) ?_⟩
      rintro ⟨vm, _, _, _, executed', runs', succeeded', _⟩
      rw [executed] at executed'
      cases executed'
      obtain ⟨_, rfl, _⟩ := runs.unique runs'
      rw [succeeded] at succeeded'
      cases succeeded'

/-- So the snapshots of a chain only get more, and stay the same just while none are left. -/
theorem length_snapshots_of_chain (indexed : start.SnapshotsIndexed)
    (mined : Mined host start done final) :
    final.SnapshotsIndexed ∧ start.snapshots.length ≤ final.snapshots.length ∧
      (final.snapshots.length = start.snapshots.length ↔
        ∀ applied ∈ done, ¬ LeavesSnapshot host applied.1 applied.2) := by
  -- The transactions of a chain add their snapshots one behind the other.
  induction mined with
  | none => exact ⟨indexed, Nat.le_refl _, iff_of_true rfl (by simp)⟩
  | @next done state tx fuel answer after _ applied ih =>
    obtain ⟨middle, le, iff⟩ := ih
    obtain ⟨ended, le', iff'⟩ := length_snapshots_of_transaction middle applied
    refine ⟨ended, le.trans le', ?_⟩
    rw [List.forall_mem_append, List.forall_mem_singleton, ← iff, ← iff']
    omega

/--
The snapshot stack is balanced exactly as long as no nested frame succeeds.

Every completed step leaves as many snapshots as there were just if it opens no frame that succeeds;
a chain of transactions leaves as many just if none of them does so in its own frame and succeeds.
-/
theorem snapshots_balanced_iff (host : Host) (state : StateFork)
    (indexed : state.SnapshotsIndexed) :
    (∀ vm, EntryVm state vm → ∀ visited evm,
      (machine host).Reaches (syncLegacyStateIntoFork vm) visited evm →
        ∀ kept result after, (machine host).Steps evm kept result after →
          (after.state.snapshots.length = evm.state.snapshots.length ↔
            ¬ OpensSurvivor host evm)) ∧
      ∀ done final, Mined host state done final →
        (final.snapshots.length = state.snapshots.length ↔
          ∀ applied ∈ done, ¬ LeavesSnapshot host applied.1 applied.2) := by
  constructor
  · intro vm entry visited evm reaches kept result after steps
    -- The claim about a step needs the positions of the snapshots in each visited state.
    have start : (syncLegacyStateIntoFork vm).state.SnapshotsIndexed :=
      (entry.indexed indexed).of_snapshots (syncLegacyStateIntoFork_snapshots vm)
    exact length_snapshots_iff (indexed_of_reaches start reaches) steps
  · exact fun done final mined => (length_snapshots_of_chain indexed mined).2.2

/-- A transaction to an account that calls two others. -/
def callTwice : SignedTransaction := { storingTx 0 with to_ := some 0x0a, gasLimit := 1000000 }

theorem applies_callTwice :
    ∃ answer after, applySignedTransaction (tableHost []) 30 storeThenCallTwice callTwice =
      .value (answer, after) ∧ after.snapshots.length = 2 := by
  have ended : endsWith (applySignedTransaction (tableHost []) 30 storeThenCallTwice callTwice)
      (fun applied => applied.2.snapshots.length = 2) = true := by
    decide +kernel
  obtain ⟨⟨answer, after⟩, applied, left⟩ := exists_of_endsWith ended
  exact ⟨answer, after, applied, of_decide_eq_true left⟩

theorem snapshots_balanced_iff_callTwice :
    ∃ after, Mined (tableHost []) storeThenCallTwice [(storeThenCallTwice, callTwice)] after ∧
      (after.snapshots.length = 0 ↔ ∀ applied ∈ [(storeThenCallTwice, callTwice)],
        ¬ LeavesSnapshot (tableHost []) applied.1 applied.2) := by
  obtain ⟨answer, after, applied, _⟩ := applies_callTwice
  have mined := Mined.next .none applied
  exact ⟨after, mined, (snapshots_balanced_iff (tableHost []) storeThenCallTwice
    (fun _ _ found => by simp [storeThenCallTwice] at found)).2 _ after mined⟩

/-- Both calls succeed, and the chain state keeps a snapshot for each of them. -/
theorem snapshots_left_over :
    storeThenCallTwice.snapshots = [] ∧
      ∃ answer after, applySignedTransaction (tableHost []) 30 storeThenCallTwice callTwice =
        .value (answer, after) ∧ after.snapshots.length = 2 :=
  ⟨rfl, applies_callTwice⟩

end Chains

end MiniEvm
