import MiniEvm.Frames.Rules
import MiniEvm.Proofs.Vm.Steps

/-! Whole runs: what the copies around a frame keep, and how the entry points reach the loop. -/

namespace MiniEvm

open Frames

variable {host : Host}

/-- Reading accounts back changes nothing but the four old maps. -/
theorem foldl_readBackAccount_eq (entries : List (Sigma fun _ : Address => AccountState))
    (evm : Evm) : ∃ storage balances nonces contracts, entries.foldl readBackAccount evm =
      { evm with storage, balances, nonces, contracts } := by
  -- Every round of the copy replaces the same four fields.
  induction entries generalizing evm with
  | nil => exact ⟨_, _, _, _, rfl⟩
  | cons entry rest ih =>
    obtain ⟨storage, balances, nonces, contracts, same⟩ := ih (readBackAccount evm entry)
    exact ⟨storage, balances, nonces, contracts, same⟩

/-- Neither does the whole copy out of the fork. -/
theorem syncForkIntoLegacyState_eq (host : Host) (evm : Evm) :
    ∃ storage balances nonces contracts, syncForkIntoLegacyState host evm =
      { evm with storage, balances, nonces, contracts } :=
  foldl_readBackAccount_eq (host.order evm) evm

/-- A frame that is opened writes its maps into its fork. -/
theorem machine_opening (host : Host) (child : Evm) :
    (machine host).opening child = syncLegacyStateIntoFork child := rfl

/-- A frame that is closed reads them back. -/
theorem machine_closing (host : Host) (stop : Evm) :
    (machine host).closing stop = syncForkIntoLegacyState host stop := rfl

/-- Every entry that is read back is what a reader of the fork sees. -/
theorem getAccount_of_mem_order {host : Host} {evm : Evm}
    {entry : Sigma fun _ : Address => AccountState} (member : entry ∈ host.order evm) :
    evm.state.getAccount entry.1 = entry.2 := by
  have found : evm.state.dirtyState.lookup entry.1 = some entry.2 :=
    AList.mem_lookup_iff.mpr ((host.order_perm evm).mem_iff.mp member)
  simp only [StateFork.getAccount, found]

/-- Copying the old maps into the fork costs nothing. -/
@[simp] theorem syncLegacyStateIntoFork_gasLeft (evm : Evm) :
    (syncLegacyStateIntoFork evm).gasLeft = evm.gasLeft := rfl

/-- Copying the fork back into the old maps costs nothing. -/
@[simp] theorem syncForkIntoLegacyState_gasLeft (evm : Evm) :
    (syncForkIntoLegacyState host evm).gasLeft = evm.gasLeft := by
  obtain ⟨storage, balances, nonces, contracts, same⟩ := syncForkIntoLegacyState_eq host evm
  rw [same]

/-- Copying back leaves the fork alone. -/
@[simp] theorem syncForkIntoLegacyState_state (evm : Evm) :
    (syncForkIntoLegacyState host evm).state = evm.state := by
  obtain ⟨storage, balances, nonces, contracts, same⟩ := syncForkIntoLegacyState_eq host evm
  rw [same]

/-- Copying back leaves the logs alone. -/
@[simp] theorem syncForkIntoLegacyState_logs (evm : Evm) :
    (syncForkIntoLegacyState host evm).logs = evm.logs := by
  obtain ⟨storage, balances, nonces, contracts, same⟩ := syncForkIntoLegacyState_eq host evm
  rw [same]

/-- Copying back leaves the list of new accounts alone. -/
@[simp] theorem syncForkIntoLegacyState_createdInTransaction (evm : Evm) :
    (syncForkIntoLegacyState host evm).createdInTransaction = evm.createdInTransaction := by
  obtain ⟨storage, balances, nonces, contracts, same⟩ := syncForkIntoLegacyState_eq host evm
  rw [same]

/-- A finished loop is a finished trace without its history. -/
theorem runWithoutSync_eq_value {fuel : Nat} {evm final : Evm} {result : ExecutionResult} :
    runWithoutSync host fuel evm = .value (result, final) ↔
      ∃ history, (machine host).trace fuel evm = .value (history, result, final) := by
  unfold runWithoutSync Machine.loop
  cases (machine host).trace fuel evm with
  | outOfFuel => simp
  | fault cause => simp
  | value ended =>
    obtain ⟨history, outcome, last⟩ := ended
    simp

/-- A finished child frame is a nested run of the machine. -/
theorem runChild_eq_value {fuel : Nat} {child final : Evm} {result : ExecutionResult} :
    runChild host fuel child = .value (result, final) ↔
      ∃ history, (machine host).nested ((machine host).trace fuel) child =
        .value (history, result, final) := by
  unfold runChild runWithoutSync Machine.loop Machine.nested
  -- Both sides begin with the same loop, started from the copied frame.
  show (((machine host).trace fuel (syncLegacyStateIntoFork child) >>= _) >>= _) = _ ↔
    ∃ history, ((machine host).trace fuel (syncLegacyStateIntoFork child) >>= _) = _
  cases (machine host).trace fuel (syncLegacyStateIntoFork child) with
  | outOfFuel => simp
  | fault cause => simp
  | value ended =>
    simp only [Outcome.value_bind, Outcome.pure_eq, Outcome.value.injEq, Prod.mk.injEq]
    constructor
    · rintro ⟨rfl, rfl⟩
      exact ⟨ended.1, rfl, rfl, rfl⟩
    · rintro ⟨history, _, rfl, rfl⟩
      exact ⟨rfl, rfl⟩

/-- A finished step is a step of the machine. -/
theorem stepFrame_eq_value {fuel : Nat} {evm after : Evm} {result : ExecutionResult}
    (stepped : stepFrame host fuel evm = .value (result, after)) :
    ∃ kept, (step host evm).resolve .halt ((machine host).nested ((machine host).trace fuel)) =
      .value (kept, result, after) := by
  unfold stepFrame at stepped
  obtain ⟨⟨kept, outcome, state⟩, resolved, rest⟩ := Outcome.bind_eq_value stepped
  simp only [Outcome.pure_eq, Outcome.value.injEq, Prod.mk.injEq] at rest
  obtain ⟨rfl, rfl⟩ := rest
  exact ⟨kept, resolved⟩

/-- A finished run is a finished loop between its two copies, with the transient slots dropped. -/
theorem run_eq_value {fuel : Nat} {evm final : Evm} {result : ExecutionResult}
    (ran : run host fuel evm = .value (result, final)) :
    ∃ history last,
      (machine host).trace fuel (syncLegacyStateIntoFork evm) = .value (history, result, last) ∧
        final = { syncForkIntoLegacyState host last with
          state := last.state.clearTransientStorage } := by
  unfold run at ran
  obtain ⟨⟨outcome, last⟩, looped, rest⟩ := Outcome.bind_eq_value ran
  simp only [Outcome.pure_eq, Outcome.value.injEq, Prod.mk.injEq,
    syncForkIntoLegacyState_state] at rest
  obtain ⟨rfl, rfl⟩ := rest
  -- A loop does the same whether its history is kept or not.
  obtain ⟨history, traced⟩ := runWithoutSync_eq_value.mp looped
  exact ⟨history, last, traced, rfl⟩

/-- A finished loop makes a finished run. -/
theorem run_of_trace {fuel : Nat} {evm last : Evm} {history : History Evm ExecutionResult}
    {result : ExecutionResult}
    (looped : (machine host).trace fuel (syncLegacyStateIntoFork evm) =
      .value (history, result, last)) :
    run host fuel evm = .value (result, { syncForkIntoLegacyState host last with
      state := last.state.clearTransientStorage }) := by
  simp only [run, runWithoutSync, Machine.loop, looped, Outcome.value_bind, Outcome.pure_eq,
    syncForkIntoLegacyState_state]

/-- A run is out of fuel exactly when its loop is. -/
theorem run_eq_outOfFuel {fuel : Nat} {evm : Evm} :
    run host fuel evm = .outOfFuel ↔
      (machine host).trace fuel (syncLegacyStateIntoFork evm) = .outOfFuel := by
  unfold run runWithoutSync Machine.loop
  cases (machine host).trace fuel (syncLegacyStateIntoFork evm) with
  | outOfFuel => simp
  | fault cause => simp
  | value ended => simp

/-- A run aborts exactly when its loop does. -/
theorem run_eq_fault {fuel : Nat} {evm : Evm} {cause : Fault} :
    run host fuel evm = .fault cause ↔
      (machine host).trace fuel (syncLegacyStateIntoFork evm) = .fault cause := by
  unfold run runWithoutSync Machine.loop
  cases (machine host).trace fuel (syncLegacyStateIntoFork evm) with
  | outOfFuel => simp
  | fault cause => simp
  | value ended => simp

/-- A run that came to an end is the same with more fuel. -/
theorem run_mono {fuel more : Nat} {evm : Evm} (le : fuel ≤ more)
    (finished : run host fuel evm ≠ .outOfFuel) : run host more evm = run host fuel evm := by
  have traced : (machine host).trace fuel (syncLegacyStateIntoFork evm) ≠ .outOfFuel :=
    fun stuck => finished (run_eq_outOfFuel.mpr stuck)
  have same := (machine host).trace_mono le _ traced
  simp only [run, runWithoutSync, Machine.loop, same]

/-- A run has one end only, whatever fuel leads there. -/
theorem run_unique {fuel fuel' : Nat} {evm : Evm} (first : run host fuel evm ≠ .outOfFuel)
    (second : run host fuel' evm ≠ .outOfFuel) : run host fuel evm = run host fuel' evm :=
  (run_mono (Nat.le_max_left fuel fuel') first).symm.trans
    (run_mono (Nat.le_max_right fuel fuel') second)

/-- A run that returns does not abort. -/
theorem not_aborts_of_returned {fuel fuel' : Nat} {evm : Evm} {outcome : ExecutionResult × Evm}
    {cause : Fault} (returned : run host fuel evm = .value outcome) :
    run host fuel' evm ≠ .fault cause := by
  intro aborted
  -- With any fuel that is enough a run comes to one end.
  have same : run host fuel evm = run host fuel' evm :=
    run_unique (by simp [returned]) (by simp [aborted])
  rw [returned, aborted] at same
  cases same

/-- A run that aborts has reached a state whose step aborts by itself. -/
theorem aborts_of_run {fuel : Nat} {evm : Evm} {cause : Fault}
    (aborted : run host fuel evm = .fault cause) :
    ∃ history state, (machine host).Reaches (syncLegacyStateIntoFork evm) history state ∧
      Aborts host state cause := by
  obtain ⟨history, state, reaches, _, faults⟩ :=
    Machine.aborts_iff.mp ⟨fuel, run_eq_fault.mp aborted⟩
  exact ⟨history, state, reaches, aborts_of_faults faults⟩

section Openings

variable {evm : Evm}

/-- Everything a step of the machine can have done, with the frame it opened and ran. -/
theorem stepsTo_of_steps {kept : History Evm ExecutionResult} {result : ExecutionResult}
    {after : Evm} (steps : (machine host).Steps evm kept result after) :
    StepsTo host (fun child history outcome last =>
      (∃ sofar, (machine host).Opens evm sofar child) ∧
        (machine host).RunsNested child history outcome last) evm kept result after :=
  stepsTo_of_resolves steps.1
    (steps.2.mono fun enters ran => ⟨⟨_, steps.1, enters⟩, ran⟩)

/-- How an opener goes on once the frame it opened has come to its end. -/
inductive Resumes (host : Host) (evm : Evm) (outcome : ExecutionResult) (last : Evm) :
    Evm → (ExecutionResult → Evm → Bool) → ExecutionResult → Evm → Prop
  | called {forceStatic delegate setup mid result after} :
      CallOpening evm forceStatic delegate setup mid → Quiet (afterCall mid outcome last) after →
      Resumes host evm outcome last (calledFrame mid delegate setup)
        (fun result _ => result.isSuccess) result after
  | created {value salt initCode mid result after} : CreateOpening evm value salt mid →
      Quiet (afterCreate host mid value salt initCode outcome last).2 after →
      Answered (afterCreate host mid value salt initCode outcome last).1 result after →
      Resumes host evm outcome last (createdFrame host mid value salt initCode)
        (createSucceeds host mid value salt initCode) result after

/-- The same, by whether a frame was opened at all. -/
inductive StepEnds (host : Host)
    (nested : Evm → History Evm ExecutionResult → ExecutionResult → Evm → Prop) (evm : Evm) :
    History Evm ExecutionResult → ExecutionResult → Evm → Prop
  | alone {result after} : (∀ child survives resume, step host evm ≠ .enter child survives resume) →
      (Drift evm after ∧ result ≠ .halt ∨
        ∃ op, evm.opcode = some op ∧ Effect evm op after ∧ result = .halt) →
      StepEnds host nested evm [] result after
  | resumed {child survives resume history outcome last result after} :
      step host evm = .enter child survives resume → nested child history outcome last →
      Resumes host evm outcome last child survives result after →
      StepEnds host nested evm (if survives outcome last then history else []) result after

/-- Everything a finished step can have done, with the frame at which its tree begins. -/
theorem stepEnds_of_resolves
    {nested : Evm → History Evm ExecutionResult → ExecutionResult → Evm → Prop}
    {kept : History Evm ExecutionResult} {result : ExecutionResult} {after : Evm}
    (running : (machine host).running evm = true)
    (resolved : (step host evm).Resolves .halt nested kept result after) :
    StepEnds host nested evm kept result after := by
  generalize shaped : step host evm = tree at resolved
  have shape := stepShape host evm
  rw [shaped] at shape
  cases shape with
  -- A frame that is running has an instruction.
  | idle decoded => exact absurd decoded (opcode_of_running running)
  | leaf decoded leaf =>
    cases tree with
    | fault cause => exact resolved.elim
    | exit outcome state =>
      obtain ⟨rfl, rfl, rfl⟩ := resolved
      exact .alone (by simp [shaped]) (.inl leaf)
    | next value state =>
      obtain ⟨rfl, rfl, rfl⟩ := resolved
      exact .alone (by simp [shaped]) (.inr ⟨_, decoded, leaf.1, rfl⟩)
    | enter child survives resume => exact leaf.elim
  | call opening =>
    obtain ⟨history, outcome, last, later, ran, resumed, rfl⟩ := resolved
    -- The opener goes on quietly, so the history ends with that of the frame.
    obtain ⟨rfl, quiet⟩ := (opening.resumes outcome last).resolves resumed
    rw [List.append_nil]
    exact .resumed shaped ran (.called opening quiet)
  | create opening =>
    obtain ⟨history, outcome, last, later, ran, resumed, rfl⟩ := resolved
    obtain ⟨rfl, quiet⟩ := (quietFrom_finishCreate host _).resolves resumed
    rw [List.append_nil]
    exact .resumed shaped ran (.created opening quiet (opening.answered resumed))

/-- A step that opens a frame goes on from what that frame came to. -/
theorem resumes_of_steps {kept history : History Evm ExecutionResult} {child after last : Evm}
    {result outcome : ExecutionResult} {survives : ExecutionResult → Evm → Bool}
    {resume : ExecutionResult → Evm → Tree Evm ExecutionResult Fault Unit}
    (begins : step host evm = .enter child survives resume)
    (ran : (machine host).RunsNested child history outcome last)
    (steps : (machine host).Steps evm kept result after) :
    Resumes host evm outcome last child survives result after := by
  cases stepEnds_of_resolves steps.1 steps.2 with
  -- A step that stayed alone has no frame at its beginning.
  | alone closed _ => exact absurd begins (closed _ _ _)
  | resumed begins' ran' resumes =>
    -- There is one frame at which the tree begins, and one end that it came to.
    rw [begins] at begins'
    cases begins'
    obtain ⟨rfl, rfl, rfl⟩ := ran.unique ran'
    exact resumes

end Openings

section Closed

variable {evm : Evm}

/-- The opcodes that can open a frame. -/
def Opcode.opensFrame : Opcode → Bool
  | call | delegatecall | staticcall | create | create2 => true
  | _ => false

/-- Code in which no byte stands for an opcode that opens a frame. -/
def opensNothing (code : Bytes) : Bool := code.all fun byte => !(Opcode.ofByte byte).opensFrame

/-- Code without an opening opcode decodes to none. -/
theorem opensFrame_of_opensNothing {op : Opcode} (closed : opensNothing evm.code = true)
    (decoded : evm.opcode = some op) : op.opensFrame = false := by
  obtain ⟨byte, found, rfl⟩ := Option.map_eq_some_iff.mp decoded
  simpa using List.all_eq_true.mp closed byte (List.mem_of_getElem? found)

/-- So no step of it opens a frame. -/
theorem not_opens_of_opensNothing {kept : History Evm ExecutionResult} {child : Evm}
    (closed : opensNothing evm.code = true) : ¬ (machine host).Opens evm kept child := by
  intro opens
  -- What opens a frame is a call or a creation, and the code has neither.
  cases (opened_of_enters opens.2).2 with
  | @call forceStatic delegate setup mid opening =>
    have quiet := opensFrame_of_opensNothing closed opening.opcode
    cases forceStatic <;> cases delegate <;> cases quiet
  | @create value salt initCode mid opening =>
    have quiet := opensFrame_of_opensNothing closed opening.opcode
    cases salt <;> cases quiet

/-- Such code is all that a run of it visits. -/
theorem code_of_reaches {start : Evm} {history : History Evm ExecutionResult}
    (closed : opensNothing start.code = true)
    (reaches : (machine host).Reaches start history evm) : evm.code = start.code := by
  -- On the way there: a step keeps the code of its frame, and no frame is entered.
  induction reaches with
  | refl => rfl
  | step _ steps ih => rw [(stepsTo_of_resolves steps.1 steps.2).sameFrame.code, ih]
  | enter _ opens ih => exact absurd opens (not_opens_of_opensNothing (ih ▸ closed))

/-- A run of such code opens no frame at all. -/
theorem not_opens_of_reaches {start child : Evm} {history kept : History Evm ExecutionResult}
    (closed : opensNothing start.code = true)
    (reaches : (machine host).Reaches start history evm) :
    ¬ (machine host).Opens evm kept child :=
  not_opens_of_opensNothing (code_of_reaches closed reaches ▸ closed)

end Closed

/-- A host that knows the listed hashes, for concrete runs that ask for no others. -/
def tableHost (hashes : List (Bytes × Word)) : Host where
  keccak256 := fun bytes => (hashes.lookup bytes).getD 0
  sha256 := fun _ => 0
  ripemd160 := fun _ => 0
  recoverKey := fun _ _ _ => none
  overflowChecks := true
  order := fun evm => evm.state.dirtyState.entries
  order_perm := fun _ => List.Perm.refl _

/-- Whether a computation finished with a value that passes a test. -/
def endsWith {ε α : Type} (outcome : Outcome ε α) (test : α → Bool) : Bool :=
  match outcome with
  | .value result => test result
  | _ => false

/-- What ends as a test asks for has an end. -/
theorem exists_of_endsWith {ε α : Type} {outcome : Outcome ε α} {test : α → Bool}
    (ended : endsWith outcome test = true) :
    ∃ result, outcome = .value result ∧ test result = true := by
  unfold endsWith at ended
  split at ended
  · exact ⟨_, rfl, ended⟩
  · cases ended

end MiniEvm
