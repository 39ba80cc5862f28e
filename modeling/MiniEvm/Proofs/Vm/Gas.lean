import MiniEvm.Proofs.Vm.Runs

/-! Gas never grows, children get their share of it, and every run comes to an end. -/

namespace MiniEvm

open Frames

variable {host : Host} {evm : Evm}

/-- The caller gets its callee's rest, up to the largest 64-bit value. -/
@[simp] theorem afterCall_gasLeft (mid : Evm) (result : ExecutionResult) (child : Evm) :
    (afterCall mid result child).gasLeft = saturatingAdd mid.gasLeft child.gasLeft := by
  unfold afterCall mergeCall
  split <;> rfl

/-- The creator gets its constructor's rest, and may then pay for the code. -/
theorem mergeDeploy_gasLeft (evm : Evm) (deployment : Deployment) (result : ExecutionResult)
    (child : Evm) :
    (mergeDeploy evm deployment result child).2.gasLeft ≤ evm.gasLeft + child.gasLeft := by
  -- Saturation only ever takes gas away.
  have joined : saturatingAdd evm.gasLeft child.gasLeft ≤ evm.gasLeft + child.gasLeft :=
    Nat.min_le_left _ _
  rcases mergeDeploy_cases evm deployment result child with
    ⟨_, abandoned⟩ | ⟨_, code, _, committed⟩
  · rw [abandoned]
    exact joined
  · -- Only the code deposit is still taken from the joined gas.
    rw [committed]
    exact (Nat.sub_le _ _).trans joined

/-- What a step hands to the frame it opens: a share of what is left after its own price. -/
structure Handed (evm : Evm) (available : Nat) (child : Evm) : Prop where
  less : available < evm.gasLeft
  computed : ∃ requested, child.gasLeft = calcEip150CallGas available requested

/-- The share leaves one 64th behind. -/
theorem Handed.share {available : Nat} {child : Evm} (handed : Handed evm available child) :
    child.gasLeft ≤ available - available / 64 := by
  obtain ⟨requested, computed⟩ := handed.computed
  rw [computed]
  exact calcEip150CallGas_le _ _

theorem CallOpening.handed {forceStatic delegate : Bool} {setup : CallSetup} {mid : Evm}
    (opening : CallOpening evm forceStatic delegate setup mid) :
    Handed evm (mid.gasLeft + setup.frame.gasLimit) (calledFrame mid delegate setup) where
  less := Nat.lt_of_lt_of_le opening.prepared.paid begin_drift.gas
  computed := opening.prepared.share

theorem CreateOpening.handed {value : Word} {salt : Option Word} {mid : Evm}
    (opening : CreateOpening evm value salt mid) (host : Host) (initCode : Bytes) :
    Handed evm mid.gasLeft (createdFrame host mid value salt initCode) where
  less := by
    have paid := opening.paid
    omega
  computed := ⟨_, rfl⟩

/-- The caller keeps what it did not hand over, and gets back what is left of the rest. -/
theorem regained_of_call (delegate : Bool) (setup : CallSetup) {mid last after : Evm}
    {outcome : ExecutionResult} (quiet : Quiet (afterCall mid outcome last) after) :
    after.gasLeft ≤ (mid.gasLeft + setup.frame.gasLimit) -
      (calledFrame mid delegate setup).gasLeft + last.gasLeft := by
  -- The merge adds what the callee left, and nothing after it adds more.
  have kept : after.gasLeft ≤ saturatingAdd mid.gasLeft last.gasLeft := by
    simpa using quiet.gas
  have child : (calledFrame mid delegate setup).gasLeft = setup.frame.gasLimit := rfl
  unfold saturatingAdd at kept
  omega

theorem regained_of_create {value : Word} {salt : Option Word} {initCode : Bytes}
    {mid last after : Evm} {outcome : ExecutionResult}
    (quiet : Quiet (afterCreate host mid value salt initCode outcome last).2 after) :
    after.gasLeft ≤ mid.gasLeft - (createdFrame host mid value salt initCode).gasLeft +
      last.gasLeft :=
  quiet.gas.trans (mergeDeploy_gasLeft _ _ outcome last)

/--
A step that ran its child, if any, without growing its gas.

Only a stop is free, and only an early end may be.
-/
theorem StepsTo.gas {nested : Evm → History Evm ExecutionResult → ExecutionResult → Evm → Prop}
    {kept : History Evm ExecutionResult} {result : ExecutionResult} {after : Evm}
    (bounded : ∀ {child history outcome last}, nested child history outcome last →
      last.gasLeft ≤ child.gasLeft)
    (stepped : StepsTo host nested evm kept result after) :
    after.gasLeft < evm.gasLeft ∨
      after.gasLeft ≤ evm.gasLeft ∧
        (result ≠ .halt ∨ evm.opcode = some .stop ∧ after.pc = evm.pc + 1) ∧
        SameFrame evm after := by
  cases stepped with
  | stopped drift early => exact .inr ⟨drift.gas, .inl early, drift.toSameFrame⟩
  | done decoded effect advance =>
    rcases advance.gas with less | ⟨rfl, same⟩
    · exact .inl less
    · -- A stop is plain and no jump, so it only moves on by one.
      refine .inr ⟨Nat.le_of_eq same, .inr ⟨decoded, ?_⟩, ?_⟩
      · rcases advance.pc with moved | ⟨jumps, _⟩
        · exact moved
        · rcases jumps with never | never <;> cases never
      · cases effect with
        | plain _ drift => exact drift.toSameFrame
  | @called _ delegate setup mid history outcome last _ _ opening ran quiet =>
    left
    -- The child gave back at most what it got, and less than the opener had was shared out.
    have back := bounded ran
    have regained := regained_of_call delegate setup quiet
    have less := opening.handed.less
    have share := opening.handed.share
    omega
  | @created value salt initCode mid history outcome last _ _ opening ran quiet =>
    left
    have back := bounded ran
    have regained := regained_of_create quiet
    have less := (opening.handed host initCode).less
    have share := (opening.handed host initCode).share
    omega

/-- One step never leaves more gas than it found, as soon as the frame below it does not. -/
theorem gas_of_resolves {kept : History Evm ExecutionResult} {result : ExecutionResult} {after : Evm}
    (running : (machine host).running evm = true)
    (resolved : (step host evm).Resolves .halt
      ((machine host).Within fun _ start final => final.gasLeft ≤ start.gasLeft)
      kept result after) : after.gasLeft ≤ evm.gasLeft := by
  have bounded : ∀ {child : Evm} {history outcome} {last : Evm},
      (machine host).Within (fun _ start final => final.gasLeft ≤ start.gasLeft)
        child history outcome last → last.gasLeft ≤ child.gasLeft := by
    rintro child history outcome _ ⟨stop, _, fell, rfl⟩
    -- Neither copy around the child touches its gas.
    exact (Nat.le_of_eq (syncForkIntoLegacyState_gasLeft stop)).trans fell
  rcases (stepsTo_of_resolves running resolved).gas bounded with less | ⟨le, _⟩
  · exact Nat.le_of_lt less
  · exact le

/-- A loop never leaves more gas than it started with, whatever frames it opened. -/
theorem gas_of_runs {history : History Evm ExecutionResult} {result : ExecutionResult} {final : Evm}
    (ran : (machine host).Runs evm history result final) : final.gasLeft ≤ evm.gasLeft := by
  obtain ⟨fuel, looped⟩ := ran
  -- The bound composes along the loop.
  refine Machine.trace_relates (fun _ start final => final.gasLeft ≤ start.gasLeft)
    (fun _ => True) ?_ ?_ ?_ fuel (fun _ _ _ _ => trivial) looped
  · exact fun _ => Nat.le_refl _
  · exact fun first second => second.trans first
  · exact fun running _ resolved => gas_of_resolves running resolved

/-- Neither copy around a child frame touches its gas. -/
theorem gas_of_runsNested {child last : Evm} {history : History Evm ExecutionResult}
    {outcome : ExecutionResult} (ran : (machine host).RunsNested child history outcome last) :
    last.gasLeft ≤ child.gasLeft := by
  obtain ⟨stop, looped, rfl⟩ := ran
  have fell : stop.gasLeft ≤ (syncLegacyStateIntoFork child).gasLeft := gas_of_runs looped
  exact (Nat.le_of_eq (syncForkIntoLegacyState_gasLeft stop)).trans fell

/-- The step that opened a frame, and the frame it opened, as one piece of bookkeeping. -/
theorem handed_of_opens {kept : History Evm ExecutionResult} {child : Evm}
    (opens : (machine host).Opens evm kept child) :
    ∃ available, Handed evm available child ∧
      ∀ {history outcome last kept result after},
        (machine host).RunsNested child history outcome last →
        (machine host).Steps evm kept result after →
        after.gasLeft ≤ available - child.gasLeft + last.gasLeft := by
  obtain ⟨_, enters⟩ := opens
  change (step host evm).Enters _ _ _ at enters
  have shape := stepShape host evm
  generalize shaped : step host evm = tree at shape enters
  -- The step that finished and the step that opened the frame are one tree.
  have ends : ∀ {kept result after}, (machine host).Steps evm kept result after →
      tree.Resolves .halt (machine host).RunsNested kept result after := fun steps =>
    shaped ▸ steps.2
  -- Only the two opening shapes enter a frame.
  cases shape with
  | idle decoded => exact enters.elim
  | leaf decoded leaf =>
    cases tree with
    | enter child survives resume => exact leaf.elim
    | _ => exact enters.elim
  | @call forceStatic delegate setup mid opening =>
    rcases enters with ⟨_, rfl⟩ | ⟨_, outcome, last, _, _, resumed, _⟩
    · refine ⟨_, opening.handed, fun ran steps => ?_⟩
      obtain ⟨_, outcome, last, _, ran', resumed, _⟩ := ends steps
      obtain ⟨_, rfl, rfl⟩ := ran.unique ran'
      exact regained_of_call delegate setup ((opening.resumes _ _).resolves resumed).2
    · exact absurd resumed (opening.resumes outcome last).enters
  | @create value salt initCode mid opening =>
    rcases enters with ⟨_, rfl⟩ | ⟨_, outcome, last, _, _, resumed, _⟩
    · refine ⟨_, opening.handed host initCode, fun ran steps => ?_⟩
      obtain ⟨_, outcome, last, _, ran', resumed, _⟩ := ends steps
      obtain ⟨_, rfl, rfl⟩ := ran.unique ran'
      exact regained_of_create ((quietFrom_finishCreate host _).resolves resumed).2
    · exact absurd resumed (quietFrom_finishCreate host _).enters

/--
Gas is never created.

No step gains any, whatever it runs below itself.
A child gets its share of what is available once its opener has paid, and the opener is left with
what it did not hand over and what the child did not use.
-/
theorem gas_never_created (host : Host) :
    (∀ evm kept result after, (machine host).Steps evm kept result after →
      after.gasLeft ≤ evm.gasLeft) ∧
    (∀ evm kept child, (machine host).Opens evm kept child →
      ∃ available requested, available ≤ evm.gasLeft ∧
        child.gasLeft = calcEip150CallGas available requested ∧
        child.gasLeft ≤ available - available / 64 ∧
        ∀ history outcome last, (machine host).RunsNested child history outcome last →
          last.gasLeft ≤ child.gasLeft ∧
          ∀ kept result after, (machine host).Steps evm kept result after →
            after.gasLeft ≤ available - child.gasLeft + last.gasLeft) ∧
    (∀ fuel evm result final, run host fuel evm = .value (result, final) →
      final.gasLeft ≤ evm.gasLeft) := by
  refine ⟨?_, ?_, ?_⟩
  · intro evm kept result after steps
    rcases (stepsTo_of_resolves steps.1 steps.2).gas gas_of_runsNested with less | ⟨le, _⟩
    · exact Nat.le_of_lt less
    · exact le
  · intro evm kept child opens
    obtain ⟨available, handed, regained⟩ := handed_of_opens opens
    obtain ⟨requested, computed⟩ := handed.computed
    refine ⟨available, requested, Nat.le_of_lt handed.less, computed, handed.share, ?_⟩
    exact fun history outcome last ran => ⟨gas_of_runsNested ran, fun _ _ _ steps => regained ran steps⟩
  · intro fuel evm result final ran
    obtain ⟨history, last, looped, rfl⟩ := run_eq_value ran
    simpa using gas_of_runs ⟨fuel, looped⟩

/-- Gas first, and then how much code is left: the measure that every step and frame lowers. -/
def remaining (evm : Evm) : Nat × Nat := (evm.gasLeft, evm.code.length - evm.pc)

/-- A step on which the loop goes on has paid, or is a stop that has moved on. -/
theorem remaining_of_steps {kept : History Evm ExecutionResult} {after : Evm}
    (steps : (machine host).Steps evm kept .halt after) :
    Prod.Lex (· < ·) (· < ·) (remaining after) (remaining evm) := by
  have running : evm.pc < evm.code.length := of_decide_eq_true steps.1
  rcases (stepsTo_of_resolves steps.1 steps.2).gas gas_of_runsNested with
    less | ⟨le, early | ⟨_, moved⟩, same⟩
  · exact .left _ _ less
  · exact absurd rfl early
  · -- A stop is free, and moves the frame closer to the end of its code.
    rcases Nat.lt_or_eq_of_le le with less | same_gas
    · exact .left _ _ less
    · unfold remaining
      rw [same_gas]
      refine .right _ ?_
      rw [same.code, moved]
      omega

/-- An opened frame has less gas than its opener had. -/
theorem remaining_of_opens {kept : History Evm ExecutionResult} {child : Evm}
    (opens : (machine host).Opens evm kept child) :
    Prod.Lex (· < ·) (· < ·) (remaining (syncLegacyStateIntoFork child)) (remaining evm) := by
  obtain ⟨available, handed, _⟩ := handed_of_opens opens
  -- The share is at most what was left after a price that is never zero.
  refine .left _ _ ?_
  show child.gasLeft < evm.gasLeft
  have less := handed.less
  have share := handed.share
  omega

/-- Some fuel is enough for a run and all the frames below it, and more fuel changes nothing. -/
theorem run_finishes (host : Host) (evm : Evm) :
    ∃ fuel, (∀ more, fuel ≤ more → run host more evm = run host fuel evm) ∧
      run host fuel evm ≠ .outOfFuel := by
  have wellFounded : WellFounded (Prod.Lex (· < ·) (· < ·) : Nat × Nat → Nat × Nat → Prop) :=
    (Prod.lex Nat.lt_wfRel Nat.lt_wfRel).wf
  -- Gas falls first, and where it does not the code that is left does.
  obtain ⟨fuel, finished⟩ := (machine host).terminates wellFounded remaining
    remaining_of_steps remaining_of_opens (syncLegacyStateIntoFork evm)
  have ended : run host fuel evm ≠ .outOfFuel := fun stuck => finished (run_eq_outOfFuel.mp stuck)
  exact ⟨fuel, fun more le => run_mono le ended, ended⟩

end MiniEvm
