import MiniEvm.Proofs.Vm.Ether

/-! Logs over whole runs: which of the records that were emitted come back in the end. -/

namespace MiniEvm

open EvmM Frames Frames.Program

/-- The record that a completed log stands for: its account, its topics, and a range of memory. -/
def logRecord (evm after : Evm) (topicCount : Nat) : LogRecord where
  address := evm.selfAddress
  topics := (evm.stack.data.drop 2).take topicCount
  -- The range was covered before it was read, so it is read off the memory that is left.
  data := match evm.stack.data with
    | offset :: size :: _ => slice after.memory (asUsize offset) (asUsize offset + asUsize size)
    | _ => []

/-- What a step emitted by itself. -/
def emits (done : Transition Evm ExecutionResult) : List LogRecord :=
  match done.before.opcode with
  | some (.log topicCount) =>
    if done.result = .halt then [logRecord done.before done.after topicCount] else []
  | _ => []

/-- What the frames that were not reverted emitted, in the order of execution. -/
def emitted (history : History Evm ExecutionResult) : List LogRecord := history.flatMap emits

/-- The logs of a frame grew by what was emitted. -/
def LogsFollow (history : History Evm ExecutionResult) (before after : Evm) : Prop :=
  after.logs = before.logs ++ emitted history

section Records

variable {host : Host} {evm after : Evm} {kept : History Evm ExecutionResult}
  {result : ExecutionResult}

/-- A calm start leaves the rest of a handler to say what a completed one has done. -/
theorem Calm.andThen {α β : Type} {first : EvmM α} {rest : α → EvmM β} {middle : α → Evm → Prop}
    {post : β → Evm → Prop} (calm : Calm (fun _ => True) evm first middle)
    (tail : ∀ value mid, Quiet evm mid → middle value mid →
      (rest value).Meets mid (fun _ => True) (fun result _ => result ≠ .halt) post) :
    (first >>= rest).Meets evm (fun _ => True) (fun result _ => result ≠ .halt) post :=
  Meets.bind (Meets.weaken calm (fun _ _ => trivial) (fun _ _ ended => ended.2)
    (fun _ _ ended => ended)) fun value mid ended => tail value mid ended.1 ended.2

/-- A log that completes appends its record. -/
theorem meets_opLog (host : Host) (evm : Evm) (topicCount : Nat) :
    (opLog host topicCount).Meets evm (fun _ => True) (fun result _ => result ≠ .halt)
      (fun _ after => after.logs = evm.logs ++ [logRecord evm after topicCount]) := by
  refine Calm.andThen calm_requireMutable fun _ s0 _ mutable => ?_
  obtain ⟨_, rfl⟩ := mutable
  refine Calm.andThen (calm_pop _) fun offset s1 q1 popOffset => ?_
  refine Calm.andThen (calm_pop _) fun size s2 q2 popSize => ?_
  refine Calm.andThen (calm_popTopics topicCount) fun topics s3 q3 popTopics => ?_
  -- A price out of range ends the frame before anything is touched.
  cases priced : logGas topicCount (asUsize size) with
  | none => exact Stops.ne_halt
  | some baseGas =>
    refine Calm.andThen (calm_charge baseGas) fun _ s4 q4 paid => ?_
    refine Calm.andThen (calm_touchMemory (fun _ => trivial) _ _) fun _ s5 q5 touched => ?_
    refine Calm.andThen (calm_readMemory_checked (by omega) fun _ => trivial)
      fun data s6 q6 same => ?_
    obtain ⟨rfl, rfl⟩ := same
    -- Nothing but the record is new, and the operands are those of the first state.
    have quiet := (((q1.trans q2).trans q3).trans q4).trans q5
    show s6.logs ++ _ = _
    have operands : s0.stack.data = offset :: size :: (topics ++ s3.stack.data) := by
      rw [popOffset.1, popSize.1, popTopics.2.1]
    simp only [logRecord, operands, quiet.logs, quiet.selfAddress, List.drop_succ_cons,
      List.drop_zero]
    rw [List.take_left' popTopics.1]

/-- A completed step of a log appends its record. -/
theorem logs_of_log {topicCount : Nat}
    {nested : Evm → History Evm ExecutionResult → ExecutionResult → Evm → Prop}
    (decoded : evm.opcode = some (.log topicCount))
    (resolved : (step host evm).Resolves .halt nested kept .halt after) :
    after.logs = evm.logs ++ [logRecord evm after topicCount] := by
  rw [step_apply decoded] at resolved
  split at resolved
  · obtain ⟨_, impossible, _⟩ := resolved
    cases impossible
  · -- The handler opens no frame, so it stands at one of its ends.
    rcases (meets_opLog host (evm.begin (.log topicCount)) topicCount).cases with
      ⟨cause, stands, _⟩ | ⟨early, final, stands, stopped⟩ | ⟨value, final, stands, appended⟩
    all_goals
      change (opLog host topicCount (evm.begin (.log topicCount))).Resolves _ _ _ _ _ at resolved
      rw [stands] at resolved
    · exact resolved.elim
    · obtain ⟨_, rfl, _⟩ := resolved
      exact absurd rfl stopped
    · obtain ⟨_, _, rfl⟩ := resolved
      exact appended

end Records

section Steps

variable {host : Host} {evm after : Evm} {kept : History Evm ExecutionResult}
  {result : ExecutionResult}

/-- A step of another opcode emits nothing. -/
theorem emits_of_opcode {op : Opcode} (decoded : evm.opcode = some op)
    (other : ∀ topicCount, op ≠ .log topicCount) : emits ⟨evm, result, after⟩ = [] := by
  simp only [emits, decoded]
  split
  · -- The record belongs to an opcode that was ruled out.
    rename_i topicCount found
    exact absurd (Option.some.inj found) (other topicCount)
  · rfl

/-- A step that ended its frame emits nothing. -/
theorem emits_of_result (early : result ≠ .halt) : emits ⟨evm, result, after⟩ = [] := by
  unfold emits
  split
  · exact if_neg early
  · rfl

theorem emitted_append (first second : History Evm ExecutionResult) :
    emitted (first ++ second) = emitted first ++ emitted second := List.flatMap_append

theorem emitted_single (done : Transition Evm ExecutionResult) : emitted [done] = emits done := by
  simp [emitted]

theorem LogsFollow.trans {first second : History Evm ExecutionResult} {a b c : Evm}
    (one : LogsFollow first a b) (other : LogsFollow second b c) :
    LogsFollow (first ++ second) a c := by
  unfold LogsFollow at *
  rw [other, one, emitted_append, List.append_assoc]

/-- A step that emits nothing by itself is left to the frame below it. -/
theorem LogsFollow.snoc {history : History Evm ExecutionResult}
    {done : Transition Evm ExecutionResult} (follows : LogsFollow history evm after)
    (silent : emits done = []) : LogsFollow (history ++ [done]) evm after := by
  unfold LogsFollow at *
  rw [emitted_append, emitted_single, silent, List.append_nil]
  exact follows

/-- What a step does by itself appends what it emits. -/
theorem Effect.logsFollow {op : Opcode} (decoded : evm.opcode = some op)
    (effect : Effect evm op after)
    (logged : ∀ topicCount, op = .log topicCount →
      after.logs = evm.logs ++ [logRecord evm after topicCount]) :
    LogsFollow [⟨evm, .halt, after⟩] evm after := by
  have silent : ∀ {final : Evm}, final.logs = evm.logs → (∀ topicCount, op ≠ .log topicCount) →
      LogsFollow [⟨evm, .halt, final⟩] evm final := by
    intro final same other
    unfold LogsFollow
    rw [emitted_single, emits_of_opcode decoded other, List.append_nil, same]
  cases effect with
  | plain plain drift => exact silent drift.logs (by rintro count rfl; cases plain)
  | sstore _ _ drift | tstore _ _ drift => exact silent drift.logs (by simp)
  | @log mid topics record _ drift =>
    unfold LogsFollow
    rw [emitted_single]
    simp only [emits, decoded, if_true]
    exact logged topics rfl
  | @selfdestruct mid word _ _ _ drift =>
    refine silent ?_ (by simp)
    rw [← drift.logs]
    simp only [destroyAccount]
    split <;> rfl

/-- A creation that succeeds takes over no logs of its constructor, and neither does a
failed one. -/
theorem afterCreate_logs (mid : Evm) (value : Word) (salt : Option Word) (initCode : Bytes)
    (outcome : ExecutionResult) (last : Evm) :
    (afterCreate host mid value salt initCode outcome last).2.logs = mid.logs :=
  afterCreate_induction (motive := fun after => after.logs = mid.logs) rfl fun _ _ => rfl

/-- No surviving constructor of this step has emitted anything. -/
def ConstructorsSilent (host : Host) (evm : Evm) : Prop :=
  ∀ op kept result after, evm.opcode = some op → op.isCreation = true →
    (machine host).Steps evm kept result after → emitted kept = []

/-- One step appends what was emitted, as soon as the frame below it does. -/
theorem logsFollow_of_resolves (running : (machine host).running evm = true)
    (silent : ConstructorsSilent host evm)
    (resolved : (step host evm).Resolves .halt ((machine host).Within LogsFollow)
      kept result after) :
    LogsFollow (kept ++ [⟨evm, result, after⟩]) evm after := by
  have steps : (machine host).Steps evm kept result after :=
    ⟨running, resolved.mono fun _ within => within.runsNested⟩
  cases stepsTo_of_resolves running resolved with
  -- A step that ends its frame emits nothing, and a completed one what it has appended.
  | stopped drift early =>
    apply LogsFollow.snoc _ (emits_of_result early)
    simpa [LogsFollow, emitted] using drift.logs
  | done decoded effect _ =>
    apply effect.logsFollow decoded
    rintro topicCount rfl
    exact logs_of_log decoded resolved
  | @called forceStatic delegate setup mid history outcome last _ _ opening ran quiet =>
    have other : ∀ topicCount, callOpcode forceStatic delegate ≠ .log topicCount := by
      intro topicCount
      cases forceStatic <;> cases delegate <;> simp [callOpcode]
    apply LogsFollow.snoc _ (emits_of_opcode opening.opcode other)
    -- The callee started without logs, so its logs are what it emitted.
    obtain ⟨stop, _, follows, rfl⟩ := ran
    have own : ((machine host).closing stop).logs = emitted history :=
      (syncForkIntoLegacyState_logs stop).trans follows
    unfold LogsFollow
    rw [quiet.logs, ← opening.drift.logs]
    cases succeeded : outcome.isSuccess with
    | true => simp only [afterCall_of_success succeeded, own, if_true]
    -- A callee that failed is dropped from the history together with its logs.
    | false =>
      simp only [afterCall, mergeCall, succeeded, Bool.false_eq_true, if_false, emitted,
        List.flatMap_nil, List.append_nil]
      rfl
  | @created value salt initCode mid history outcome last _ _ opening ran quiet _ =>
    have other : ∀ topicCount, createOpcode salt ≠ .log topicCount := by
      intro topicCount
      cases salt <;> simp [createOpcode]
    apply LogsFollow.snoc _ (emits_of_opcode opening.opcode other)
    -- Its logs are dropped, which loses nothing if there were none.
    unfold LogsFollow
    rw [silent _ _ _ _ opening.opcode (createOpcode_isCreation salt) steps, List.append_nil,
      quiet.logs, afterCreate_logs, opening.drift.logs]

/-- A loop ends with the logs that were emitted, while all its surviving constructors are silent. -/
theorem logsFollow_of_trace {start final : Evm} {fuel : Nat}
    {history : History Evm ExecutionResult}
    (silent : ∀ seen visited, (machine host).Reaches start seen visited →
      ConstructorsSilent host visited)
    (looped : (machine host).trace fuel start = .value (history, result, final)) :
    LogsFollow history start final :=
  Machine.trace_relates LogsFollow (ConstructorsSilent host)
    (fun _ => by simp [LogsFollow, emitted]) LogsFollow.trans logsFollow_of_resolves fuel
    (fun seen visited reaches _ => silent seen visited reaches) looped

end Steps

/--
The logs of a simulation are those of its surviving frames.

This holds in every run in which no surviving constructor emits anything, and in which a failed
execution has no surviving record either.
-/
theorem simulation_logs (host : Host) (fuel : Nat) (state : StateFork) (caller target : Address)
    (value : Word) (input : Bytes) (gasLimit : Nat) (outcome : SimulationResult)
    (silent : ∀ seen visited, (machine host).Reaches
      (syncLegacyStateIntoFork (simulationVm state caller target value input gasLimit))
        seen visited → ConstructorsSilent host visited)
    (mute : ∀ history result last, (machine host).trace fuel
      (syncLegacyStateIntoFork (simulationVm state caller target value input gasLimit)) =
        .value (history, result, last) → result.isSuccess = false → emitted history = [])
    (simulated : simulateTx host fuel state caller target value input gasLimit = .value outcome) :
    (state.getBalance caller < value ∧ outcome.logs = []) ∨
      ∃ history result last, (machine host).trace fuel
        (syncLegacyStateIntoFork (simulationVm state caller target value input gasLimit)) =
          .value (history, result, last) ∧ outcome.success = result.isSuccess ∧
        outcome.logs = if result.isSuccess then emitted history else [] := by
  unfold simulateTx at simulated
  split at simulated
  · -- Turned down, it reports no logs.
    rename_i poor
    cases simulated
    exact .inl ⟨poor, rfl⟩
  · right
    obtain ⟨⟨result, vm⟩, ran, rest⟩ := Outcome.bind_eq_value simulated
    obtain ⟨history, last, looped, rfl⟩ := run_eq_value ran
    cases rest
    refine ⟨history, result, last, looped, rfl, ?_⟩
    -- The frame starts without logs and is handed back with those of its loop.
    have follows : last.logs = emitted history := logsFollow_of_trace silent looped
    have returned : (syncForkIntoLegacyState host last).logs = emitted history :=
      (syncForkIntoLegacyState_logs last).trans follows
    cases succeeded : result.isSuccess with
    | true => simpa using returned
    | false => simpa [mute history result last looped succeeded] using returned

/-- An account with the given code. -/
def onlyAccount (code : Bytes) : StateFork where
  baseState := (∅ : HashMap Address AccountState).insert 0x0a { code }

/-- Code that emits one empty record. -/
def emitEmpty : Bytes := [0x60, 0, 0x60, 0, 0xa0]

/-- The record of the account with that code. -/
def emptyRecord : LogRecord where
  address := 0x0a
  topics := []
  data := []

/-- Code that emits one empty record and then fails. -/
def emitThenFail : Bytes := emitEmpty ++ [0xfe]

/-- Whether the creation that a step makes, if any, is a silent one. -/
def createsSilently (host : Host) (fuel : Nat) (evm : Evm) : Bool :=
  match evm.opcode with
  | none => true
  | some op => !op.isCreation ||
    match (step host evm).resolve .halt ((machine host).nested ((machine host).trace fuel)) with
    | .value (kept, _, _) => emitted kept = []
    | _ => false

theorem constructorsSilent_of_check {host : Host} {fuel : Nat} {evm : Evm}
    (checked : createsSilently host fuel evm = true) : ConstructorsSilent host evm := by
  intro op kept result after decoded creation steps
  simp only [createsSilently, decoded, creation, Bool.not_true, Bool.false_or] at checked
  split at checked
  · rename_i past _ _ resolved
    -- The step that was computed is the step that was taken.
    obtain ⟨rfl, _, _⟩ := ((machine host).steps_of_resolve steps.1 resolved).unique steps
    exact of_decide_eq_true checked
  · cases checked

/-- An account that emits, creates another one, and calls one that emits and one that fails. -/
def emitters : StateFork where
  baseState := (((∅ : HashMap Address AccountState).insert 0x0a
    { code := emitEmpty ++ [0x60, 0, 0x60, 0, 0x60, 0, 0xf0] ++
        [0x60, 0, 0x60, 0, 0x60, 0, 0x60, 0, 0x60, 0, 0x60, 0x0b, 0x61, 0xff, 0xff, 0xf1] ++
        [0x60, 0, 0x60, 0, 0x60, 0, 0x60, 0, 0x60, 0, 0x60, 0x0c, 0x61, 0xff, 0xff, 0xf1] }).insert
    0x0b { code := emitEmpty }).insert 0x0c { code := emitThenFail }

/-- Of the three records that were emitted, the one of the callee that failed is not told. -/
theorem simulation_logs_empty :
    ∃ outcome history result last,
      simulateTx createEmptyHost 40 emitters 0x01 0x0a 0 [] 300000 = .value outcome ∧
        (machine createEmptyHost).trace 40 (syncLegacyStateIntoFork
          (simulationVm emitters 0x01 0x0a 0 [] 300000)) = .value (history, result, last) ∧
        emitted history = [emptyRecord, { emptyRecord with address := 0x0b }] ∧
        outcome.logs = emitted history := by
  have ended : endsWith (simulateTx createEmptyHost 40 emitters 0x01 0x0a 0 [] 300000)
      (fun outcome => outcome.success &&
        outcome.logs = [emptyRecord, { emptyRecord with address := 0x0b }]) = true := by
    decide +kernel
  have checked : (machine createEmptyHost).visitsOnly
      (fun _ => createsSilently createEmptyHost 40) 40 [] (syncLegacyStateIntoFork
        (simulationVm emitters 0x01 0x0a 0 [] 300000)) = true := by
    decide +kernel
  have computed : endsWith ((machine createEmptyHost).trace 40 (syncLegacyStateIntoFork
      (simulationVm emitters 0x01 0x0a 0 [] 300000))) (fun ended => ended.2.1.isSuccess) = true := by
    decide +kernel
  obtain ⟨outcome, simulated, noted⟩ := exists_of_endsWith ended
  simp only [Bool.and_eq_true, decide_eq_true_eq] at noted
  have covered : ¬ emitters.getBalance 0x01 < 0 := by decide +kernel
  -- The one end that the run comes to is a success.
  have succeeds : ∀ history result last, (machine createEmptyHost).trace 40
      (syncLegacyStateIntoFork (simulationVm emitters 0x01 0x0a 0 [] 300000)) =
        .value (history, result, last) → result.isSuccess = true := by
    intro history result last looped
    rw [looped] at computed
    exact computed
  rcases simulation_logs createEmptyHost 40 emitters 0x01 0x0a 0 [] 300000 outcome
    (fun seen visited reaches op kept result after decoded creation steps =>
      constructorsSilent_of_check (Machine.passes_of_visitsOnly checked reaches steps.1)
        op kept result after decoded creation steps)
    (fun history result last looped failed => by
      rw [succeeds history result last looped] at failed
      cases failed) simulated with
    ⟨poor, _⟩ | ⟨history, result, last, looped, success, logs⟩
  · exact absurd poor covered
  · rw [← success, noted.1, if_pos rfl] at logs
    exact ⟨outcome, history, result, last, simulated, looped, logs.symm.trans noted.2, logs⟩

/-- Code that creates an account whose constructor emits one empty record. -/
def createEmitter : Bytes :=
  -- The init code goes to the end of the first word of memory.
  [0x64] ++ emitEmpty ++ [0x60, 0, 0x52, 0x60, 5, 0x60, 27, 0x60, 0, 0xf0]

/--
Logs survive a failed execution, and get lost in a constructor.

The failed execution returns the record that it emitted, and the successful creation returns none
although its constructor emitted one and no frame failed.
-/
theorem logs_of_failure_and_creation :
    (∃ outcome, simulateTx (tableHost []) 10 (onlyAccount emitThenFail) 0x01 0x0a 0 [] 100000 =
        .value outcome ∧ outcome.success = false ∧ outcome.logs = [emptyRecord]) ∧
      ∃ outcome history result last,
        simulateTx createEmptyHost 20 (onlyAccount createEmitter) 0x01 0x0a 0 [] 100000 =
          .value outcome ∧
        (machine createEmptyHost).trace 20 (syncLegacyStateIntoFork
          (simulationVm (onlyAccount createEmitter) 0x01 0x0a 0 [] 100000)) =
            .value (history, result, last) ∧
        outcome.success = true ∧ (emitted history).length = 1 ∧ outcome.logs = [] := by
  have failed : endsWith (simulateTx (tableHost []) 10 (onlyAccount emitThenFail) 0x01 0x0a 0 []
      100000) (fun outcome => outcome.success = false && outcome.logs = [emptyRecord]) = true := by
    decide +kernel
  have simulated : endsWith (simulateTx createEmptyHost 20 (onlyAccount createEmitter) 0x01 0x0a 0
      [] 100000) (fun outcome => outcome.success && outcome.logs = []) = true := by
    decide +kernel
  have looped : endsWith ((machine createEmptyHost).trace 20 (syncLegacyStateIntoFork
      (simulationVm (onlyAccount createEmitter) 0x01 0x0a 0 [] 100000)))
      (fun ended => (emitted ended.1).length = 1) = true := by
    decide +kernel
  obtain ⟨outcome, ran, noted⟩ := exists_of_endsWith failed
  obtain ⟨outcome', ran', noted'⟩ := exists_of_endsWith simulated
  obtain ⟨⟨history, result, last⟩, traced, counted⟩ := exists_of_endsWith looped
  simp only [Bool.and_eq_true, decide_eq_true_eq] at noted noted' counted
  exact ⟨⟨outcome, ran, noted⟩, outcome', history, result, last, ran', traced, noted'.1, counted,
    noted'.2⟩

end MiniEvm
