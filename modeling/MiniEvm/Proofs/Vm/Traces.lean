import MiniEvm.Frames.Records
import MiniEvm.Proofs.Rpc.Types
import MiniEvm.Proofs.Vm.GasWindow
import MiniEvm.Vm.Tracer

/-! Traced runs: tracing changes nothing, and what is traced is what is listed and what was paid. -/

namespace MiniEvm

open Frames Frames.Machine

section Steps

variable {host : Host} {evm : Evm} {op : Opcode}

/-- Behind its static cost, an opcode with such a cost gains no gas and opens no frame. -/
theorem dispatch_spends (costs : op.gasTable ≠ 0) (evm : Evm) :
    (dispatch host op evm).Leaf (fun _ => True) (fun _ after => after.gasLeft ≤ evm.gasLeft)
      (fun _ after => after.gasLeft ≤ evm.gasLeft) := by
  by_cases reads : op = .gas
  · -- The opcode that reads the gas leaves it as it is.
    obtain rfl := reads
    have tame : Tame host (dispatch host .gas) := tame_dispatch host rfl
    exact Tree.Leaf.weaken (tame evm) (fun _ _ => trivial) (fun _ _ ended => ended.1.gas)
      fun _ _ ended => ended.1.gas
  · refine (metered_dispatch ?_ ?_).spends evm
    · cases op <;> first | rfl | exact absurd rfl costs | exact absurd rfl reads
    · rintro rfl
      exact costs rfl

/-- A step pays at least the static cost of its opcode, however it ends. -/
theorem paid_of_steps {kept : History Evm ExecutionResult} {result : ExecutionResult} {after : Evm}
    (steps : (machine host).Steps evm kept result after) (decoded : evm.opcode = some op)
    (enough : op.gasTable ≤ evm.gasLeft) : after.gasLeft + op.gasTable ≤ evm.gasLeft := by
  by_cases costs : op.gasTable = 0
  · -- Without a static cost it is enough that no gas appears.
    have fell : after.gasLeft ≤ evm.gasLeft := by
      rcases (stepsTo_of_resolves steps.1 steps.2).gas gas_of_runsNested with less | ⟨le, _⟩
      · exact Nat.le_of_lt less
      · exact le
    omega
  · have spends := @dispatch_spends host op costs (evm.begin op)
    have begun : (evm.begin op).gasLeft = evm.gasLeft - op.gasTable := rfl
    have resolves := steps.2
    change (step host evm).Resolves _ _ _ _ _ at resolves
    rw [step_apply decoded, if_neg (by omega)] at resolves
    cases ended : dispatch host op (evm.begin op) with
    | fault cause =>
      rw [ended] at resolves
      exact resolves.elim
    | exit outcome final =>
      rw [ended] at resolves spends
      obtain ⟨-, -, rfl⟩ := resolves
      have le : after.gasLeft ≤ (evm.begin op).gasLeft := spends
      omega
    | next value final =>
      rw [ended] at resolves spends
      obtain ⟨-, -, rfl⟩ := resolves
      have le : after.gasLeft ≤ (evm.begin op).gasLeft := spends
      omega
    | enter child survives resume =>
      rw [ended] at spends
      exact spends.elim

/-- A step on which the loop goes on moves behind its instruction, or is a jump to a mark. -/
theorem StepsTo.moves
    {nested : Evm → History Evm ExecutionResult → ExecutionResult → Evm → Prop}
    {kept : History Evm ExecutionResult} {after : Evm}
    (stepped : StepsTo host nested evm kept .halt after) :
    ∃ op, evm.opcode = some op ∧ (after.pc = evm.pc + op.width ∨
      (op = .jump ∨ op = .jumpi) ∧ evm.validJumpdests[after.pc]? = some true) := by
  cases stepped with
  | stopped _ early => exact absurd rfl early
  | done decoded _ advance => exact ⟨_, decoded, advance.pc⟩
  | @called forceStatic delegate setup mid _ _ _ _ _ opening _ quiet =>
    -- Calls and creations are one byte wide, and the merge leaves the position alone.
    refine ⟨_, opening.opcode, .inl ?_⟩
    rw [quiet.pc, (afterCall_sameFrame _ _ _).2, opening.prepared.quiet.pc]
    cases forceStatic <;> cases delegate <;> rfl
  | @created value salt initCode mid _ _ _ _ _ opening _ quiet =>
    refine ⟨_, opening.opcode, .inl ?_⟩
    rw [quiet.pc, (afterCreate_sameFrame _ _ _ _ _ _ _).2, opening.quiet.pc]
    cases salt <;> rfl

/-- The bytes that stand for jumps. -/
theorem ofByte_jumps (byte : UInt8)
    (jumps : Opcode.ofByte byte = .jump ∨ Opcode.ofByte byte = .jumpi) :
    byte = 0x56 ∨ byte = 0x57 := by
  have all : ∀ n < 256, Opcode.ofByte (UInt8.ofNat n) = .jump ∨
      Opcode.ofByte (UInt8.ofNat n) = .jumpi →
      UInt8.ofNat n = 0x56 ∨ UInt8.ofNat n = 0x57 := by decide +kernel
  simpa using all byte.toNat byte.toNat_lt (by simpa using jumps)

end Steps

section Frames

variable {host : Host} {evm : Evm} {frame : StepFrame}

/-- A frame that a tracer is shown tells what the machine is about to do. -/
structure Shows (evm : Evm) (frame : StepFrame) : Prop where
  here : evm.code[evm.pc]? = some frame.op
  pc : frame.pc = evm.pc
  mnemonic : frame.mnemonic = opcodeMnemonic frame.op
  gasLeft : frame.gasLeft = evm.gasLeft
  gasCost : frame.gasCost = (Opcode.ofByte frame.op).gasTable
  enough : frame.gasCost ≤ evm.gasLeft
  stack : frame.stack = evm.stack.values
  memory : frame.memory = evm.memory

/-- A frame stands at an opcode whose static cost it has the gas for. -/
def Evm.affords (evm : Evm) : Bool :=
  evm.opcode.any (·.gasTable ≤ evm.gasLeft)

/-- What the tracer is given shows the frame. -/
theorem shows_of_tracedFrame (shown : tracedFrame evm = some frame) : Shows evm frame := by
  unfold tracedFrame at shown
  -- The tracer is shown nothing past the code or beyond the gas.
  cases here : evm.code[evm.pc]? with
  | none => simp [here] at shown
  | some op =>
    simp only [here] at shown
    split at shown
    · cases shown
    · obtain rfl := Option.some.inj shown
      exact ⟨here, rfl, rfl, rfl, rfl, by simp only; omega, rfl, rfl⟩

/-- It shows the opcode that the frame is at. -/
theorem Shows.opcode (shows : Shows evm frame) : evm.opcode = some (Opcode.ofByte frame.op) := by
  rw [Evm.opcode, shows.here, Option.map_some]

/-- A tracer is shown each state that can pay for its opcode, and no other. -/
theorem shows_tracedFrame (evm : Evm) :
    List.Forall₂ Shows ([evm].filter Evm.affords) (tracedFrame evm).toList := by
  cases shown : tracedFrame evm with
  | none =>
    -- Nothing is shown past the code, and to a frame that cannot pay.
    have poor : evm.affords = false := by
      unfold tracedFrame at shown
      unfold Evm.affords Evm.opcode
      cases here : evm.code[evm.pc]? with
      | none => rfl
      | some op =>
        simp only [here] at shown
        split at shown
        · rename_i short
          simpa using short
        · cases shown
    simp [poor]
  | some frame =>
    have shows := shows_of_tracedFrame shown
    have rich : evm.affords = true := by
      unfold Evm.affords
      rw [shows.opcode]
      simpa [shows.gasCost] using shows.enough
    simpa [rich] using shows

/-- Where nothing is shown the frame ends for want of gas. -/
theorem exists_tracedFrame {kept : History Evm ExecutionResult} {after : Evm}
    (steps : (machine host).Steps evm kept .halt after) :
    ∃ frame, tracedFrame evm = some frame := by
  have inside : evm.pc < evm.code.length := of_decide_eq_true steps.1
  have here : evm.code[evm.pc]? = some evm.code[evm.pc] := List.getElem?_eq_getElem inside
  have decoded : evm.opcode = some (Opcode.ofByte evm.code[evm.pc]) := by
    rw [Evm.opcode, here, Option.map_some]
  unfold tracedFrame
  rw [here]
  simp only
  split
  · -- Such a step reports that, and so does not go on.
    rename_i short
    have resolves := steps.2
    change (step host evm).Resolves _ _ _ _ _ at resolves
    rw [step_apply decoded, if_pos short] at resolves
    cases resolves.2.1
  · exact ⟨_, rfl⟩

/-- What the printed lines of two steps in a row have to do with each other. -/
structure Succeeds (frame next : StepFrame) : Prop where
  gas : next.gasLeft + frame.gasCost ≤ frame.gasLeft
  pc : next.pc = frame.pc + byteWidth frame.op ∨
    (frame.op = 0x56 ∨ frame.op = 0x57) ∧ next.op = 0x5B

/-- Two lines with one step between them follow each other in the listing. -/
theorem succeeds_of_steps {kept : History Evm ExecutionResult} {after : Evm} {next : StepFrame}
    (charted : Charted evm) (steps : (machine host).Steps evm kept .halt after)
    (shown : Shows evm frame) (shown' : Shows after next) : Succeeds frame next := by
  have stepped := stepsTo_of_resolves steps.1 steps.2
  obtain ⟨op, decoded, moved⟩ := stepped.moves
  have same : Opcode.ofByte frame.op = op := Option.some.inj (shown.opcode.symm.trans decoded)
  have cost : frame.gasCost = op.gasTable := same ▸ shown.gasCost
  constructor
  · rw [shown.gasLeft, shown'.gasLeft, cost]
    exact paid_of_steps steps decoded (cost ▸ shown.enough)
  · rw [shown.pc, shown'.pc]
    rcases moved with on | ⟨jumps, marked⟩
    · left
      rw [on, ← same, width_ofByte]
    · -- A mark is a jump destination, which is what the next line then shows.
      right
      rw [charted.marks, analyzeJumpdests_marks, ← stepped.sameFrame.code, shown'.here] at marked
      exact ⟨ofByte_jumps _ (same ▸ jumps), Option.some.inj marked.2⟩

end Frames

section Loops

variable {host : Host}

/-- One round of a loop, by what its step came to. -/
theorem runWithoutSync_succ {evm : Evm} (running : evm.pc < evm.code.length) (fuel : Nat) :
    runWithoutSync host (fuel + 1) evm =
      (stepFrame host fuel evm >>= fun ended =>
        if ended.1 = .halt then runWithoutSync host fuel ended.2 else .value ended) := by
  have running' : (machine host).running evm = true := decide_eq_true running
  unfold runWithoutSync loop stepFrame
  rw [trace]
  simp only [running', if_true]
  -- The history that the loop writes down is dropped on both sides.
  change ((((step host evm).resolve .halt _) >>= _) >>= _) = _
  cases (step host evm).resolve .halt ((machine host).nested ((machine host).trace fuel)) with
  | outOfFuel => rfl
  | fault cause => rfl
  | value ended =>
    obtain ⟨kept, result, after⟩ := ended
    simp only [Outcome.value_bind, Outcome.pure_eq]
    by_cases goes : result = .halt
    · have goes' : result = (machine host).halt := goes
      rw [if_pos goes', if_pos goes]
      cases (machine host).trace fuel after with
      | outOfFuel => rfl
      | fault cause => rfl
      | value last => rfl
    · have stops : ¬ result = (machine host).halt := goes
      rw [if_neg stops, if_neg goes]
      rfl

/-- A frame at the end of its code runs no further. -/
theorem runWithoutSync_of_idle {evm : Evm} (idle : ¬ evm.pc < evm.code.length) (fuel : Nat) :
    runWithoutSync host (fuel + 1) evm = .value (.halt, evm) := by
  have idle' : (machine host).running evm = false := decide_eq_false idle
  rw [runWithoutSync, loop, trace_of_idle _ idle']
  rfl

/-- What a traced loop comes to is what it comes to without a tracer. -/
theorem tracedRunWithoutSync_snd (host : Host) (fuel : Nat) (evm : Evm) :
    (tracedRunWithoutSync host fuel evm).2 = runWithoutSync host fuel evm := by
  -- Every round makes the same step, and the tracer only adds to what was shown.
  induction fuel generalizing evm with
  | zero => rfl
  | succ fuel ih =>
    rw [tracedRunWithoutSync]
    by_cases running : evm.pc < evm.code.length
    · rw [if_pos running, runWithoutSync_succ running]
      cases stepFrame host fuel evm with
      | outOfFuel => rfl
      | fault cause => rfl
      | value ended =>
        obtain ⟨result, after⟩ := ended
        by_cases goes : result = .halt
        · simp only [Outcome.value_bind, if_pos goes]
          exact ih after
        · simp only [Outcome.value_bind, if_neg goes]
    · rw [if_neg running, runWithoutSync_of_idle running]

/-- A step of the loop that aborts has no end. -/
theorem not_steps_of_stepFrame {fuel : Nat} {evm after : Evm} {cause : Fault}
    {kept : History Evm ExecutionResult} {result : ExecutionResult}
    (aborted : stepFrame host fuel evm = .fault cause) :
    ¬ (machine host).Steps evm kept result after := by
  unfold stepFrame at aborted
  rcases Outcome.bind_eq_fault aborted with inStep | ⟨ended, _, impossible⟩
  · exact not_steps_of_fault inStep
  · simp at impossible

/-- The ways in which a traced loop can go, from the last round to the first. -/
theorem tracedRunWithoutSync_induction
    {motive : Evm → List StepFrame × Outcome Fault (ExecutionResult × Evm) → Prop}
    (cut : ∀ evm, motive evm ([], .outOfFuel))
    (idle : ∀ evm, (machine host).running evm = false → motive evm ([], .value (.halt, evm)))
    (unfinished : ∀ evm outcome, (machine host).Rounds evm [evm] outcome →
      (∀ ended, outcome ≠ .value ended) → motive evm ((tracedFrame evm).toList, outcome))
    (stop : ∀ evm kept result after, (machine host).Steps evm kept result after →
      result ≠ .halt → motive evm ((tracedFrame evm).toList, .value (result, after)))
    (next : ∀ evm frame kept after later outcome, Shows evm frame →
      (machine host).Steps evm kept .halt after →
      motive after (later, outcome) → motive evm (frame :: later, outcome))
    (fuel : Nat) (evm : Evm) : motive evm (tracedRunWithoutSync host fuel evm) := by
  induction fuel generalizing evm with
  | zero => exact cut evm
  | succ fuel ih =>
    rw [tracedRunWithoutSync]
    split
    · rename_i running
      have running' : (machine host).running evm = true := decide_eq_true running
      cases stepped : stepFrame host fuel evm with
      | outOfFuel => exact unfinished evm _ (.cutInside running') (by simp)
      | fault cause =>
        have endless : ∀ kept result after, ¬ (machine host).Steps evm kept result after :=
          fun _ _ _ => not_steps_of_stepFrame stepped
        exact unfinished evm _ (.abort running' endless) (by simp)
      | value ended =>
        obtain ⟨result, after⟩ := ended
        obtain ⟨kept, resolved⟩ := stepFrame_eq_value stepped
        have steps : (machine host).Steps evm kept result after :=
          steps_of_resolve _ running' resolved
        by_cases goes : result = .halt
        · -- A step on which the loop goes on has been shown.
          subst goes
          obtain ⟨frame, shown⟩ := exists_tracedFrame steps
          simp only [if_true, shown, Option.toList_some, List.singleton_append]
          exact next evm frame kept after _ _ (shows_of_tracedFrame shown) steps (ih after)
        · simp only [if_neg goes]
          exact stop evm kept result after steps goes
    · rename_i idle'
      exact idle evm (decide_eq_false idle')

/-- The text that the listing and the trace have for an instruction of the same code. -/
theorem formatInstruction_instructionAt {code : Bytes} {frame : StepFrame}
    (mnemonic : frame.mnemonic = opcodeMnemonic frame.op) :
    Cli.formatInstruction (instructionAt code frame.pc frame.op) =
      Cli.paddedHex frame.pc ++ " | " ++ Cli.traceMnemonic frame code := by
  unfold Cli.formatInstruction Cli.traceMnemonic instructionAt pushBytesAt
  rw [mnemonic]
  by_cases push : 0x60 ≤ frame.op ∧ frame.op ≤ 0x7F
  · -- The two sizes are computed from different ends of the range of pushes.
    have low : 0x60 ≤ frame.op.toNat := push.1
    have size : (frame.op - 0x5F).toNat = frame.op.toNat - 0x60 + 1 := by
      rw [UInt8.toNat_sub_of_le _ _ (UInt8.le_iff_toNat_le.mpr (by simp; omega))]
      simp
      omega
    simp only [push, and_self, if_true, size, Option.map_some, Option.getD_some,
      String.append_assoc]
  · simp only [push, if_false, Option.map_none, Option.getD_none, String.append_empty]

/-- Everything behind the opcode is the rest of the line. -/
theorem exists_printTrace (frame : StepFrame) (code : Bytes) :
    ∃ rest, Cli.printTrace frame code =
      "[PC: " ++ Cli.paddedHex frame.pc ++ "] | OP: " ++ Cli.traceMnemonic frame code ++ rest := by
  unfold Cli.printTrace
  -- Padding, gas and stack follow the name of the opcode.
  refine ⟨String.ofList (List.replicate (14 - (Cli.traceMnemonic frame code).length) ' ') ++
    (" | GAS: " ++ (toString frame.gasLeft ++ (" (-" ++ (toString frame.gasCost ++
      (") | STACK: [" ++ (", ".intercalate (frame.stack.map Cli.formatU256) ++ "]")))))), ?_⟩
  simp only [String.append_assoc]

/-- An instruction and a traced step stand at the same place and are printed alike. -/
structure PrintedAlike (code : Bytes) (instruction : Instruction) (frame : StepFrame) : Prop where
  pc : instruction.pc = frame.pc
  opcode : instruction.opcode = frame.op
  text : ∃ text rest,
    Cli.formatInstruction instruction = Cli.paddedHex frame.pc ++ " | " ++ text ∧
    Cli.printTrace frame code = "[PC: " ++ Cli.paddedHex frame.pc ++ "] | OP: " ++ text ++ rest

/-- What a frame shows is listed, under the same text. -/
theorem Shows.listed {evm : Evm} {frame : StepFrame} (charted : Charted evm)
    (shows : Shows evm frame) :
    ∃ instruction ∈ disassemble evm.code, PrintedAlike evm.code instruction frame := by
  obtain ⟨instruction, listed, place, op⟩ :=
    (disassemble_lists evm.pc frame.op).mpr ⟨charted.leads, shows.here⟩
  -- There is one instruction at each place of the listing.
  have whole := eq_instructionAt_of_listed evm.code.length 0 instruction listed
  refine ⟨instruction, listed, place.trans shows.pc.symm, op, ?_⟩
  obtain ⟨rest, printed⟩ := exists_printTrace frame evm.code
  rw [whole, place, op, ← shows.pc]
  exact ⟨_, rest, formatInstruction_instructionAt shows.mnemonic, printed⟩

/-- What holds of all that a traced loop shows. -/
structure Narrated (host : Host) (evm : Evm)
    (traced : List StepFrame × Outcome Fault (ExecutionResult × Evm)) : Prop where
  rounds : ∃ states, (machine host).Rounds evm states traced.2 ∧
    List.Forall₂ Shows (states.filter Evm.affords) traced.1
  listed : ∀ frame ∈ traced.1, ∃ instruction ∈ disassemble evm.code,
    PrintedAlike evm.code instruction frame
  first : ∀ frame ∈ traced.1.head?, Shows evm frame
  chain : traced.1.IsChain Succeeds
  paid : ∀ result final, traced.2 = .value (result, final) →
    (traced.1.map StepFrame.gasCost).sum + final.gasLeft ≤ evm.gasLeft

/-- A loop that shows nothing is told as soon as its states are. -/
theorem Narrated.of_silent {evm : Evm} {outcome : Outcome Fault (ExecutionResult × Evm)}
    (rounds : (machine host).Rounds evm [] outcome)
    (paid : ∀ result final, outcome = .value (result, final) → final.gasLeft ≤ evm.gasLeft) :
    Narrated host evm ([], outcome) := by
  refine ⟨⟨[], rounds, .nil⟩, by simp, by simp, .nil, fun result final ended => ?_⟩
  simpa using paid result final ended

/-- A loop of one round is told as soon as that round is. -/
theorem Narrated.of_last {evm : Evm} {outcome : Outcome Fault (ExecutionResult × Evm)}
    (charted : Charted evm) (rounds : (machine host).Rounds evm [evm] outcome)
    (paid : ∀ result final, outcome = .value (result, final) →
      ((tracedFrame evm).toList.map StepFrame.gasCost).sum + final.gasLeft ≤ evm.gasLeft) :
    Narrated host evm ((tracedFrame evm).toList, outcome) := by
  refine ⟨⟨[evm], rounds, shows_tracedFrame evm⟩, ?_, ?_, ?_, paid⟩
  · intro frame member
    exact (shows_of_tracedFrame (Option.mem_toList.mp member)).listed charted
  · intro frame member
    exact shows_of_tracedFrame (Option.mem_toList.mp (List.mem_of_mem_head? member))
  · -- A single frame is a chain, and so is none.
    cases tracedFrame evm with
    | none => exact .nil
    | some frame => exact .singleton frame

/-- A round of the loop is told together with the rounds behind it. -/
theorem Narrated.next {evm after : Evm} {frame : StepFrame} {later : List StepFrame}
    {kept : History Evm ExecutionResult} {outcome : Outcome Fault (ExecutionResult × Evm)}
    (charted : Charted evm) (shows : Shows evm frame)
    (steps : (machine host).Steps evm kept .halt after)
    (rest : Narrated host after (later, outcome)) : Narrated host evm (frame :: later, outcome) := by
  have same := (stepsTo_of_resolves steps.1 steps.2).sameFrame
  -- A round that goes on has paid, so that it is among the states that are shown.
  have rich : evm.affords = true := by
    unfold Evm.affords
    rw [shows.opcode]
    simpa [shows.gasCost] using shows.enough
  constructor
  · obtain ⟨states, rounds, shown⟩ := rest.rounds
    refine ⟨evm :: states, .next steps rounds, ?_⟩
    rw [List.filter_cons_of_pos rich]
    exact .cons shows shown
  · refine List.forall_mem_cons.mpr ⟨shows.listed charted, ?_⟩
    rw [← same.code]
    exact rest.listed
  · intro first member
    cases member
    exact shows
  · refine List.isChain_cons.mpr ⟨?_, rest.chain⟩
    exact fun next member => succeeds_of_steps charted steps shows (rest.first next member)
  · -- The round pays the price that its frame shows, and the rounds behind it pay theirs.
    intro result final ended
    have later := rest.paid result final ended
    have paid := paid_of_steps steps shows.opcode (shows.gasCost ▸ shows.enough)
    rw [← shows.gasCost] at paid
    simp only at later
    simp only [List.map_cons, List.sum_cons]
    omega

/-- Every run is narrated by what its tracer is shown. -/
theorem narrated (host : Host) (fuel : Nat) {evm : Evm} (charted : Charted evm) :
    Narrated host evm (tracedRunWithoutSync host fuel evm) := by
  -- The induction is on the rounds of the traced loop, from the last one back.
  refine tracedRunWithoutSync_induction
    (motive := fun evm traced => Charted evm → Narrated host evm traced)
    ?_ ?_ ?_ ?_ ?_ fuel evm charted
  · exact fun evm charted => .of_silent .cutBefore (by simp)
  · intro evm idle charted
    refine .of_silent (.idle idle) fun result final ended => ?_
    cases ended
    exact Nat.le_refl _
  · exact fun evm outcome rounds open_ charted =>
      .of_last charted rounds fun result final ended => absurd ended (open_ _)
  · intro evm kept result after steps stops charted
    refine .of_last charted (.stop steps stops) fun _ _ ended => ?_
    cases ended
    cases shown : tracedFrame evm with
    | none =>
      have fell : after.gasLeft ≤ evm.gasLeft := by
        rcases (stepsTo_of_resolves steps.1 steps.2).gas gas_of_runsNested with less | ⟨le, _⟩
        · exact Nat.le_of_lt less
        · exact le
      simpa using fell
    | some frame =>
      have shows := shows_of_tracedFrame shown
      have paid := paid_of_steps steps shows.opcode (shows.gasCost ▸ shows.enough)
      rw [← shows.gasCost] at paid
      simp only [Option.toList_some, List.map_cons, List.map_nil, List.sum_cons, List.sum_nil]
      omega
  · exact fun evm frame kept after later outcome shows steps ih charted =>
      .next charted shows steps (ih (charted.step steps))

end Loops

/-- A tracer changes nothing in a run. -/
theorem tracedRun_snd (host : Host) (fuel : Nat) (evm : Evm) :
    (tracedRun host fuel evm).2 = run host fuel evm := by
  unfold tracedRun run
  rw [← tracedRunWithoutSync_snd]

/--
What a trace shows is what the run does.

A tracer changes nothing.
It is shown the states that the run's own frame steps from, all of them and in order, except for a
last one that cannot pay for its opcode.
Each of them is printed with the text that the listing has at that place.
From one line to the next the gas falls by the printed cost or more, and the next line is the one
that is listed next, unless a jump has led to a jump destination.
All the printed costs together are no more than what the run has used up.
The frame has to start where an instruction starts, with the jump marks of its own code.
-/
theorem traces_follow_the_listing (host : Host) (fuel : Nat) (evm : Evm) (charted : Charted evm) :
    (tracedRun host fuel evm).2 = run host fuel evm ∧
    (∃ states, (machine host).Rounds (syncLegacyStateIntoFork evm) states
        (runWithoutSync host fuel (syncLegacyStateIntoFork evm)) ∧
      List.Forall₂ Shows (states.filter Evm.affords) (tracedRun host fuel evm).1) ∧
    (∀ frame ∈ (tracedRun host fuel evm).1, ∃ instruction ∈ disassemble evm.code,
      PrintedAlike evm.code instruction frame) ∧
    ((tracedRun host fuel evm).1.IsChain fun frame next =>
      next.gasLeft + frame.gasCost ≤ frame.gasLeft ∧
      (next.pc = frame.pc + byteWidth frame.op ∨
        (frame.op = 0x56 ∨ frame.op = 0x57) ∧ next.op = 0x5B)) ∧
    (∀ result final, run host fuel evm = .value (result, final) →
      ((tracedRun host fuel evm).1.map StepFrame.gasCost).sum + final.gasLeft ≤ evm.gasLeft) := by
  -- The copy at the entrance changes neither the code nor its chart.
  have told : Narrated host (syncLegacyStateIntoFork evm)
      (tracedRunWithoutSync host fuel (syncLegacyStateIntoFork evm)) :=
    narrated host fuel ⟨charted.marks, charted.leads⟩
  refine ⟨tracedRun_snd host fuel evm, ?_, told.listed, ?_, ?_⟩
  · rw [← tracedRunWithoutSync_snd]
    exact told.rounds
  · exact told.chain.imp fun _ _ follows => ⟨follows.gas, follows.pc⟩
  · intro result final ran
    change ((tracedRunWithoutSync host fuel (syncLegacyStateIntoFork evm)).1.map _).sum + _ ≤ _
    obtain ⟨history, last, looped, rfl⟩ := run_eq_value ran
    have ended : (tracedRunWithoutSync host fuel (syncLegacyStateIntoFork evm)).2 =
        .value (result, last) := by
      rw [tracedRunWithoutSync_snd]
      exact runWithoutSync_eq_value.mpr ⟨history, looped⟩
    have paid := told.paid result last ended
    simpa using paid

/-- A sum of two pushed words, followed by a jump to nowhere. -/
def sumCode : Bytes := [0x60, 0x0a, 0x61, 0x01, 0x02, 0x01, 0x56]

/-- The four states of that run are shown, and each of them is listed. -/
theorem traces_follow_the_listing_sum :
    (tracedRun (tableHost []) 10 (Evm.newWithGas sumCode 100)).1.length = 4 ∧
    (tracedRun (tableHost []) 10 (Evm.newWithGas sumCode 100)).2 =
        run (tableHost []) 10 (Evm.newWithGas sumCode 100) ∧
      ∀ frame ∈ (tracedRun (tableHost []) 10 (Evm.newWithGas sumCode 100)).1,
        ∃ instruction ∈ disassemble sumCode, PrintedAlike sumCode instruction frame := by
  have charted : Charted (Evm.newWithGas sumCode 100) := ⟨rfl, .refl⟩
  obtain ⟨same, _, listed, _⟩ := traces_follow_the_listing (tableHost []) 10 _ charted
  exact ⟨by decide +kernel, same, listed⟩

example : (tracedRun (tableHost []) 10 (Evm.newWithGas sumCode 100)).1.map
    (Cli.printTrace · sumCode) =
    ["[PC: 0000] | OP: PUSH1 0x0a     | GAS: 100 (-3) | STACK: []",
      "[PC: 0002] | OP: PUSH2 0x0102   | GAS: 97 (-3) | STACK: [0x0a]",
      "[PC: 0005] | OP: ADD            | GAS: 94 (-3) | STACK: [0x0a, 0x0102]",
      "[PC: 0006] | OP: JUMP           | GAS: 91 (-8) | STACK: [0x010c]"] := by
  decide +kernel

end MiniEvm
