import MiniEvm.Proofs.Vm.Merges
import MiniEvm.Vm.Simulation

/-! Static frames: what a STATICCALL and the frames below it may change. -/

namespace MiniEvm

open Frames

variable {host : Host} {evm after : Evm}

/-- Nothing that a caller can read has changed, and nothing was logged. -/
structure ReadOnly (before after : Evm) : Prop where
  view : before.state.SameView after.state
  logs : after.logs = before.logs

theorem ReadOnly.refl (evm : Evm) : ReadOnly evm evm := ⟨.refl _, rfl⟩

theorem ReadOnly.trans {a b c : Evm} (first : ReadOnly a b) (second : ReadOnly b c) :
    ReadOnly a c :=
  ⟨first.view.trans second.view, second.logs.trans first.logs⟩

theorem Drift.readOnly (drift : Drift evm after) : ReadOnly evm after :=
  ⟨drift.state ▸ .refl _, drift.logs⟩

/-- In a static frame every effect is a plain one. -/
theorem Effect.readOnly {op : Opcode} (effect : Effect evm op after) (static : evm.isStatic = true) :
    ReadOnly evm after := by
  -- Every writer checks the flag before anything else.
  cases effect with
  | plain _ drift => exact drift.readOnly
  | sstore mutable | tstore mutable | log mutable | selfdestruct mutable =>
    exact absurd (static.symm.trans mutable) (by decide)

/-- A static loop stays static and changes nothing. -/
def StaticReadOnly (_ : History Evm ExecutionResult) (before after : Evm) : Prop :=
  before.isStatic = true → after.isStatic = true ∧ ReadOnly before after

/-- A call of a frame that changes nothing changes nothing. -/
theorem CallOpening.readOnly {forceStatic delegate : Bool} {setup : CallSetup} {mid last : Evm}
    {outcome : ExecutionResult} (opening : CallOpening evm forceStatic delegate setup mid)
    (indexed : evm.state.SnapshotsIndexed)
    (ran : ReadOnly (calledFrame mid delegate setup) last)
    (quiet : Quiet (afterCall mid outcome last) after) : ReadOnly evm after := by
  refine opening.drift.readOnly.trans ?_
  -- Until the frame opened nothing was written, so only the merge matters.
  rw [← opening.drift.state] at indexed
  cases succeeded : outcome.isSuccess with
  | true =>
    -- The callee started on a snapshot of the caller's fork, and without logs.
    rw [afterCall_of_success succeeded] at quiet
    have logs : last.logs = [] := ran.logs
    refine ⟨?_, ?_⟩
    · rw [quiet.state]
      exact (StateFork.SameView.snapshot mid.state).trans ran.view
    · rw [quiet.logs, logs, List.append_nil]
  | false =>
    rw [afterCall_of_failure indexed.fresh succeeded] at quiet
    exact { quiet.drift.readOnly with }

/-- The frame that a static call opens is static. -/
theorem CallOpening.static {forceStatic delegate : Bool} {setup : CallSetup} {mid : Evm}
    (opening : CallOpening evm forceStatic delegate setup mid)
    (static : (evm.isStatic || forceStatic) = true) :
    (calledFrame mid delegate setup).isStatic = true :=
  opening.prepared.isStatic.trans static

/-- A step of a static frame changes nothing, as soon as the frame below it does not. -/
theorem StepsTo.readOnly
    {nested : Evm → History Evm ExecutionResult → ExecutionResult → Evm → Prop}
    {kept : History Evm ExecutionResult} {result : ExecutionResult}
    (below : ∀ {child history outcome last}, nested child history outcome last →
      child.isStatic = true → ReadOnly child last)
    (indexed : evm.state.SnapshotsIndexed) (stepped : StepsTo host nested evm kept result after)
    (static : evm.isStatic = true) : ReadOnly evm after := by
  -- A static frame creates nothing, and the frames it calls are static again.
  cases stepped with
  | stopped drift _ => exact drift.readOnly
  | done _ effect _ => exact effect.readOnly static
  | called opening ran quiet =>
    exact opening.readOnly indexed (below ran (opening.static (by simp [static]))) quiet
  | created opening _ _ _ => exact absurd (static.symm.trans opening.mutable) (by decide)

/-- Every frame that this step opens finds all old maps in agreement with its fork. -/
def OpensOnAgreeingCopy (host : Host) (evm : Evm) : Prop :=
  ∀ sofar child, (machine host).Opens evm sofar child → CopyAgrees child

/-- A nested frame changes nothing if its loop does not and its copy agrees. -/
theorem readOnly_of_within {child last : Evm} {history : History Evm ExecutionResult}
    {outcome : ExecutionResult} (agrees : CopyAgrees child)
    (within : (machine host).Within StaticReadOnly child history outcome last)
    (static : child.isStatic = true) : ReadOnly child last := by
  obtain ⟨stop, _, keeps, rfl⟩ := within
  -- The copy in is not seen, the loop changes nothing, and the copy out leaves the fork alone.
  have opened : ReadOnly child (syncLegacyStateIntoFork child) :=
    ⟨sameView_syncLegacyStateIntoFork agrees, rfl⟩
  have closed : ReadOnly stop (syncForkIntoLegacyState host stop) :=
    ⟨by rw [syncForkIntoLegacyState_state]; exact .refl _, syncForkIntoLegacyState_logs stop⟩
  exact (opened.trans (keeps static).2).trans closed

/-- One step of a static loop, given what the frames it opens come to. -/
theorem staticReadOnly_of_resolves {kept : History Evm ExecutionResult} {result : ExecutionResult}
    (running : (machine host).running evm = true)
    (allowed : evm.state.SnapshotsIndexed ∧ OpensOnAgreeingCopy host evm)
    (resolved : (step host evm).Resolves .halt ((machine host).Within StaticReadOnly)
      kept result after) :
    StaticReadOnly (kept ++ [⟨evm, result, after⟩]) evm after := by
  intro static
  -- Each frame below was opened by this very step, so its copy agrees.
  have stepped := stepsTo_of_resolves running (Machine.resolves_within_opened running resolved)
  refine ⟨stepped.sameFrame.isStatic.trans static, stepped.readOnly ?_ allowed.1 static⟩
  rintro child history outcome last ⟨⟨sofar, opens⟩, within⟩ static
  exact readOnly_of_within (allowed.2 sofar child opens) within static

/-- A static run changes nothing, while copies agree with the fork. -/
theorem staticReadOnly_of_trace {start final : Evm} {fuel : Nat}
    {history : History Evm ExecutionResult} {result : ExecutionResult}
    (indexed : start.state.SnapshotsIndexed)
    (agrees : ∀ seen visited, (machine host).Reaches start seen visited →
      OpensOnAgreeingCopy host visited)
    (looped : (machine host).trace fuel start = .value (history, result, final)) :
    StaticReadOnly history start final := by
  -- Staticness and read-only change compose along the loop.
  refine Machine.trace_relates StaticReadOnly
    (fun visited => visited.state.SnapshotsIndexed ∧ OpensOnAgreeingCopy host visited)
    ?_ ?_ staticReadOnly_of_resolves fuel ?_ looped
  · exact fun state static => ⟨static, .refl state⟩
  · intro _ _ _ _ _ first second static
    obtain ⟨stays, one⟩ := first static
    obtain ⟨ends, other⟩ := second stays
    exact ⟨ends, one.trans other⟩
  · exact fun seen visited reaches _ =>
      ⟨indexed_of_reaches indexed reaches, agrees seen visited reaches⟩

/--
A STATICCALL is read-only.

The condition is on the frames opened by it and below it: each finds the old maps that are copied
into its fork in agreement with that fork.
-/
theorem staticcall_read_only (host : Host) (evm : Evm) (fuel : Nat) (result : ExecutionResult)
    (after : Evm) (indexed : evm.state.SnapshotsIndexed) (decoded : evm.opcode = some .staticcall)
    (agrees : OpensOnAgreeingCopy host evm)
    (agreesBelow : ∀ sofar child, (machine host).Opens evm sofar child → ∀ seen visited,
      (machine host).Reaches (syncLegacyStateIntoFork child) seen visited →
        OpensOnAgreeingCopy host visited)
    (stepped : stepFrame host fuel evm = .value (result, after)) :
    evm.state.SameView after.state ∧ after.logs = evm.logs := by
  have running : (machine host).running evm = true := running_of_opcode decoded
  obtain ⟨kept, resolved⟩ := stepFrame_eq_value stepped
  -- The frames it opened ran to their ends, and every one of them was static.
  have within : (step host evm).Resolves .halt (fun child history outcome last =>
      child.isStatic = true → ReadOnly child last) kept result after := by
    refine Tree.resolves_of_resolve (machine host).runsNested_of_nested ?_ resolved
    intro sofar child past outcome last enters ran static
    obtain ⟨stop, looped, rfl⟩ := (machine host).nested_eq_value ran
    have opens : (machine host).Opens evm sofar child := ⟨running, enters⟩
    have fresh := (opened_of_enters enters).2.indexed indexed
    exact readOnly_of_within (agrees sofar child opens)
      ⟨stop, ⟨fuel, looped⟩, staticReadOnly_of_trace fresh (agreesBelow sofar child opens) looped,
        rfl⟩ static
  -- The caller itself need not be static, so this step is taken apart on its own.
  have changed : ReadOnly evm after := by
    cases stepsTo_of_resolves running within with
    | stopped drift _ => exact drift.readOnly
    | done found effect _ =>
      obtain rfl := Option.some.inj (found.symm.trans decoded)
      cases effect with
      | plain _ drift => exact drift.readOnly
    | @called forceStatic delegate setup mid _ outcome last _ _ opening ran quiet =>
      -- Of the three ways to call, only this opcode forces the flag.
      have forced : forceStatic = true := by
        have same := Option.some.inj (opening.opcode.symm.trans decoded)
        cases forceStatic <;> cases delegate <;> first | rfl | cases same
      exact opening.readOnly indexed (ran (opening.static (by simp [forced]))) quiet
    | @created value salt initCode mid _ outcome last _ _ opening _ _ =>
      have same := Option.some.inj (opening.opcode.symm.trans decoded)
      cases salt <;> cases same
  exact ⟨changed.view, changed.logs⟩

/-- An account whose code reads one of its slots. -/
def slotReader : StateFork where
  baseState := (∅ : HashMap Address AccountState).insert 0x0b
    { code := [0x60, 0, 0x54], storage := (∅ : HashMap Word Word).insert 0 5 }

/-- A frame about to look at that account. -/
def staticcallToReader : Evm :=
  { Evm.newWithGas [0xfa] 100000 with
    stack := ⟨[0xffff, 0x0b, 0, 0, 0, 0], by decide⟩
    state := slotReader }

theorem staticcall_read_only_reader :
    ∃ result after, stepFrame (tableHost []) 5 staticcallToReader = .value (result, after) ∧
      after.stack.data = [1] ∧ staticcallToReader.state.SameView after.state ∧
      after.logs = staticcallToReader.logs := by
  have ended : endsWith (stepFrame (tableHost []) 5 staticcallToReader)
      (fun ended => ended.2.stack.data = [1]) = true := by
    decide +kernel
  obtain ⟨⟨result, after⟩, stepped, noted⟩ := exists_of_endsWith ended
  -- The only frame it opens runs the reader's code on empty maps.
  have frame : ∀ {sofar child}, (machine (tableHost [])).Opens staticcallToReader sofar child →
      child.code = [0x60, 0, 0x54] ∧ CopyAgrees child := by
    intro sofar child opens
    cases (opened_of_enters opens.2).2 with
    | @call forceStatic delegate setup mid opening =>
      obtain ⟨gasWord, addressWord, rest, operands, target⟩ := opening.prepared.target
      have operands : [0xffff, 0x0b, 0, 0, 0, 0] = gasWord :: addressWord :: rest := operands
      obtain ⟨_, rfl, _⟩ := List.cons_eq_cons.mp operands |>.imp id List.cons_eq_cons.mp
      constructor
      · show mid.state.getCode setup.frame.target = _
        rw [opening.drift.state, target]
        rfl
      · -- The maps of the opener are empty, and those are the maps that are copied.
        have storage : mid.storage = ∅ := opening.drift.storage
        have contracts : mid.contracts = ∅ := opening.drift.contracts
        constructor <;> intro entry member
        · exact absurd (storage ▸ member) List.not_mem_nil
        · cases member
        · cases member
        · exact absurd (contracts ▸ member) List.not_mem_nil
    | @create value salt initCode mid opening =>
      have same : Opcode.staticcall = _ := Option.some.inj opening.opcode
      cases salt <;> cases same
  refine ⟨result, after, stepped, of_decide_eq_true noted, ?_⟩
  refine staticcall_read_only (tableHost []) staticcallToReader 5 result after
    (fun _ _ found => by simp [staticcallToReader, slotReader] at found) rfl
    (fun _ _ opens => (frame opens).2) ?_ stepped
  intro sofar child opens seen visited reaches past below opened
  -- That code opens no frames of its own.
  have closed : opensNothing (syncLegacyStateIntoFork child).code = true := by
    rw [show (syncLegacyStateIntoFork child).code = child.code from rfl, (frame opens).1]
    decide
  exact absurd opened (not_opens_of_reaches closed reaches)

/-- An account that stores one in its first slot, calls another, and looks at a third. -/
def storeCallStaticcall : StateFork where
  baseState := (∅ : HashMap Address AccountState).insert 0x0a
    { code := [0x60, 1, 0x60, 0, 0x55,
        0x60, 0, 0x60, 0, 0x60, 0, 0x60, 0, 0x60, 0, 0x60, 0x0b, 0x61, 0xff, 0xff, 0xf1,
        0x60, 0, 0x60, 0, 0x60, 0, 0x60, 0, 0x60, 0x0c, 0x61, 0xff, 0xff, 0xfa] }

/-- A step of a run that was a STATICCALL and wrote a slot of its callee. -/
def staticcallWrites (done : Transition Evm ExecutionResult) : Bool :=
  done.before.opcode = some .staticcall ∧ done.result = .halt ∧
    done.before.state.getStorage 0x0c 0 = 0 ∧ done.after.state.getStorage 0x0c 0 = 1

/-- The account that is only looked at has no code, and still a slot of it changes. -/
theorem staticcall_copies_slots_to_callee :
    ∃ history result final,
      (machine (tableHost [])).trace 30
        (syncLegacyStateIntoFork (simulationVm storeCallStaticcall 0x01 0x0a 0 [] 1000000)) =
          .value (history, result, final) ∧
      ∃ done ∈ history, done.before.opcode = some .staticcall ∧ done.result = .halt ∧
        ¬ done.before.state.SameView done.after.state := by
  have ended : endsWith ((machine (tableHost [])).trace 30
      (syncLegacyStateIntoFork (simulationVm storeCallStaticcall 0x01 0x0a 0 [] 1000000)))
      (fun ended => ended.1.any staticcallWrites) = true := by
    decide +kernel
  obtain ⟨⟨history, result, final⟩, ran, found⟩ := exists_of_endsWith ended
  obtain ⟨done, member, writes⟩ := List.any_eq_true.mp found
  obtain ⟨decoded, halted, before, after⟩ := of_decide_eq_true writes
  refine ⟨history, result, final, ran, done, member, decoded, halted, fun same => ?_⟩
  have read := same.storage 0x0c 0
  rw [before, after] at read
  exact absurd read (by decide)

end MiniEvm
