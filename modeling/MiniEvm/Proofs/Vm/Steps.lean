import MiniEvm.Proofs.Vm.Effects

/-! Everything one step can do: an effect of its own, a child frame with its merge, or an abort. -/

namespace MiniEvm

open EvmM Frames Frames.Program

/-- The opcode behind each way of calling. -/
def callOpcode (forceStatic delegate : Bool) : Opcode :=
  if forceStatic then .staticcall else if delegate then .delegatecall else .call

/-- The opcode behind each way of creating. -/
def createOpcode : Option Word → Opcode
  | none => .create
  | some _ => .create2

/-- A step that is about to open the frame of a called contract. -/
structure CallOpening (evm : Evm) (forceStatic delegate : Bool) (setup : CallSetup) (mid : Evm) :
    Prop where
  opcode : evm.opcode = some (callOpcode forceStatic delegate)
  single : (forceStatic && delegate) = false
  prepared : Prepared (evm.begin (callOpcode forceStatic delegate)) forceStatic setup mid
  contract : isPrecompile setup.frame.target = false

/-- A step that is about to open the frame of a constructor. -/
structure CreateOpening (evm : Evm) (value : Word) (salt : Option Word) (mid : Evm) : Prop where
  opcode : evm.opcode = some (createOpcode salt)
  operands : ∃ offset size,
    evm.stack.data = value :: offset :: size :: (salt.toList ++ mid.stack.data)
  mutable : evm.isStatic = false
  quiet : Quiet (evm.begin (createOpcode salt)) mid
  paid : mid.gasLeft + 32000 ≤ evm.gasLeft
  funded : value ≤ (mid.balances.lookup mid.selfAddress).getD 0

/-- The frame a call runs, from the state in which the call is prepared. -/
def calledFrame (mid : Evm) (delegate : Bool) (setup : CallSetup) : Evm :=
  callChild mid.takeSnapshot.2 delegate setup.frame

/-- The caller once its callee has come to an end. -/
def afterCall (mid : Evm) (result : ExecutionResult) (child : Evm) : Evm :=
  mergeCall mid.takeSnapshot.2 mid.takeSnapshot.1 result child

/-- The frame a creation runs, from the state in which its init code is read. -/
def createdFrame (host : Host) (mid : Evm) (value : Word) (salt : Option Word)
    (initCode : Bytes) : Evm :=
  let started := startDeploy host mid value salt initCode
  deployChild started.2 started.1 initCode (reserveCreate mid).1

/-- Whether the creator counts the outcome of its constructor as a success. -/
def createSucceeds (host : Host) (mid : Evm) (value : Word) (salt : Option Word)
    (initCode : Bytes) : ExecutionResult → Evm → Bool :=
  deploySucceeds (startDeploy host mid value salt initCode).2.gasLeft

/-- The creator once its constructor has come to an end, and what the creation came to. -/
def afterCreate (host : Host) (mid : Evm) (value : Word) (salt : Option Word) (initCode : Bytes)
    (result : ExecutionResult) (child : Evm) : Except VmError Word × Evm :=
  let started := startDeploy host mid value salt initCode
  mergeDeploy started.2 started.1 result child

/-- The shapes a step's tree can have. -/
inductive StepShape (host : Host) (evm : Evm) : Tree Evm ExecutionResult Fault Unit → Prop
  | idle : evm.opcode = none → StepShape host evm (.next () evm)
  | leaf {op tree} : evm.opcode = some op → StepLeaf host evm op tree → StepShape host evm tree
  | call {forceStatic delegate setup mid} : CallOpening evm forceStatic delegate setup mid →
      StepShape host evm (.enter (calledFrame mid delegate setup) (fun result _ => result.isSuccess)
        (fun result child =>
          finishCall host setup mid.takeSnapshot.1 result child mid.takeSnapshot.2))
  | create {value salt initCode mid} : CreateOpening evm value salt mid →
      StepShape host evm (.enter (createdFrame host mid value salt initCode)
        (createSucceeds host mid value salt initCode)
        (fun result child =>
          finishCreate (afterCreate host mid value salt initCode result child).1
            (afterCreate host mid value salt initCode result child).2))

section Shape

variable {host : Host} {evm : Evm}

/-- A handler whose first part is calm has the shape of its rest. -/
theorem StepShape.bind {α : Type} {op : Opcode} {first : EvmM α} {rest : α → EvmM Unit}
    {start : Evm} {post : α → Evm → Prop} (decoded : evm.opcode = some op)
    (sofar : Quiet (evm.begin op) start) (calm : Calm (CheckedOverflow host) start first post)
    (last : ∀ value mid, Quiet (evm.begin op) mid → post value mid →
      StepShape host evm (rest value mid)) :
    StepShape host evm ((first >>= rest) start) := by
  rw [bind_apply]
  -- Where the first part ends or aborts, the whole handler does, without a frame.
  rcases calm.cases with ⟨cause, stands, aborted⟩ | ⟨result, after, stands, ended⟩ |
    ⟨value, mid, stands, ended⟩
  · rw [stands]
    exact .leaf decoded aborted.aborts
  · rw [stands]
    exact .leaf decoded ⟨begin_drift.trans (sofar.trans ended.1).drift, ended.2⟩
  · rw [stands]
    exact last value mid (sofar.trans ended.1) ended.2

/-- A call to a precompile opens no frame and is paid for by what it does not give back. -/
theorem stepLeaf_callPrecompile {forceStatic delegate : Bool} {setup : CallSetup} {mid : Evm}
    (prepared : Prepared (evm.begin (callOpcode forceStatic delegate)) forceStatic setup mid) :
    StepLeaf host evm (callOpcode forceStatic delegate) (callPrecompile host setup mid) := by
  have drift : Drift evm mid := begin_drift.trans prepared.quiet.drift
  unfold callPrecompile
  -- An error of the precompile is an error of the caller, which ends quietly.
  cases executePrecompile host setup.frame.target setup.frame.input setup.frame.gasLimit with
  | error error =>
    cases error <;> exact ⟨drift, Stops.ne_halt⟩
  | ok used =>
    obtain ⟨gasUsed, output⟩ := used
    -- From here on the handler is quiet, with the unused gas and the output already in place.
    have refund : saturatingAdd mid.gasLeft (setup.frame.gasLimit - gasUsed) < evm.gasLeft := by
      have paid : mid.gasLeft + setup.frame.gasLimit < evm.gasLeft - _ := prepared.paid
      unfold saturatingAdd
      omega
    have rest : Calm (CheckedOverflow host)
        { mid with
          gasLeft := saturatingAdd mid.gasLeft (setup.frame.gasLimit - gasUsed)
          returnData := output }
        (do writeOutput setup.retOffset setup.retSize output
            push 1 (.error "Stack Overflow on CALL")) fun _ _ => True := by
      exact calm_handOver output (by exact prepared.window)
    refine stepLeaf_of_quietFrom ?_ ?_ ?_ refund rest.quietFrom
    · cases forceStatic <;> cases delegate <;> rfl
    · exact { drift with gas := Nat.le_of_lt refund }
    · rw [show mid.pc = evm.pc + 1 from prepared.quiet.pc]
      cases forceStatic <;> cases delegate <;> rfl

/-- A call ends its frame, runs a precompile, or opens a frame. -/
theorem stepShape_call (forceStatic delegate : Bool) (single : (forceStatic && delegate) = false)
    (decoded : evm.opcode = some (callOpcode forceStatic delegate)) :
    StepShape host evm
      (executeCall host forceStatic delegate (evm.begin (callOpcode forceStatic delegate))) := by
  refine StepShape.bind decoded (.refl _) (calm_prepareCall _ _) fun setup mid _ prepared => ?_
  -- The target alone decides whether a frame is opened.
  cases precompile : isPrecompile setup.frame.target with
  | true => exact .leaf decoded (stepLeaf_callPrecompile prepared)
  | false => exact .call ⟨decoded, single, prepared, precompile⟩

/-- A creation that is refused for its value only bumps a nonce and sets gas aside. -/
theorem stepLeaf_refused {mid : Evm} {salt : Option Word}
    (quiet : Quiet (evm.begin (createOpcode salt)) mid) (paid : mid.gasLeft + 32000 ≤ evm.gasLeft) :
    StepLeaf host evm (createOpcode salt) (finishCreate (.ok 0) (reserveCreate mid).2) := by
  have drift : Drift evm mid := begin_drift.trans quiet.drift
  -- Setting the child's gas aside only adds to what was paid.
  have less : (reserveCreate mid).2.gasLeft < evm.gasLeft := by
    show mid.gasLeft - _ < evm.gasLeft
    omega
  refine stepLeaf_of_quietFrom ?_ ?_ ?_ less (quietFrom_finishCreate host _)
  · cases salt <;> rfl
  · exact { drift with
      gas := Nat.le_of_lt less
      nonces := fun account other => (AList.lookup_insert_ne (by rwa [drift.selfAddress])).trans
        (drift.nonces account other) }
  · rw [show (reserveCreate mid).2.pc = evm.pc + 1 from quiet.pc]
    cases salt <;> rfl

/-- A creation ends its frame, is refused, or opens a frame. -/
theorem stepShape_create {start : Evm} {value offsetWord sizeWord : Word} (salt : Option Word)
    (decoded : evm.opcode = some (createOpcode salt)) (mutable : evm.isStatic = false)
    (operands : evm.stack.data =
      value :: offsetWord :: sizeWord :: (salt.toList ++ start.stack.data))
    (sofar : Quiet (evm.begin (createOpcode salt)) start) :
    StepShape host evm (executeCreate host value offsetWord sizeWord salt start) := by
  refine StepShape.bind decoded sofar (calm_prepareInitCode _ _ _) fun initCode mid quiet ready => ?_
  -- The base fee was paid out of what the operands left.
  have paid : mid.gasLeft + 32000 ≤ evm.gasLeft :=
    ready.1.trans (sofar.gas.trans begin_drift.gas)
  have notStatic : mid.isStatic = false := quiet.isStatic.trans mutable
  show StepShape host evm ((executeDeploy (createAddress host mid salt initCode) value initCode
    (reserveCreate mid).1 (reserveCreate mid).2).bind fun outcome => finishCreate outcome)
  -- Only the balance in the old map is left to decide.
  rw [executeDeploy_apply value salt initCode notStatic]
  simp only
  split
  · exact .leaf decoded (stepLeaf_refused quiet paid)
  · rename_i funded
    rw [← ready.2] at operands
    exact .create ⟨decoded, ⟨offsetWord, sizeWord, operands⟩, mutable, quiet, paid,
      BitVec.not_lt.mp funded⟩

/-- The operands of a creation come off the stack first. -/
theorem stepShape_opCreate (decoded : evm.opcode = some .create) :
    StepShape host evm (opCreate host (evm.begin .create)) := by
  refine StepShape.bind decoded (.refl _) calm_requireMutable fun _ s0 q0 mutable => ?_
  obtain ⟨notStatic, rfl⟩ := mutable
  refine StepShape.bind decoded (.refl _) (calm_pop _) fun value s1 q1 popValue => ?_
  refine StepShape.bind decoded q1 (calm_pop _) fun offset s2 q2 popOffset => ?_
  refine StepShape.bind decoded q2 (calm_pop _) fun size s3 q3 popSize => ?_
  refine stepShape_create none decoded notStatic ?_ q3
  -- The operands come off the stack in the order in which the opening records them.
  rw [Option.toList_none, List.nil_append, ← popSize.1, ← popOffset.1]
  exact popValue.1

/-- A creation with a salt has one more operand. -/
theorem stepShape_opCreate2 (decoded : evm.opcode = some .create2) :
    StepShape host evm (opCreate2 host (evm.begin .create2)) := by
  refine StepShape.bind decoded (.refl _) calm_requireMutable fun _ s0 q0 mutable => ?_
  obtain ⟨notStatic, rfl⟩ := mutable
  refine StepShape.bind decoded (.refl _) (calm_pop _) fun value s1 q1 popValue => ?_
  refine StepShape.bind decoded q1 (calm_pop _) fun offset s2 q2 popOffset => ?_
  refine StepShape.bind decoded q2 (calm_pop _) fun size s3 q3 popSize => ?_
  refine StepShape.bind decoded q3 (calm_pop _) fun salt s4 q4 popSalt => ?_
  -- The salt is the last operand.
  refine stepShape_create (some salt) decoded notStatic ?_ q4
  rw [Option.toList_some, List.singleton_append, ← popSalt.1, ← popSize.1, ← popOffset.1]
  exact popValue.1

/-- The handler of every opcode, started with its static cost paid, has one of the shapes. -/
theorem stepShape_dispatch {op : Opcode} (decoded : evm.opcode = some op)
    (enough : op.gasTable ≤ evm.gasLeft) :
    StepShape host evm (dispatch host op (evm.begin op)) := by
  -- Most opcodes fall into the two families.
  by_cases tame : op.isTame = true
  · obtain ⟨plain, single, positive⟩ := Opcode.facts_of_isTame tame
    exact .leaf decoded (stepLeaf_of_tame (tame_dispatch host tame) plain single positive enough)
  by_cases burning : op.isBurning = true
  · obtain ⟨plain, single⟩ := Opcode.facts_of_isBurning burning
    exact .leaf decoded (stepLeaf_of_burns (burns_dispatch host burning) plain single)
  -- What is left are the opcodes with a lemma of their own.
  cases op with
  | stop => exact .leaf decoded stepLeaf_stop
  | keccak256 => exact .leaf decoded (stepLeaf_keccak256 decoded enough)
  | returndatacopy => exact .leaf decoded (stepLeaf_returndatacopy decoded enough)
  | sstore => exact .leaf decoded stepLeaf_sstore
  | tstore => exact .leaf decoded (stepLeaf_tstore enough)
  | jump => exact .leaf decoded (stepLeaf_jump enough)
  | jumpi => exact .leaf decoded (stepLeaf_jumpi enough)
  | push1 => exact .leaf decoded (stepLeaf_push1 enough)
  | push2 => exact .leaf decoded (stepLeaf_push2 enough)
  | push size => exact .leaf decoded (stepLeaf_push size enough)
  | log topics => exact .leaf decoded (stepLeaf_log topics decoded)
  | selfdestruct => exact .leaf decoded stepLeaf_selfdestruct
  | create => exact stepShape_opCreate decoded
  | create2 => exact stepShape_opCreate2 decoded
  | call => exact stepShape_call false false rfl decoded
  | delegatecall => exact stepShape_call false true rfl decoded
  | staticcall => exact stepShape_call true false rfl decoded
  | _ => simp [Opcode.isTame, Opcode.isBurning, Opcode.gasTable] at tame burning

/-- What an opcode's static cost does before its handler runs. -/
theorem step_apply {op : Opcode} (decoded : evm.opcode = some op) :
    step host evm = if evm.gasLeft < op.gasTable then .exit .outOfGas evm
      else dispatch host op (evm.begin op) := by
  simp only [step, bind_apply, get_apply, Tree.bind, decoded, charge]
  split <;> rfl

/-- Past the end of code a step does nothing at all. -/
theorem step_of_idle (idle : evm.opcode = none) : step host evm = .next () evm := by
  simp only [step, bind_apply, get_apply, Tree.bind, idle, pure_apply]

/-- Every step has one of the shapes. -/
theorem stepShape (host : Host) (evm : Evm) : StepShape host evm (step host evm) := by
  cases decoded : evm.opcode with
  | none =>
    rw [step_of_idle decoded]
    exact .idle decoded
  | some op =>
    rw [step_apply decoded]
    split
    · -- A frame that cannot pay the static cost ends where it is.
      exact .leaf decoded ⟨(Quiet.refl evm).drift, Stops.ne_halt⟩
    · exact stepShape_dispatch decoded (by omega)

end Shape

section Inversion

variable {host : Host} {evm : Evm}
  {nested : Evm → History Evm ExecutionResult → ExecutionResult → Evm → Prop}

/-- A creator that goes on with the address it was given on top of its stack. -/
def Answered (creation : Except VmError Word) (result : ExecutionResult) (after : Evm) : Prop :=
  ∀ address, creation = .ok address → result = .halt ∧ after.stack.data.head? = some address

/-- How a step can have finished, given what the frame it opened may have come to. -/
inductive StepsTo (host : Host)
    (nested : Evm → History Evm ExecutionResult → ExecutionResult → Evm → Prop) (evm : Evm) :
    History Evm ExecutionResult → ExecutionResult → Evm → Prop
  | stopped {result after} : Drift evm after → result ≠ .halt → StepsTo host nested evm [] result after
  | done {op after} : evm.opcode = some op → Effect evm op after → Advance evm op after →
      StepsTo host nested evm [] .halt after
  | called {forceStatic delegate setup mid history outcome last result after} :
      CallOpening evm forceStatic delegate setup mid →
      nested (calledFrame mid delegate setup) history outcome last →
      Quiet (afterCall mid outcome last) after →
      StepsTo host nested evm (if outcome.isSuccess then history else []) result after
  | created {value salt initCode mid history outcome last result after} :
      CreateOpening evm value salt mid →
      nested (createdFrame host mid value salt initCode) history outcome last →
      Quiet (afterCreate host mid value salt initCode outcome last).2 after →
      Answered (afterCreate host mid value salt initCode outcome last).1 result after →
      StepsTo host nested evm
        (if createSucceeds host mid value salt initCode outcome last then history else [])
        result after

/-- The frames a step can open. -/
inductive Opened (host : Host) (evm : Evm) : Evm → Prop
  | call {forceStatic delegate setup mid} : CallOpening evm forceStatic delegate setup mid →
      Opened host evm (calledFrame mid delegate setup)
  | create {value salt initCode mid} : CreateOpening evm value salt mid →
      Opened host evm (createdFrame host mid value salt initCode)

/-- A caller resumes quietly from the merge with its callee. -/
theorem CallOpening.resumes {forceStatic delegate : Bool} {setup : CallSetup} {mid : Evm}
    (opening : CallOpening evm forceStatic delegate setup mid) (outcome : ExecutionResult)
    (last : Evm) : QuietFrom host (afterCall mid outcome last)
      (finishCall host setup mid.takeSnapshot.1 outcome last mid.takeSnapshot.2) :=
  quietFrom_finishCall _ _ outcome last (by exact opening.prepared.window)

/-- A quiet rest leaves no history and only a quiet change. -/
theorem QuietFrom.resolves {start after : Evm} {tree : Tree Evm ExecutionResult Fault Unit}
    {kept : History Evm ExecutionResult} {result : ExecutionResult} (quiet : QuietFrom host start tree)
    (resolved : tree.Resolves .halt nested kept result after) : kept = [] ∧ Quiet start after := by
  -- No frame is opened, so the tree is a single end.
  cases tree with
  | fault cause => exact resolved.elim
  | exit outcome state =>
    obtain ⟨rfl, rfl, rfl⟩ := resolved
    exact ⟨rfl, quiet.1⟩
  | next value state =>
    obtain ⟨rfl, rfl, rfl⟩ := resolved
    exact ⟨rfl, quiet⟩
  | enter child survives resume => exact quiet.elim

/-- Whatever both ways out of a creation leave behind, the creator goes on with. -/
theorem afterCreate_induction {mid last : Evm} {value : Word} {salt : Option Word}
    {initCode : Bytes} {outcome : ExecutionResult} {motive : Evm → Prop}
    (abandons : motive (abandonDeploy
      (joinDeploy (startDeploy host mid value salt initCode).2 outcome last)
      (startDeploy host mid value salt initCode).1))
    (commits : ∀ code gasLeft, motive (commitDeploy
      { joinDeploy (startDeploy host mid value salt initCode).2 outcome last with gasLeft }
      (startDeploy host mid value salt initCode).1.newAddr code last)) :
    motive (afterCreate host mid value salt initCode outcome last).2 := by
  simp only [afterCreate]
  -- The merge takes one of two ways, told by whether code was installed.
  rcases mergeDeploy_cases (startDeploy host mid value salt initCode).2
    (startDeploy host mid value salt initCode).1 outcome last with
    ⟨_, abandoned⟩ | ⟨_, code, _, committed⟩
  · rw [abandoned]
    exact abandons
  · rw [committed]
    exact commits code _

/-- The merge with a constructor leaves the stack alone. -/
theorem afterCreate_stack (host : Host) (mid : Evm) (value : Word) (salt : Option Word)
    (initCode : Bytes) (outcome : ExecutionResult) (last : Evm) :
    (afterCreate host mid value salt initCode outcome last).2.stack = mid.stack :=
  -- Neither committing nor abandoning touches the stack.
  afterCreate_induction (motive := fun after => after.stack = mid.stack) rfl fun _ _ => rfl

/-- A creation leaves room for its answer, having taken its operands off the stack. -/
theorem CreateOpening.answered {value : Word} {salt : Option Word} {initCode : Bytes}
    {mid last after : Evm} {outcome result : ExecutionResult} {later : History Evm ExecutionResult}
    (opening : CreateOpening evm value salt mid)
    (resumed : (finishCreate (afterCreate host mid value salt initCode outcome last).1
      (afterCreate host mid value salt initCode outcome last).2).Resolves .halt nested later
        result after) :
    Answered (afterCreate host mid value salt initCode outcome last).1 result after := by
  intro address answer
  obtain ⟨offset, size, operands⟩ := opening.operands
  -- At least three operands were taken off, so one value fits.
  have room : (afterCreate host mid value salt initCode outcome last).2.stack.data.length < 1024 := by
    rw [afterCreate_stack]
    have bounded := evm.stack.bounded
    simp only [operands, List.length_cons, List.length_append] at bounded
    omega
  obtain ⟨stack, pushed, top⟩ := finishCreate_of_room address room
  rw [answer, pushed] at resumed
  obtain ⟨_, rfl, rfl⟩ := resumed
  exact ⟨rfl, by rw [top]; rfl⟩

/-- A running frame has an opcode to execute. -/
theorem opcode_of_running (running : (machine host).running evm = true) :
    evm.opcode ≠ none := by
  have inside : evm.pc < evm.code.length := of_decide_eq_true running
  simp [Evm.opcode, inside]

/-- A frame with an opcode to execute is running. -/
theorem running_of_opcode {op : Opcode} (decoded : evm.opcode = some op) :
    (machine host).running evm = true := by
  obtain ⟨byte, found, _⟩ := Option.map_eq_some_iff.mp decoded
  exact decide_eq_true (List.getElem?_eq_some_iff.mp found).1

/-- Everything a finished step can have done. -/
theorem stepsTo_of_resolves {kept : History Evm ExecutionResult} {result : ExecutionResult}
    {after : Evm} (running : (machine host).running evm = true)
    (resolved : (step host evm).Resolves .halt nested kept result after) :
    StepsTo host nested evm kept result after := by
  generalize shaped : step host evm = tree at resolved
  have shape := stepShape host evm
  rw [shaped] at shape
  -- Each shape of the tree leaves one way in which the step can have finished.
  cases shape with
  | idle decoded => exact absurd decoded (opcode_of_running running)
  | leaf decoded leaf =>
    cases tree with
    | fault cause => exact resolved.elim
    | exit outcome state =>
      obtain ⟨rfl, rfl, rfl⟩ := resolved
      exact .stopped leaf.1 leaf.2
    | next value state =>
      obtain ⟨rfl, rfl, rfl⟩ := resolved
      exact .done decoded leaf.1 leaf.2
    | enter child survives resume => exact leaf.elim
  | call opening =>
    obtain ⟨history, outcome, last, later, ran, resumed, rfl⟩ := resolved
    -- After the merge the caller opens no further frame, so the history is the callee's.
    obtain ⟨rfl, quiet⟩ := (opening.resumes outcome last).resolves resumed
    rw [List.append_nil]
    exact .called opening ran quiet
  | create opening =>
    obtain ⟨history, outcome, last, later, ran, resumed, rfl⟩ := resolved
    obtain ⟨rfl, quiet⟩ := (quietFrom_finishCreate host _).resolves resumed
    rw [List.append_nil]
    exact .created opening ran quiet (opening.answered resumed)

/-- A merge with a callee stays in the caller's frame. -/
theorem afterCall_sameFrame (mid : Evm) (outcome : ExecutionResult) (last : Evm) :
    SameFrame mid (afterCall mid outcome last) ∧ (afterCall mid outcome last).pc = mid.pc := by
  unfold afterCall mergeCall
  split <;> exact ⟨by constructor <;> rfl, rfl⟩

/-- A merge with a constructor stays in the creator's frame. -/
theorem afterCreate_sameFrame (host : Host) (mid : Evm) (value : Word) (salt : Option Word)
    (initCode : Bytes) (outcome : ExecutionResult) (last : Evm) :
    SameFrame mid (afterCreate host mid value salt initCode outcome last).2 ∧
      (afterCreate host mid value salt initCode outcome last).2.pc = mid.pc := by
  -- Funding the creation stays in the frame, and so does either outcome.
  refine afterCreate_induction
    (motive := fun after => SameFrame mid after ∧ after.pc = mid.pc) ?_ fun code gasLeft => ?_
  · exact ⟨by constructor <;> rfl, rfl⟩
  · exact ⟨by constructor <;> rfl, rfl⟩

/-- Up to the opening the caller has only drifted. -/
theorem CallOpening.drift {forceStatic delegate : Bool} {setup : CallSetup} {mid : Evm}
    (opening : CallOpening evm forceStatic delegate setup mid) : Drift evm mid :=
  begin_drift.trans opening.prepared.quiet.drift

/-- Up to the opening a creator has only drifted. -/
theorem CreateOpening.drift {value : Word} {salt : Option Word} {mid : Evm}
    (opening : CreateOpening evm value salt mid) : Drift evm mid :=
  begin_drift.trans opening.quiet.drift

/-- Every step stays in its frame. -/
theorem StepsTo.sameFrame {kept : History Evm ExecutionResult} {result : ExecutionResult}
    {after : Evm} (stepped : StepsTo host nested evm kept result after) : SameFrame evm after := by
  -- A frame below comes and goes, and the opener goes on as it was.
  cases stepped with
  | stopped drift _ => exact drift.toSameFrame
  | done _ effect _ => exact effect.sameFrame
  | called opening _ quiet =>
    exact (opening.drift.toSameFrame.trans (afterCall_sameFrame _ _ _).1).trans
      quiet.drift.toSameFrame
  | created opening _ quiet _ =>
    exact (opening.drift.toSameFrame.trans (afterCreate_sameFrame _ _ _ _ _ _ _).1).trans
      quiet.drift.toSameFrame

/-- A step on which the loop goes on moves behind its instruction or to a marked destination. -/
theorem StepsTo.lands {kept : History Evm ExecutionResult} {after : Evm}
    (stepped : StepsTo host nested evm kept .halt after) :
    ∃ op, evm.opcode = some op ∧ (after.pc = evm.pc + op.width ∨
      evm.validJumpdests[after.pc]? = some true) := by
  cases stepped with
  | stopped _ early => exact absurd rfl early
  | done decoded _ advance => exact ⟨_, decoded, advance.pc.imp id And.right⟩
  | @called forceStatic delegate setup mid _ _ _ _ _ opening _ quiet =>
    -- Calls and creations are one byte wide, and the merge leaves the position alone.
    refine ⟨_, opening.opcode, .inl ?_⟩
    rw [quiet.pc, (afterCall_sameFrame _ _ _).2, opening.prepared.quiet.pc]
    cases forceStatic <;> cases delegate <;> rfl
  | @created value salt initCode mid _ _ _ _ _ opening _ quiet =>
    refine ⟨_, opening.opcode, .inl ?_⟩
    rw [quiet.pc, (afterCreate_sameFrame _ _ _ _ _ _ _).2, opening.quiet.pc]
    cases salt <;> rfl

/-- A quiet tree enters no frame. -/
theorem QuietFrom.enters {start child : Evm} {tree : Tree Evm ExecutionResult Fault Unit}
    {kept : History Evm ExecutionResult} (quiet : QuietFrom host start tree) :
    ¬ tree.Enters nested kept child := by
  cases tree with
  | enter child survives resume => exact quiet.elim
  | _ => exact id

/-- A step opens at most one frame: its tree begins there, and nothing happens before it. -/
theorem begins_of_enters {kept : History Evm ExecutionResult} {child : Evm}
    (enters : (step host evm).Enters nested kept child) :
    kept = [] ∧ Opened host evm child ∧
      ∃ survives resume, step host evm = .enter child survives resume := by
  generalize shaped : step host evm = tree at enters
  have shape := stepShape host evm
  rw [shaped] at shape
  -- Only the two opening shapes enter a frame, and neither enters a second one.
  cases shape with
  | idle decoded => exact enters.elim
  | leaf decoded leaf =>
    cases tree with
    | enter child survives resume => exact leaf.elim
    | _ => exact enters.elim
  | call opening =>
    rcases enters with ⟨rfl, rfl⟩ | ⟨history, outcome, last, later, ran, resumed, shape⟩
    · exact ⟨rfl, .call opening, _, _, rfl⟩
    · exact absurd resumed (opening.resumes outcome last).enters
  | create opening =>
    rcases enters with ⟨rfl, rfl⟩ | ⟨history, outcome, last, later, ran, resumed, shape⟩
    · exact ⟨rfl, .create opening, _, _, rfl⟩
    · exact absurd resumed (quietFrom_finishCreate host _).enters

/-- So what a step enters is a frame that it opened. -/
theorem opened_of_enters {kept : History Evm ExecutionResult} {child : Evm}
    (enters : (step host evm).Enters nested kept child) : kept = [] ∧ Opened host evm child := by
  obtain ⟨nothing, opened, _⟩ := begins_of_enters enters
  exact ⟨nothing, opened⟩

/-- And its tree begins with that frame. -/
theorem enter_of_enters {kept : History Evm ExecutionResult} {child : Evm}
    (enters : (step host evm).Enters nested kept child) :
    ∃ survives resume, step host evm = .enter child survives resume := by
  obtain ⟨_, _, begins⟩ := begins_of_enters enters
  exact begins

/-- A quiet rest only aborts where the build checks for overflow. -/
theorem QuietFrom.faults {start : Evm} {tree : Tree Evm ExecutionResult Fault Unit} {cause : Fault}
    (quiet : QuietFrom host start tree) (faults : tree.Faults nested cause) :
    CheckedOverflow host cause := by
  cases tree with
  | fault other =>
    obtain rfl := faults
    exact quiet
  | exit outcome state => exact faults.elim
  | next value state => exact faults.elim
  | enter child survives resume => exact quiet.elim

/-- A step aborts in one of two ways only. -/
theorem aborts_of_faults {cause : Fault} (faults : (step host evm).Faults nested cause) :
    Aborts host evm cause := by
  generalize shaped : step host evm = tree at faults
  have shape := stepShape host evm
  rw [shaped] at shape
  -- The rest of an opening step stays inside its buffers, so every overrun is one of a leaf.
  cases shape with
  | idle decoded => exact faults.elim
  | leaf decoded leaf =>
    cases tree with
    | fault other =>
      obtain rfl := faults
      exact leaf
    | exit outcome state => exact faults.elim
    | next value state => exact faults.elim
    | enter child survives resume => exact leaf.elim
  | call opening =>
    obtain ⟨history, outcome, last, ran, resumed⟩ := faults
    exact ((opening.resumes outcome last).faults resumed).aborts
  | create opening =>
    obtain ⟨history, outcome, last, ran, resumed⟩ := faults
    exact ((quietFrom_finishCreate host _).faults resumed).aborts

end Inversion

end MiniEvm
