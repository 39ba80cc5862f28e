import MiniEvm.Proofs.Vm.Handlers

/-! What calls and creations have settled when they open a child frame, and how they resume. -/

namespace MiniEvm

open EvmM Frames Frames.Program

variable {host : Host} {evm : Evm}

/-- What a call has settled by the time its operands, its price and its memory are in order. -/
structure Prepared (evm : Evm) (forceStatic : Bool) (setup : CallSetup) (mid : Evm) : Prop where
  quiet : Quiet evm mid
  target : ∃ gasWord addressWord rest, evm.stack.data = gasWord :: addressWord :: rest ∧
    setup.frame.target = accountAddress addressWord
  isStatic : setup.frame.isStatic = (evm.isStatic || forceStatic)
  share : ∃ requested, setup.frame.gasLimit =
    calcEip150CallGas (mid.gasLeft + setup.frame.gasLimit) requested
  paid : mid.gasLeft + setup.frame.gasLimit < evm.gasLeft
  window : setup.retOffset + setup.retSize ≤ mid.memory.length

/-- A child never gets more than all but one 64th. -/
theorem calcEip150CallGas_le (availableGas : Nat) (requestedGas : Word) :
    calcEip150CallGas availableGas requestedGas ≤ availableGas - availableGas / 64 :=
  Nat.min_le_right _ _

/-- Every call costs at least its base fee and the access fee. -/
theorem calm_calcCallBaseGas (target : Address) (value : Word)
    (argsOffset argsSize retOffset retSize : Nat) :
    Calm (CheckedOverflow host) evm (calcCallBaseGas target value argsOffset argsSize retOffset retSize)
      fun cost after => 800 ≤ cost ∧ after.gasLeft = evm.gasLeft := by
  refine Calm.get_bind ?_
  refine (calm_orVmError _).bind fun memoryCost mid' _ same => ?_
  obtain ⟨_, rfl⟩ := same
  refine (calm_markAccessed target).bind fun _ mid quiet marked => ?_
  -- Even a warm access costs a hundred on top of the base fee.
  have access : 100 ≤ accessCost mid' target := by
    unfold accessCost
    split <;> decide
  cases sum : checkedAdd (700 + accessCost mid' target +
      if value > 0 then 9000 + if target ∈ mid'.contracts then 0 else 25000 else 0) memoryCost with
  | none => simp only [sum]; exact Calm.exit
  | some cost =>
    simp only [sum]
    obtain ⟨rfl, _⟩ := checkedAdd_eq_some sum
    exact Calm.pure ⟨by omega, marked.2⟩

/-- A static call costs less, but no call is free. -/
theorem calm_callBaseGas (forceStatic : Bool) (target : Address) (value : Word)
    (argsOffset argsSize retOffset retSize : Nat) :
    Calm (CheckedOverflow host) evm (callBaseGas forceStatic target value argsOffset argsSize retOffset retSize)
      fun cost after => 140 ≤ cost ∧ after.gasLeft = evm.gasLeft := by
  -- The discount of a static call leaves at least the access fee.
  cases forceStatic with
  | false =>
    exact (calm_calcCallBaseGas _ _ _ _ _ _).weaken fun _ _ _ priced => ⟨by omega, priced.2⟩
  | true =>
    refine (calm_calcCallBaseGas _ _ _ _ _ _).bind fun normal mid _ priced => ?_
    split
    · exact Calm.pure ⟨by omega, priced.2⟩
    · exact Calm.exit

theorem tame_popCallValue (forceStatic delegate : Bool) :
    Tame host (popCallValue forceStatic delegate) := by
  unfold popCallValue
  -- Only a plain call has the operand.
  split
  · exact Tame.pure _
  · exact Tame.pop _

/-- Preparing a call ends the frame quietly or leaves everything in order. -/
theorem calm_prepareCall (forceStatic delegate : Bool) :
    Calm (CheckedOverflow host) evm (prepareCall forceStatic delegate)
      fun setup after => Prepared evm forceStatic setup after := by
  -- The first two operands are kept, since the opened frame depends on them.
  refine (calm_pop _).bind fun gasWord s1 q1 popGas => ?_
  refine (calm_pop _).bind fun addressWord s2 q2 popAddress => ?_
  refine (tame_popCallValue _ _ s2).bind fun value s3 q3 _ => ?_
  refine (calm_pop _).bind fun w1 s4 q4 _ => (calm_pop _).bind fun w2 s5 q5 _ => ?_
  refine (calm_pop _).bind fun w3 s6 q6 _ => (calm_pop _).bind fun w4 s7 q7 _ => ?_
  refine (calm_toUsize _).bind fun argsOffset s8 q8 _ => ?_
  refine (calm_toUsize _).bind fun argsSize s9 q9 _ => ?_
  refine (calm_toUsize _).bind fun retOffset s10 q10 _ => ?_
  refine (calm_toUsize _).bind fun retSize s11 q11 _ => ?_
  have operands := ((((((((((q1.trans q2).trans q3).trans q4).trans q5).trans q6).trans q7).trans
    q8).trans q9).trans q10).trans q11)
  refine (calm_callBaseGas _ _ _ _ _ _ _).bind fun baseGas s12 q12 priced => ?_
  refine (calm_charge _).bind fun _ s13 q13 paid => ?_
  refine (calm_expandMemory _).bind fun _ s14 q14 expanded => ?_
  -- One expansion covers the input and the return window, also where they are empty.
  have argsInside := expanded.1 (argsOffset, argsSize) (by simp)
  have retInside := expanded.1 (retOffset, retSize) (by simp)
  refine (calm_readMemory (by omega) argsInside).bind fun input s15 q15 same => ?_
  obtain ⟨_, rfl⟩ := same
  refine Calm.get_bind ?_
  refine (Calm.modify ?_).bind fun _ s17 q17 handed => ?_
  · constructor <;> first | rfl | exact Nat.sub_le _ _
  -- All operands are read and paid for, so only the shares of gas are left to compare.
  have quiet := ((operands.trans q12).trans q13).trans q14
  have share := calcEip150CallGas_le s15.gasLeft gasWord
  have spent := operands.gas
  obtain ⟨enough, rfl⟩ := paid
  have afterFee := expanded.2.1
  simp only at afterFee
  subst handed
  refine Calm.pure {
    quiet := quiet.trans q17
    target := ⟨gasWord, addressWord, s2.stack.data, by rw [popGas.1, popAddress.1], rfl⟩
    isStatic := by simp only [quiet.isStatic]
    share := ?_
    paid := ?_
    window := retInside }
  · refine ⟨gasWord, ?_⟩
    simp only
    rw [Nat.sub_add_cancel (by omega)]
  · simp only
    omega

/-- Writing the output stays inside a window that memory covers. -/
theorem calm_writeOutput {retOffset retSize : Nat} (output : Bytes)
    (window : retOffset + retSize ≤ evm.memory.length) :
    Calm (CheckedOverflow host) evm (writeOutput retOffset retSize output) fun _ _ => True := by
  -- Clearing the window keeps the length, and the output is cut to its size.
  refine (calm_writeMemory (by simpa using window)).bind fun _ mid _ wrote => ?_
  refine (calm_writeMemory ?_).weaken fun _ _ _ _ => trivial
  simp only [wrote.2.1, List.length_take]
  omega

/-- A precompile hands over its output and its success within the frame of its caller. -/
theorem calm_handOver {retOffset retSize : Nat} (output : Bytes)
    (window : retOffset + retSize ≤ evm.memory.length) :
    Calm (CheckedOverflow host) evm
      (do writeOutput retOffset retSize output
          push 1 (.error "Stack Overflow on CALL")) fun _ _ => True := by
  refine (calm_writeOutput output window).bind fun _ last _ _ => ?_
  exact (calm_push _ _).weaken fun _ _ _ _ => trivial

/-- Every end of a handler is quiet from this state on, and an early end stops the frame. -/
def QuietFrom (host : Host) (start : Evm) (tree : Tree Evm ExecutionResult Fault Unit) : Prop :=
  tree.Leaf (CheckedOverflow host) (fun result after => Quiet start after ∧ result ≠ .halt)
    (fun _ after => Quiet start after)

/-- A calm handler is quiet from where it started. -/
theorem Calm.quietFrom {handler : EvmM Unit} {post : Unit → Evm → Prop}
    (calm : Calm (CheckedOverflow host) evm handler post) : QuietFrom host evm (handler evm) :=
  Meets.weaken calm (fun _ aborted => aborted) (fun _ _ ended => ended) (fun _ _ ended => ended.1)

/-- A frame that resumes after a call is quiet from the merged state on. -/
theorem quietFrom_finishCall (setup : CallSetup) (snapshot : Nat) (result : ExecutionResult)
    (child : Evm) (window : setup.retOffset + setup.retSize ≤ evm.memory.length) :
    QuietFrom host (mergeCall evm snapshot result child)
      (finishCall host setup snapshot result child evm) := by
  -- The merge takes nothing of the callee's memory.
  have sameMemory : (mergeCall evm snapshot result child).memory = evm.memory := by
    unfold mergeCall
    split <;> rfl
  -- So the window is still inside when the output is written.
  have rest : Calm (CheckedOverflow host) (mergeCall evm snapshot result child)
      (do touchMemory host setup.retOffset setup.retSize
          writeOutput setup.retOffset setup.retSize result.output
          push (if result.isSuccess then 1 else 0) (.error "Stack Overflow on CALL"))
      fun _ _ => True := by
    refine (calm_touchMemory .overflow _ _).bind fun _ mid _ touched => ?_
    refine (calm_writeOutput _ ?_).bind fun _ last _ _ => (calm_push _ _).weaken fun _ _ _ _ => trivial
    rw [← sameMemory] at window
    exact window.trans touched.2.2.1
  exact rest.quietFrom

/-- Every creation pays its base fee before anything else happens, and leaves the stack alone. -/
theorem calm_prepareInitCode (offsetWord sizeWord : Word) (salt : Option Word) :
    Calm (CheckedOverflow host) evm (prepareInitCode offsetWord sizeWord salt)
      fun _ after => after.gasLeft + 32000 ≤ evm.gasLeft ∧ after.stack = evm.stack := by
  -- None of the conversions and prices touches the frame.
  refine (calm_toUsize _).bind fun offset mid _ same => ?_
  obtain ⟨_, rfl⟩ := same
  refine (calm_toUsize _).bind fun size mid' _ same => ?_
  obtain ⟨_, rfl⟩ := same
  refine Calm.get_bind ?_
  refine (calm_orVmError _).bind fun expansion mid' _ same => ?_
  obtain ⟨_, rfl⟩ := same
  refine (calm_orVmError _).bind fun hashGas mid _ same => ?_
  obtain ⟨_, rfl⟩ := same
  refine (calm_chargeSum _ _ _).bind fun _ paidFor _ paid => ?_
  obtain ⟨enough, rfl⟩ := paid
  refine (calm_expandMemory _).bind fun _ mid' _ expanded => ?_
  -- What is left only grows memory and reads it.
  have inside := expanded.1 (offset, size) (by simp)
  refine (calm_readMemory (by omega) inside).weaken fun _ after _ same => ?_
  obtain ⟨_, rfl⟩ := same
  have gas := expanded.2.1
  simp only at gas
  exact ⟨by omega, expanded.2.2⟩

/-- A frame that resumes after a creation is quiet from the merged state on. -/
theorem quietFrom_finishCreate (host : Host) (outcome : Except VmError Word) :
    QuietFrom host evm (finishCreate outcome evm) := by
  unfold finishCreate
  -- The address, a zero, or the error of a frame that may not create.
  split
  · exact (calm_push _ _).quietFrom
  · exact (Calm.exit : Calm (CheckedOverflow host) evm _ fun _ _ => True).quietFrom
  · exact (calm_push _ _).quietFrom

/-- A creator with room on its stack goes on with the address on top. -/
theorem finishCreate_of_room (address : Word) (room : evm.stack.data.length < 1024) :
    ∃ stack, finishCreate (.ok address) evm = .next () { evm with stack } ∧
      stack.data = address :: evm.stack.data := by
  -- The push is the only thing that could fail.
  simp only [finishCreate, push, bind_apply, get_apply, Tree.bind, Stack.push,
    Nat.not_le.mpr room, dif_neg, not_false_eq_true, modify_apply]
  exact ⟨_, rfl, rfl⟩

/--
A creation is committed or abandoned.

Which of the two happens is what the creator counts as a success of its constructor.
-/
theorem mergeDeploy_cases (evm : Evm) (deployment : Deployment) (result : ExecutionResult)
    (child : Evm) :
    (deploySucceeds evm.gasLeft result child = false ∧
      mergeDeploy evm deployment result child =
        (.ok 0, abandonDeploy (joinDeploy evm result child) deployment)) ∨
    (deploySucceeds evm.gasLeft result child = true ∧
      ∃ runtimeCode, result.runtimeCode = some runtimeCode ∧
        mergeDeploy evm deployment result child =
          (.ok (deployment.newAddr.setWidth 256),
            commitDeploy { joinDeploy evm result child with
              gasLeft := saturatingAdd evm.gasLeft child.gasLeft - runtimeCode.length * 200 }
              deployment.newAddr runtimeCode child)) := by
  unfold mergeDeploy deploySucceeds
  -- A constructor that failed leaves no code to install.
  cases code : result.runtimeCode with
  | none => exact .inl ⟨rfl, rfl⟩
  | some runtimeCode =>
    by_cases long : runtimeCode.length > 24576
    · simp [long]
    · -- Code this short has a deposit in range, so only the gas decides.
      have deposit : checkedMul runtimeCode.length 200 = some (runtimeCode.length * 200) := by
        unfold checkedMul u64Max
        rw [if_pos (by omega)]
      have short : runtimeCode.length ≤ 24576 := Nat.le_of_not_lt long
      have gas : (joinDeploy evm result child).gasLeft =
        saturatingAdd evm.gasLeft child.gasLeft := rfl
      by_cases poor : saturatingAdd evm.gasLeft child.gasLeft < runtimeCode.length * 200
      · simp [long, deposit, gas, poor]
      · right
        simp only [long, if_false, deposit, gas, poor]
        exact ⟨by simp [short, Nat.le_of_not_lt poor], runtimeCode, rfl, rfl⟩

/-- What a creator looks like while its child runs, and what it has settled for it. -/
def startDeploy (host : Host) (mid : Evm) (value : Word) (salt : Option Word) (initCode : Bytes) :
    Deployment × Evm :=
  fundDeploy (reserveCreate mid).2 (createAddress host mid salt initCode) value
    ((mid.balances.lookup mid.selfAddress).getD 0)

/-- A creation that may run opens its child at once, and otherwise only pushes zero. -/
theorem executeDeploy_apply (value : Word) (salt : Option Word) (initCode : Bytes)
    (mutable : evm.isStatic = false) :
    executeDeploy (createAddress host evm salt initCode) value initCode (reserveCreate evm).1
        (reserveCreate evm).2 =
      let started := startDeploy host evm value salt initCode
      if (evm.balances.lookup evm.selfAddress).getD 0 < value then
        .next (.ok 0) (reserveCreate evm).2
      else .enter (deployChild started.2 started.1 initCode (reserveCreate evm).1)
        (deploySucceeds started.2.gasLeft)
        (fun result child => .next (mergeDeploy started.2 started.1 result child).1
          (mergeDeploy started.2 started.1 result child).2) := by
  -- Setting gas aside does not change whether the frame may write.
  have reserved : (reserveCreate evm).2.isStatic = false := mutable
  simp only [executeDeploy, bind_apply, get_apply, Tree.bind, reserved, Bool.false_eq_true,
    if_false]
  change (if (evm.balances.lookup evm.selfAddress).getD 0 < value then _ else _ : EvmM _) _ = _
  split <;> rfl

end MiniEvm
