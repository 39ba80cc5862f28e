import MiniEvm.Proofs.Vm.Completion

/-! A caller outlives its callee, unless the callee is a precompile that it cannot pay. -/

namespace MiniEvm

open EvmM Frames Frames.Program

/-- The operands of a call, and the stack below them. -/
structure CallOperands where
  gas : Word
  address : Word
  value : Word
  argsOffset : Word
  argsSize : Word
  retOffset : Word
  retSize : Word
  rest : List Word

namespace CallOperands

/-- The stack as the call finds it; only a plain call has a value operand. -/
def stack (operands : CallOperands) (forceStatic delegate : Bool) : List Word :=
  operands.gas :: operands.address ::
    ((if forceStatic || delegate then [] else [operands.value]) ++
      operands.argsOffset :: operands.argsSize :: operands.retOffset :: operands.retSize ::
        operands.rest)

/-- The value that is sent. -/
def sent (operands : CallOperands) (forceStatic delegate : Bool) : Word :=
  if forceStatic || delegate then 0 else operands.value

/-- The account that is called. -/
def target (operands : CallOperands) : Address := accountAddress operands.address

/-- The ranges of the input and of the return window. -/
def ranges (operands : CallOperands) : List (Nat × Nat) :=
  [(operands.argsOffset.toNat, operands.argsSize.toNat),
    (operands.retOffset.toNat, operands.retSize.toNat)]

end CallOperands

/-- The price of a call before any gas is handed over. -/
def callBaseCost (evm : Evm) (forceStatic delegate : Bool) (operands : CallOperands) : Nat :=
  (if forceStatic then 40 else 700) + accessCost evm operands.target +
    (if operands.sent forceStatic delegate > 0 then
      9000 + if operands.target ∈ evm.contracts then 0 else 25000 else 0) +
    growthPrice evm.memory.length (wordsFor (furthest evm.memory.length operands.ranges))

/-- A frame with the operands of a call, memory operands that fit, and gas for the base cost. -/
structure CallReady (evm : Evm) (forceStatic delegate : Bool) (operands : CallOperands) : Prop where
  stack : evm.stack.data = operands.stack forceStatic delegate
  fits : ∀ range ∈ operands.ranges, range.1 ≤ u64Max ∧ range.2 ≤ u64Max
  small : wordsFor (furthest evm.memory.length operands.ranges) < 2 ^ 32
  funded : callBaseCost evm forceStatic delegate operands ≤ evm.gasLeft

/-- The gas a call hands over. -/
def handedGas (evm : Evm) (forceStatic delegate : Bool) (operands : CallOperands) : Nat :=
  calcEip150CallGas (evm.gasLeft - callBaseCost evm forceStatic delegate operands) operands.gas

/-- The gas a caller keeps back. -/
def keptGas (evm : Evm) (forceStatic delegate : Bool) (operands : CallOperands) : Nat :=
  evm.gasLeft - callBaseCost evm forceStatic delegate operands -
    handedGas evm forceStatic delegate operands

/-- What a call that is ready has settled: its message, its return window, and the gas kept. -/
structure CallSettled (evm : Evm) (forceStatic delegate : Bool) (operands : CallOperands)
    (setup : CallSetup) (mid : Evm) : Prop where
  stack : mid.stack.data = operands.rest
  gas : mid.gasLeft = keptGas evm forceStatic delegate operands
  handed : setup.frame.gasLimit = handedGas evm forceStatic delegate operands
  target : setup.frame.target = operands.target
  input : setup.frame.input.length = operands.argsSize.toNat
  length : mid.memory.length = wordsFor (furthest evm.memory.length operands.ranges) * 32
  window : (setup.retOffset, setup.retSize) ∈ operands.ranges

section Preparation

variable {evm mid : Evm} {forceStatic delegate : Bool} {operands : CallOperands}

theorem completes_popCallValue (underlying : List Word)
    (operand : evm.stack.data =
      (if forceStatic || delegate then [] else [operands.value]) ++ underlying) :
    (popCallValue forceStatic delegate).Completes evm fun value after =>
      value = operands.sent forceStatic delegate ∧ StackOnly evm after ∧
        after.stack.data = underlying := by
  unfold popCallValue CallOperands.sent
  -- Only a plain call has the operand.
  by_cases without : (forceStatic || delegate) = true
  · rw [if_pos without] at operand ⊢
    rw [if_pos without]
    exact Completes.pure ⟨rfl, .refl _, operand⟩
  · rw [if_neg without] at operand ⊢
    rw [if_neg without]
    exact completes_pop _ operand

theorem completes_calcCallBaseGas (target : Address) (value : Word)
    {argsOffset argsSize retOffset retSize : Nat}
    (small : wordsFor (furthest evm.memory.length
      [(argsOffset, argsSize), (retOffset, retSize)]) < 2 ^ 32) :
    (calcCallBaseGas target value argsOffset argsSize retOffset retSize).Completes evm
      fun cost after =>
        cost = 700 + accessCost evm target +
          (if value > 0 then 9000 + if target ∈ evm.contracts then 0 else 25000 else 0) +
          growthPrice evm.memory.length (wordsFor (furthest evm.memory.length
            [(argsOffset, argsSize), (retOffset, retSize)])) ∧
        after = { evm with accessedAddresses := insert target evm.accessedAddresses } := by
  have access : accessCost evm target ≤ 2600 := by
    unfold accessCost
    split <;> decide
  have sending : (if value > 0 then 9000 + if target ∈ evm.contracts then 0 else 25000 else 0) ≤
      34000 := by
    split
    · split <;> decide
    · decide
  have price : growthPrice evm.memory.length (wordsFor (furthest evm.memory.length
      [(argsOffset, argsSize), (retOffset, retSize)])) < 2 ^ 56 :=
    Nat.lt_of_le_of_lt (Nat.sub_le _ _) (memoryGas_lt small)
  -- So the sum of the four costs is far from the 64-bit bound.
  have bound : 700 + accessCost evm target +
      (if value > 0 then 9000 + if target ∈ evm.contracts then 0 else 25000 else 0) +
      growthPrice evm.memory.length (wordsFor (furthest evm.memory.length
        [(argsOffset, argsSize), (retOffset, retSize)])) ≤ u64Max := by
    unfold u64Max
    omega
  unfold calcCallBaseGas
  refine Completes.get_bind ?_
  rw [memoryExpansionCost_of_small small]
  refine (completes_orVmError _).bind fun memoryCost _ priced => ?_
  obtain ⟨rfl, rfl⟩ := priced
  refine Completes.modify.bind fun _ _ marked => ?_
  simp only [checkedAdd, if_pos bound]
  exact Completes.pure ⟨rfl, marked⟩

/-- The base cost is found, and the target counts as accessed from then on. -/
theorem completes_callBaseGas
    (small : wordsFor (furthest evm.memory.length operands.ranges) < 2 ^ 32) :
    (callBaseGas forceStatic operands.target (operands.sent forceStatic delegate)
      operands.argsOffset.toNat operands.argsSize.toNat operands.retOffset.toNat
      operands.retSize.toNat).Completes evm fun cost after =>
        cost = callBaseCost evm forceStatic delegate operands ∧
          after = { evm with
            accessedAddresses := insert operands.target evm.accessedAddresses } := by
  unfold callBaseGas callBaseCost
  cases forceStatic with
  | false => exact completes_calcCallBaseGas _ _ small
  | true =>
    -- A static call sends nothing, and 660 of its base fee are taken off again.
    refine (completes_calcCallBaseGas operands.target 0 small).bind fun normal after found => ?_
    obtain ⟨isNormal, marked⟩ := found
    have nothing : ¬ (0 : Word) > 0 := by decide
    simp only [CallOperands.sent, Bool.true_or, if_true, if_neg nothing] at isNormal ⊢
    rw [if_pos (by omega)]
    exact Completes.pure ⟨by unfold CallOperands.ranges; omega, marked⟩

/-- A call that is ready gets as far as its callee. -/
theorem completes_prepareCall (ready : CallReady evm forceStatic delegate operands) :
    (prepareCall forceStatic delegate).Completes evm
      (CallSettled evm forceStatic delegate operands) := by
  obtain ⟨stack, fits, small, funded⟩ := ready
  have argsFit := fits (operands.argsOffset.toNat, operands.argsSize.toNat) (List.mem_cons_self ..)
  have retFit := fits (operands.retOffset.toNat, operands.retSize.toNat)
    (List.mem_cons_of_mem _ (List.mem_cons_self ..))
  unfold prepareCall
  -- The operands come off the stack one by one, and nothing else changes.
  refine (completes_pop _ stack).bind fun gas s1 popped => ?_
  obtain ⟨rfl, only1, stack1⟩ := popped
  refine (completes_pop _ stack1).bind fun address s2 popped => ?_
  obtain ⟨rfl, only2, stack2⟩ := popped
  refine (completes_popCallValue _ stack2).bind fun value s3 popped => ?_
  obtain ⟨rfl, only3, stack3⟩ := popped
  refine (completes_pop _ stack3).bind fun argsOffset s4 popped => ?_
  obtain ⟨rfl, only4, stack4⟩ := popped
  refine (completes_pop _ stack4).bind fun argsSize s5 popped => ?_
  obtain ⟨rfl, only5, stack5⟩ := popped
  refine (completes_pop _ stack5).bind fun retOffset s6 popped => ?_
  obtain ⟨rfl, only6, stack6⟩ := popped
  refine (completes_pop _ stack6).bind fun retSize s7 popped => ?_
  obtain ⟨rfl, only7, stack7⟩ := popped
  have only := (((((only1.trans only2).trans only3).trans only4).trans only5).trans only6).trans only7
  refine (completes_toUsize argsFit.1).bind fun argsOffset s8 sized => ?_
  obtain ⟨rfl, rfl⟩ := sized
  refine (completes_toUsize argsFit.2).bind fun argsSize s9 sized => ?_
  obtain ⟨rfl, rfl⟩ := sized
  refine (completes_toUsize retFit.1).bind fun retOffset s10 sized => ?_
  obtain ⟨rfl, rfl⟩ := sized
  refine (completes_toUsize retFit.2).bind fun retSize s11 sized => ?_
  obtain ⟨rfl, rfl⟩ := sized
  -- So the price is that of the frame as it was.
  have sameCost : callBaseCost s11 forceStatic delegate operands =
      callBaseCost evm forceStatic delegate operands :=
    only.read (fun evm => callBaseCost evm forceStatic delegate operands) fun _ _ => rfl
  have small11 := small
  rw [← only.memory] at small11
  refine (completes_callBaseGas small11).bind fun baseGas s12 priced => ?_
  obtain ⟨rfl, marked⟩ := priced
  have gas12 : s12.gasLeft = evm.gasLeft := by rw [marked]; exact only.gasLeft
  have memory12 : s12.memory = evm.memory := by rw [marked]; exact only.memory
  have stack12 : s12.stack.data = operands.rest := by rw [marked]; exact stack7
  rw [sameCost]
  -- The base cost can be paid, and memory grows to where both ranges end.
  rw [← gas12] at funded
  refine (completes_charge funded).bind fun _ s13 charged => ?_
  have memory13 : s13.memory = evm.memory := by rw [charged]; exact memory12
  have small13 := small
  rw [← memory13] at small13
  refine (completes_expandMemory small13).bind fun _ s14 grown => ?_
  have length14 : s14.memory.length =
      wordsFor (furthest evm.memory.length operands.ranges) * 32 := by
    rw [grown]
    exact (length_resize _ _).trans (by rw [memory13])
  have member : (operands.argsOffset.toNat, operands.argsSize.toNat) ∈ operands.ranges :=
    List.mem_cons_self ..
  have argsInside := (le_furthest evm.memory.length member).trans (le_wordsFor _)
  rw [← length14] at argsInside
  refine (completes_readMemory (Nat.le_add_right ..) argsInside).bind fun input s15 bytes => ?_
  obtain ⟨rfl, rfl⟩ := bytes
  refine Completes.get_bind ?_
  refine Completes.modify.bind fun _ s17 handed => ?_
  have gas15 : s15.gasLeft = evm.gasLeft - callBaseCost evm forceStatic delegate operands := by
    rw [grown, charged, ← gas12]
    rfl
  have stack15 : s15.stack.data = operands.rest := by
    rw [grown, charged]
    exact stack12
  refine Completes.pure {
    stack := ?_
    gas := ?_
    handed := ?_
    target := rfl
    input := ?_
    length := ?_
    window := List.mem_cons_of_mem _ (List.mem_cons_self ..) }
  · rw [handed]
    exact stack15
  · rw [handed]
    simp only [gas15]
    rfl
  · simp only [gas15]
    rfl
  · simp only [length_slice argsInside]
    exact Nat.add_sub_cancel_left ..
  · rw [handed]
    exact length14

end Preparation

section Outcomes

variable {host : Host} {evm mid : Evm} {forceStatic delegate : Bool} {operands : CallOperands}
  {setup : CallSetup}

/-- Writing the output stays inside a window that memory covers. -/
theorem completes_writeOutput {retOffset retSize : Nat} (output : Bytes)
    (window : retOffset + retSize ≤ evm.memory.length) :
    (writeOutput retOffset retSize output).Completes evm fun _ after =>
      after.stack = evm.stack ∧ after.gasLeft = evm.gasLeft := by
  have cleared : retOffset + (List.replicate retSize (0 : UInt8)).length ≤ evm.memory.length := by
    rw [List.length_replicate]
    exact window
  refine (completes_writeMemory cleared).bind fun _ between wrote => ?_
  -- Clearing keeps the length, and the output is cut to the size of the window.
  have fits : retOffset + (output.take (min output.length retSize)).length ≤
      between.memory.length := by
    rw [wrote]
    simp only [length_overwrite cleared, List.length_take]
    omega
  refine (completes_writeMemory fits).weaken fun _ after wroteToo => ?_
  rw [wroteToo, wrote]
  exact ⟨rfl, rfl⟩

/-- Once its callee has come to an end, a caller with room on its stack goes on. -/
theorem completes_finishCall (snapshot : Nat) (result : ExecutionResult) (child : Evm)
    (whole : mid.memory.length % 32 = 0)
    (window : setup.retOffset + setup.retSize ≤ mid.memory.length)
    (fits : setup.retOffset + setup.retSize + 31 ≤ u64Max) (room : mid.stack.data.length < 1024) :
    (finishCall host setup snapshot result child).Completes mid fun _ after =>
      after.stack.data = (if result.isSuccess then 1 else 0) :: mid.stack.data ∧
        after.gasLeft = saturatingAdd mid.gasLeft child.gasLeft := by
  refine Completes.modify.bind fun _ merged merge => ?_
  have sameMemory : merged.memory = mid.memory := by
    rw [merge, mergeCall]
    split <;> rfl
  have sameStack : merged.stack = mid.stack := by
    rw [merge, mergeCall]
    split <;> rfl
  have gas : merged.gasLeft = saturatingAdd mid.gasLeft child.gasLeft := by
    rw [merge, mergeCall]
    split <;> rfl
  -- The return window was paid for before the call, so touching it again is free.
  have covered : touchedWords setup.retOffset setup.retSize ≤ merged.memory.length / 32 := by
    rw [sameMemory]
    unfold touchedWords wordsFor
    split <;> omega
  have touched : (touchMemory host setup.retOffset setup.retSize).Completes merged
      fun _ after => after = merged := ⟨_, _, touchMemory_of_covered fits covered, rfl⟩
  refine touched.bind fun _ _ same => ?_
  obtain rfl := same
  rw [← sameMemory] at window
  refine (completes_writeOutput result.output window).bind fun _ wrote kept => ?_
  rw [← sameStack, ← kept.1] at room
  refine (completes_push _ _ room).weaken fun _ after pushed => ?_
  rw [pushed.2, pushed.1.gasLeft, kept.1, kept.2, sameStack, gas]
  exact ⟨rfl, rfl⟩

/-- What the precompiles ask for, over the unbounded numbers. -/
def precompilePrice (addr : Address) (len : Nat) : Nat :=
  if addr = 1 then 3000
  else if addr = 2 then 60 + (len + 31) / 32 * 12
  else if addr = 3 then 600 + (len + 31) / 32 * 120
  else 15 + (len + 31) / 32 * 3

theorem linearGas_of_small {base perWord len : Nat} (small : wordsFor len < 2 ^ 32)
    (cheap : base ≤ 600 ∧ perWord ≤ 120) :
    linearGas base perWord len = .ok (base + (len + 31) / 32 * perWord) := by
  unfold wordsFor at small
  have rounded : len + 31 ≤ u64Max := by
    unfold u64Max
    omega
  -- No precompile asks for more than 120 a word.
  have fee : (len + 31) / 32 * perWord ≤ (len + 31) / 32 * 120 := Nat.mul_le_mul_left _ cheap.2
  have product : (len + 31) / 32 * perWord ≤ u64Max := by
    unfold u64Max
    omega
  have total : base + (len + 31) / 32 * perWord ≤ u64Max := by
    unfold u64Max
    omega
  -- So none of the checked operations leaves its range.
  simp only [linearGas, wordCount, checkedAdd, checkedMul, if_pos rounded, bind,
    Except.bind, if_pos product, Option.bind_some, if_pos total]

theorem eq_of_isPrecompile {addr : Address} (precompiled : isPrecompile addr = true) :
    addr = 1 ∨ addr = 2 ∨ addr = 3 ∨ addr = 4 := by
  simp only [isPrecompile, Bool.and_eq_true, decide_eq_true_eq] at precompiled
  -- An address is its number.
  simp only [← BitVec.toNat_inj]
  show addr.toNat = 1 ∨ addr.toNat = 2 ∨ addr.toNat = 3 ∨ addr.toNat = 4
  omega

/-- The recovery asks for the same price whatever it finds. -/
theorem precompileEcrecover_price (host : Host) (input : Bytes) :
    ∃ output, precompileEcrecover host input = .ok (3000, output) := by
  simp only [precompileEcrecover]
  -- An unknown recovery id and a failed recovery both answer with the empty output.
  split
  · split
    · exact ⟨_, rfl⟩
    · exact ⟨_, rfl⟩
  · exact ⟨_, rfl⟩

/-- A precompile produces an output for its price, or is out of gas. -/
theorem executePrecompile_of_small (host : Host) {addr : Address} {input : Bytes} (gas : Nat)
    (precompiled : isPrecompile addr = true) (small : wordsFor input.length < 2 ^ 32) :
    ∃ output, executePrecompile host addr input gas =
      if precompilePrice addr input.length > gas then .error .outOfGas
      else .ok (precompilePrice addr input.length, output) := by
  -- One case for each precompile, and only the first does not depend on the length.
  rcases eq_of_isPrecompile precompiled with rfl | rfl | rfl | rfl
  · obtain ⟨output, found⟩ := precompileEcrecover_price host input
    refine ⟨output, ?_⟩
    show (precompileEcrecover host input >>= _) = _
    rw [found]
    rfl
  · refine ⟨toBeBytes (host.sha256 input), ?_⟩
    show (precompileSha256 host input >>= _) = _
    rw [precompileSha256, linearGas_of_small small (by decide)]
    rfl
  · refine ⟨List.replicate 12 0 ++ beBytes 20 (host.ripemd160 input).toNat, ?_⟩
    show (precompileRipemd160 host input >>= _) = _
    rw [precompileRipemd160, linearGas_of_small small (by decide)]
    rfl
  · refine ⟨input, ?_⟩
    show (precompileIdentity input >>= _) = _
    rw [precompileIdentity, linearGas_of_small small (by decide)]
    rfl

/-- What opening the frame of a contract comes to. -/
theorem callContract_apply :
    callContract host delegate setup mid =
      .enter (calledFrame mid delegate setup) (fun result _ => result.isSuccess) fun result child =>
        finishCall host setup mid.takeSnapshot.1 result child mid.takeSnapshot.2 := rfl

/-- The code of a precompile runs in no frame of its own. -/
theorem callPrecompile_ne_enter (window : setup.retOffset + setup.retSize ≤ mid.memory.length)
    {child : Evm} {survives : ExecutionResult → Evm → Bool}
    {resume : ExecutionResult → Evm → Tree Evm ExecutionResult Fault Unit} :
    callPrecompile host setup mid ≠ .enter child survives resume := by
  unfold callPrecompile
  cases executePrecompile host setup.frame.target setup.frame.input setup.frame.gasLimit with
  | error error =>
    cases error <;> exact fun entered => by cases entered
  | ok used =>
    obtain ⟨gasUsed, output⟩ := used
    -- Writing and pushing end somewhere in this frame.
    have rest : Calm (CheckedOverflow host)
        { mid with
          gasLeft := saturatingAdd mid.gasLeft (setup.frame.gasLimit - gasUsed)
          returnData := output }
        (do writeOutput setup.retOffset setup.retSize output
            push 1 (.error "Stack Overflow on CALL")) fun _ _ => True :=
      calm_handOver output (by exact window)
    intro entered
    unfold Calm Meets at rest
    change (do writeOutput setup.retOffset setup.retSize output
               push 1 (.error "Stack Overflow on CALL") : EvmM Unit) _ = _ at entered
    rw [entered] at rest
    exact rest

/-- A call that neither ended its frame nor aborted has been prepared. -/
theorem prepared_of_executeCall {tree : Tree Evm ExecutionResult Fault Unit}
    (stands : executeCall host forceStatic delegate evm = tree)
    (goesOn : ∀ cause, tree ≠ .fault cause) (stays : ∀ result after, tree ≠ .exit result after) :
    ∃ setup mid, prepareCall forceStatic delegate evm = .next setup mid ∧
      Prepared evm forceStatic setup mid ∧
      tree = if isPrecompile setup.frame.target then callPrecompile host setup mid
        else callContract host delegate setup mid := by
  have calm : Calm (CheckedOverflow host) evm (prepareCall forceStatic delegate)
      fun setup after => Prepared evm forceStatic setup after := calm_prepareCall _ _
  unfold executeCall at stands
  -- The preparation opens no frame, so it has come to one of three ends.
  rcases calm.cases with ⟨cause, ended, _⟩ | ⟨result, after, ended, _⟩ |
    ⟨setup, mid, ended, _, prepared⟩
  · rw [bind_apply, ended] at stands
    exact absurd stands.symm (goesOn cause)
  · rw [bind_apply, ended] at stands
    exact absurd stands.symm (stays result after)
  · rw [bind_of_next ended] at stands
    refine ⟨setup, mid, ended, prepared, ?_⟩
    rw [← stands]
    split <;> rfl

/-- A precompile that can be paid hands back what is left of its gas. -/
theorem completes_callPrecompile {gasUsed : Nat} {output : Bytes}
    (paid : executePrecompile host setup.frame.target setup.frame.input setup.frame.gasLimit =
      .ok (gasUsed, output))
    (window : setup.retOffset + setup.retSize ≤ mid.memory.length)
    (room : mid.stack.data.length < 1024) :
    (callPrecompile host setup).Completes mid fun _ after =>
      after.stack.data = 1 :: mid.stack.data ∧
        after.gasLeft = saturatingAdd mid.gasLeft (setup.frame.gasLimit - gasUsed) := by
  unfold callPrecompile
  simp only [paid]
  -- First the gas comes back, then the output is copied, and the flag is pushed last.
  refine Completes.modify.bind fun _ merged merge => ?_
  have window' : setup.retOffset + setup.retSize ≤ merged.memory.length := by
    rw [merge]
    exact window
  refine (completes_writeOutput output window').bind fun _ wrote kept => ?_
  have room' : wrote.stack.data.length < 1024 := by
    rw [kept.1, merge]
    exact room
  refine (completes_push _ _ room').weaken fun _ after pushed => ?_
  rw [pushed.2, pushed.1.gasLeft, kept.1, kept.2, merge]
  exact ⟨rfl, rfl⟩

theorem CallReady.input_small (ready : CallReady evm forceStatic delegate operands) :
    wordsFor operands.argsSize.toNat < 2 ^ 32 := by
  have member : (operands.argsOffset.toNat, operands.argsSize.toNat) ∈ operands.ranges :=
    List.mem_cons_self ..
  have shorter : operands.argsSize.toNat ≤ furthest evm.memory.length operands.ranges :=
    (Nat.le_add_left ..).trans (le_furthest evm.memory.length member)
  exact Nat.lt_of_le_of_lt (wordsFor_mono shorter) ready.small

namespace CallSettled

variable (settled : CallSettled evm forceStatic delegate operands setup mid)

include settled

/-- Memory ends with a whole word. -/
theorem whole : mid.memory.length % 32 = 0 := by
  rw [settled.length]
  exact Nat.mul_mod_left ..

/-- Both ranges lie inside memory. -/
theorem covers {range : Nat × Nat} (member : range ∈ operands.ranges) :
    range.1 + range.2 ≤ mid.memory.length := by
  have ends := le_wordsFor (furthest evm.memory.length operands.ranges)
  rw [settled.length]
  exact (le_furthest evm.memory.length member).trans ends

/-- The return window lies inside the 64-bit range, also when it is rounded up. -/
theorem fits (ready : CallReady evm forceStatic delegate operands) :
    setup.retOffset + setup.retSize + 31 ≤ u64Max := by
  have covered := le_furthest evm.memory.length settled.window
  have bound := furthest_fits ready.small
  omega

/-- The operands that were popped leave room for the flag. -/
theorem room (ready : CallReady evm forceStatic delegate operands) :
    mid.stack.data.length < 1024 := by
  have bounded := evm.stack.bounded
  rw [ready.stack, CallOperands.stack] at bounded
  rw [settled.stack]
  simp only [List.length_cons, List.length_append] at bounded
  omega

end CallSettled

/-- A call that is ready is prepared as far as its target decides what is run. -/
theorem executeCall_of_ready (host : Host) (ready : CallReady evm forceStatic delegate operands) :
    ∃ setup mid, CallSettled evm forceStatic delegate operands setup mid ∧
      Prepared evm forceStatic setup mid ∧
      executeCall host forceStatic delegate evm =
        if isPrecompile operands.target then callPrecompile host setup mid
        else callContract host delegate setup mid := by
  obtain ⟨setup, mid, prepared, settled⟩ := completes_prepareCall ready
  refine ⟨setup, mid, settled, ?_, ?_⟩
  · -- The same run also says what the preparation leaves alone.
    have calm : Calm (CheckedOverflow host) evm (prepareCall forceStatic delegate)
        fun setup after => Prepared evm forceStatic setup after := calm_prepareCall _ _
    unfold Calm Meets at calm
    rw [prepared] at calm
    exact calm.2
  · unfold executeCall
    rw [bind_of_next prepared, settled.target]
    split <;> rfl

/-- The caller of a contract goes on from whatever the frame of the contract comes to. -/
theorem CallSettled.resumes (settled : CallSettled evm forceStatic delegate operands setup mid)
    (host : Host) (ready : CallReady evm forceStatic delegate operands)
    (result : ExecutionResult) (final : Evm) :
    ∃ after, finishCall host setup mid.takeSnapshot.1 result final mid.takeSnapshot.2 =
        .next () after ∧
      after.stack.data = (if result.isSuccess then 1 else 0) :: operands.rest ∧
      after.gasLeft = saturatingAdd (keptGas evm forceStatic delegate operands) final.gasLeft ∧
      Quiet (afterCall mid result final) after := by
  have window := settled.covers settled.window
  -- Taking the snapshot touched the fork only.
  have finishes : (finishCall host setup mid.takeSnapshot.1 result final).Completes
      mid.takeSnapshot.2 _ :=
    completes_finishCall _ result final settled.whole window (settled.fits ready)
      (settled.room ready)
  have quiet : QuietFrom host (afterCall mid result final)
      (finishCall host setup mid.takeSnapshot.1 result final mid.takeSnapshot.2) :=
    quietFrom_finishCall _ _ result final window
  obtain ⟨_, after, ended, data, gas⟩ := finishes
  rw [ended] at quiet
  refine ⟨after, ended, ?_, ?_, quiet⟩
  · rw [data]
    exact congrArg _ settled.stack
  · rw [gas, ← settled.gas]
    rfl

/-- The opcode completes, with its flag on the stack and so much gas. -/
def CallCompletes (operands : CallOperands) (success : Bool) (gas : Nat)
    (tree : Tree Evm ExecutionResult Fault Unit) : Prop :=
  ∃ after, tree = .next () after ∧
    after.stack.data = (if success then 1 else 0) :: operands.rest ∧ after.gasLeft = gas

/--
A call completes whatever its callee comes to.

A precompile that costs more than it was handed fails and uses up all of it.
-/
def SurvivesCallee (host : Host) (evm : Evm) (forceStatic delegate : Bool)
    (operands : CallOperands) : Prop :=
  if isPrecompile operands.target then
    let price := precompilePrice operands.target operands.argsSize.toNat
    CallCompletes operands (price ≤ handedGas evm forceStatic delegate operands)
      (saturatingAdd (keptGas evm forceStatic delegate operands)
        (handedGas evm forceStatic delegate operands - price))
      (executeCall host forceStatic delegate evm)
  else ∃ child survives resume,
    executeCall host forceStatic delegate evm = .enter child survives resume ∧
      ∀ result final, CallCompletes operands result.isSuccess
        (saturatingAdd (keptGas evm forceStatic delegate operands) final.gasLeft)
        (resume result final)

/-- A call that is ready survives every callee but a precompile that was handed too little gas. -/
theorem survivesCallee_iff (host : Host) (evm : Evm) (forceStatic delegate : Bool)
    (operands : CallOperands) (ready : CallReady evm forceStatic delegate operands) :
    SurvivesCallee host evm forceStatic delegate operands ↔
      (isPrecompile operands.target = true →
        precompilePrice operands.target operands.argsSize.toNat ≤
          handedGas evm forceStatic delegate operands) := by
  -- What was prepared is the operands, whatever the target.
  obtain ⟨setup, mid, settled, _, called⟩ := executeCall_of_ready host ready
  have window := settled.covers settled.window
  have room := settled.room ready
  unfold SurvivesCallee
  by_cases precompiled : isPrecompile operands.target = true
  · rw [if_pos precompiled] at called ⊢
    rw [called]
    have small : wordsFor setup.frame.input.length < 2 ^ 32 := by
      rw [settled.input]
      exact ready.input_small
    have target : isPrecompile setup.frame.target = true := by
      rw [settled.target]
      exact precompiled
    obtain ⟨output, price⟩ := executePrecompile_of_small host setup.frame.gasLimit target small
    rw [settled.target, settled.input] at price
    by_cases short : precompilePrice operands.target operands.argsSize.toNat >
        setup.frame.gasLimit
    · -- The error of the precompile ends the frame of its caller.
      rw [if_pos short] at price
      have ends : callPrecompile host setup mid = .exit .outOfGas mid := by
        unfold callPrecompile
        rw [settled.target]
        simp only [price]
        rfl
      constructor
      · intro ⟨after, completes, _⟩
        rw [ends] at completes
        cases completes
      · intro affordable
        have enough := affordable precompiled
        rw [← settled.handed] at enough
        omega
    · rw [if_neg short] at price
      rw [settled.handed] at short
      -- The precompile can be paid, so the call goes on and pushes its flag.
      have enough := Nat.not_lt.mp short
      have paid : executePrecompile host setup.frame.target setup.frame.input
          setup.frame.gasLimit =
          .ok (precompilePrice operands.target operands.argsSize.toNat, output) := by
        rw [settled.target]
        exact price
      obtain ⟨_, after, ended, data, gas⟩ := completes_callPrecompile paid window room
      refine iff_of_true ⟨after, ended, ?_, ?_⟩ fun _ => enough
      · rw [data, settled.stack]
        simp only [enough, decide_true, if_true]
      · rw [gas, settled.gas, settled.handed]
  · rw [if_neg precompiled] at called ⊢
    -- A contract is handed back to its caller however it ended.
    refine iff_of_true ?_ fun never => absurd never precompiled
    rw [called, callContract_apply]
    refine ⟨_, _, _, rfl, fun result final => ?_⟩
    obtain ⟨after, ended, data, gas, _⟩ := settled.resumes host ready result final
    exact ⟨after, ended, data, gas⟩

/-- The operands of a call without input and value that asks for so much gas. -/
def bareCall (gas address : Word) : CallOperands where
  gas := gas
  address := address
  value := 0
  argsOffset := 0
  argsSize := 0
  retOffset := 0
  retSize := 0
  rest := []

/-- A frame with such a call on its stack. -/
def bareCaller (gas address : Word) : Evm :=
  { Evm.newWithGas [] 10000 with stack := ⟨[gas, address, 0, 0, 0, 0, 0], Nat.le_of_ble_eq_true rfl⟩ }

/-- Sixty gas are enough for the hash of nothing. -/
theorem survivesCallee_of_paid_hash :
    SurvivesCallee (tableHost []) (bareCaller 60 2) false false (bareCall 60 2) :=
  (survivesCallee_iff (tableHost []) (bareCaller 60 2) false false (bareCall 60 2)
    { stack := rfl, fits := by decide, small := by decide, funded := by decide }).mpr (by decide)

/-- With one gas less the hash ends the frame that called it, which still had most of its gas. -/
theorem unpaid_hash_ends_caller :
    CallReady (bareCaller 59 2) false false (bareCall 59 2) ∧
      ¬ SurvivesCallee (tableHost []) (bareCaller 59 2) false false (bareCall 59 2) ∧
      ∃ after, opCall (tableHost []) (bareCaller 59 2) = .exit .outOfGas after ∧
        after.gasLeft = 6641 := by
  have ends : ∃ after, opCall (tableHost []) (bareCaller 59 2) = .exit .outOfGas after ∧
      after.gasLeft = 6641 := ⟨_, rfl, rfl⟩
  refine ⟨{ stack := rfl, fits := by decide, small := by decide, funded := by decide }, ?_, ends⟩
  obtain ⟨after, exits, _⟩ := ends
  -- A call that completed would not have ended the frame.
  intro survives
  unfold SurvivesCallee at survives
  rw [if_pos (by decide)] at survives
  obtain ⟨final, completes, _⟩ := survives
  unfold opCall at exits
  rw [exits] at completes
  cases completes

end Outcomes

end MiniEvm
