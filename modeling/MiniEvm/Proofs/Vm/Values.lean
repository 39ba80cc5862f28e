import MiniEvm.Proofs.Vm.Callees
import MiniEvm.Proofs.Vm.Identity
import MiniEvm.Proofs.Vm.Merges
import MiniEvm.Vm.Runner

/-! What becomes of the value of a call: the transfer it stands for, and the word it shows. -/

namespace MiniEvm

open EvmM Frames Frames.Program

section Transfers

variable {host : Host} {evm : Evm} {operands : CallOperands}

/--
A call moves its value from the caller's account to the called one.

With too small a balance it answers zero and changes no account.
Otherwise the callee starts with the value moved, and only its failure takes that back.
-/
def MovesValue (host : Host) (evm : Evm) (operands : CallOperands) : Prop :=
  if evm.state.getBalance evm.selfAddress < operands.value then
    ∃ after, opCall host evm = .next () after ∧ after.stack.data = 0 :: operands.rest ∧
      ∀ account, after.state.getAccount account = evm.state.getAccount account
  else ∃ child survives resume, opCall host evm = .enter child survives resume ∧
    (child.state.getBalance evm.selfAddress).toNat + operands.value.toNat =
      (evm.state.getBalance evm.selfAddress).toNat ∧
    (child.state.getBalance operands.target).toNat =
      (evm.state.getBalance operands.target).toNat + operands.value.toNat ∧
    ∀ result final, ∃ after, resume result final = .next () after ∧
      if result.isSuccess then
        ∀ account, after.state.getAccount account = final.state.getAccount account
      else ∀ account, after.state.getAccount account = evm.state.getAccount account

/-- A call that is ready opens the frame of a contract without a look at any balance. -/
theorem opCall_of_ready (host : Host) (ready : CallReady evm false false operands)
    (contract : isPrecompile operands.target = false) (indexed : evm.state.SnapshotsIndexed) :
    ∃ child survives resume, opCall host evm = .enter child survives resume ∧
      (∀ account, child.state.getAccount account = evm.state.getAccount account) ∧
      ∀ result final, ∃ after, resume result final = .next () after ∧
        after.state = if result.isSuccess then final.state else evm.state := by
  obtain ⟨setup, mid, settled, prepared, called⟩ := executeCall_of_ready host ready
  rw [contract, if_neg (by decide), callContract_apply] at called
  have state : mid.state = evm.state := prepared.quiet.state
  refine ⟨_, _, _, called, fun account => ?_, fun result final => ?_⟩
  · -- The callee starts on the caller's fork, to which only a snapshot was added.
    show mid.state.getAccount account = _
    rw [state]
  · obtain ⟨after, ended, _, _, quiet⟩ := settled.resumes host ready result final
    refine ⟨after, ended, ?_⟩
    rw [quiet.state]
    -- After a failure the snapshot is restored, which the other ones do not shadow.
    cases succeeded : result.isSuccess with
    | true => rw [afterCall_of_success succeeded]; rfl
    | false =>
      rw [afterCall_of_failure (state ▸ indexed.fresh) succeeded]
      exact state

/-- A call moves its value exactly when there is none to move. -/
theorem movesValue_iff (host : Host) (evm : Evm) (operands : CallOperands)
    (ready : CallReady evm false false operands)
    (contract : isPrecompile operands.target = false) (indexed : evm.state.SnapshotsIndexed) :
    MovesValue host evm operands ↔ operands.value = 0 := by
  obtain ⟨child, survives, resume, opened, same, resumes⟩ :=
    opCall_of_ready host ready contract indexed
  have sameBalance : child.state.getBalance evm.selfAddress =
      evm.state.getBalance evm.selfAddress := congrArg AccountState.balance (same _)
  have sameTarget : child.state.getBalance operands.target =
      evm.state.getBalance operands.target := congrArg AccountState.balance (same _)
  unfold MovesValue
  rw [opened]
  constructor
  · intro moves
    split at moves
    · -- A caller that is too poor opens the frame all the same.
      obtain ⟨after, ended, _⟩ := moves
      cases ended
    · obtain ⟨child', _, _, entered, debited, _⟩ := moves
      cases entered
      rw [sameBalance] at debited
      -- The balance of the caller is as before, so nothing is what was to be moved.
      exact BitVec.eq_of_toNat_eq (by simpa using debited)
  · intro nothing
    -- And if nothing is to be moved, then leaving all balances alone moves it.
    have enough : ¬ evm.state.getBalance evm.selfAddress < 0 := BitVec.not_lt_zero
    rw [nothing, if_neg enough]
    refine ⟨child, survives, resume, rfl, ?_, ?_, fun result final => ?_⟩
    · rw [sameBalance]
      rfl
    · rw [sameTarget]
      rfl
    · obtain ⟨after, ended, state⟩ := resumes result final
      refine ⟨after, ended, ?_⟩
      rw [state]
      split
      · exact fun _ => rfl
      · exact fun _ => rfl

/-- The operands of a call of account 0x0b without input that sends so much. -/
def sendingCall (value : Word) : CallOperands := { bareCall 100 0x0b with value }

/-- The frame of account 0x0a, which has ten, about to make that call. -/
def sendingFrame (value : Word) : Evm :=
  { Evm.newWithGas [] 50000 with
    stack := ⟨[100, 0x0b, value, 0, 0, 0, 0], Nat.le_of_ble_eq_true rfl⟩
    context := { address := 0x0a }
    state := ({} : StateFork).setBalance 0x0a 10 }

theorem movesValue_of_nothing :
    MovesValue (tableHost []) (sendingFrame 0) (sendingCall 0) :=
  (movesValue_iff (tableHost []) (sendingFrame 0) (sendingCall 0)
    { stack := rfl, fits := by decide, small := by decide, funded := by decide } (by decide)
    (fun _ _ found => absurd found (by
      simp [sendingFrame, StateFork.setBalance, StateFork.accountForWrite]))).mpr rfl

/-- Five out of ten are not moved, and twenty out of ten are sent as well. -/
theorem call_moves_nothing :
    (CallReady (sendingFrame 5) false false (sendingCall 5) ∧
      ¬ MovesValue (tableHost []) (sendingFrame 5) (sendingCall 5)) ∧
    (CallReady (sendingFrame 20) false false (sendingCall 20) ∧
      ¬ MovesValue (tableHost []) (sendingFrame 20) (sendingCall 20)) := by
  refine ⟨⟨?_, ?_⟩, ⟨?_, ?_⟩⟩
  · exact { stack := rfl, fits := by decide, small := by decide, funded := by decide }
  · intro moves
    -- The frame is opened, and the caller has all its ten there.
    have entered : ∃ child survives resume,
        opCall (tableHost []) (sendingFrame 5) = .enter child survives resume ∧
          (child.state.getBalance (sendingFrame 5).selfAddress).toNat = 10 :=
      ⟨_, _, _, rfl, by decide +kernel⟩
    obtain ⟨child, survives, resume, opened, balance⟩ := entered
    unfold MovesValue at moves
    rw [if_neg (by decide +kernel)] at moves
    obtain ⟨child', _, _, opened', debited, _⟩ := moves
    rw [opened] at opened'
    cases opened'
    rw [balance] at debited
    exact absurd debited (by decide +kernel)
  · exact { stack := rfl, fits := by decide, small := by decide, funded := by decide }
  · intro moves
    have entered : ∃ child survives resume,
        opCall (tableHost []) (sendingFrame 20) = .enter child survives resume :=
      ⟨_, _, _, rfl⟩
    obtain ⟨child, survives, resume, opened⟩ := entered
    unfold MovesValue at moves
    rw [if_pos (by decide +kernel)] at moves
    obtain ⟨after, ended, _⟩ := moves
    rw [opened] at ended
    cases ended

end Transfers

section Readings

variable {host : Host} {evm : Evm} {value : Word}

/-- The value operand of a call. -/
def sentValue (evm : Evm) : Option Word := evm.stack.data[2]?

/-- The value operand of a creation. -/
def endowment (evm : Evm) : Option Word := evm.stack.data[0]?

/--
The frame was entered with this value, or delegated to, at any depth, by a frame that was.

A frame counts from when its loop starts, and after each of its own steps.
-/
inductive EnteredWith (host : Host) (value : Word) : Evm → Prop
  | simulated {state caller target input gasLimit} : EnteredWith host value
      (syncLegacyStateIntoFork (simulationVm state caller target value input gasLimit))
  | applied {state tx} : tx.value = value →
      EnteredWith host value (syncLegacyStateIntoFork (transactionVm state tx))
  | called {evm kept child} : (machine host).Opens evm kept child → evm.opcode = some .call →
      sentValue evm = some value → EnteredWith host value (syncLegacyStateIntoFork child)
  | created {evm kept child salt} : (machine host).Opens evm kept child →
      evm.opcode = some (createOpcode salt) → endowment evm = some value →
      EnteredWith host value (syncLegacyStateIntoFork child)
  | step {evm kept result after} : EnteredWith host value evm →
      (machine host).Steps evm kept result after → EnteredWith host value after
  | delegated {evm kept child} : EnteredWith host value evm →
      (machine host).Opens evm kept child → evm.opcode = some .delegatecall →
      EnteredWith host value (syncLegacyStateIntoFork child)

theorem yields_pop (underflow : ExecutionResult) [Stops underflow] :
    (pop underflow).Yields evm fun value after => evm.stack.data = value :: after.stack.data := by
  intro value after ended
  -- Any handler of faults will do, since none is asked about.
  have calm : Calm (CheckedOverflow (tableHost [])) evm (pop underflow) _ := calm_pop underflow
  exact (calm.yields value after ended).2.1

/-- A plain call puts its value operand into the message. -/
theorem yields_prepareCall : (prepareCall false false).Yields evm fun setup _ =>
    sentValue evm = some setup.frame.value := by
  unfold prepareCall
  refine (yields_pop _).bind fun gas s1 popGas => ?_
  refine (yields_pop _).bind fun address s2 popAddress => ?_
  refine (yields_pop _).bind fun value s3 popValue => ?_
  have sent : sentValue evm = some value := by
    rw [sentValue, popGas, popAddress, popValue]
    rfl
  -- The third operand is in hand, and what follows only passes it on.
  refine Yields.skip fun argsOffset _ => Yields.skip fun argsSize _ => ?_
  refine Yields.skip fun retOffset _ => Yields.skip fun retSize _ => ?_
  refine Yields.skip fun _ _ => Yields.skip fun _ _ => Yields.skip fun _ _ => ?_
  refine Yields.skip fun _ _ => Yields.skip fun baseGas _ => Yields.skip fun _ _ => ?_
  refine Yields.skip fun _ _ => Yields.skip fun input _ => Yields.skip fun _ _ => ?_
  refine Yields.skip fun _ _ => ?_
  exact Yields.pure sent

/-- The frame a call opens holds the value operand, cut to 128 bits. -/
theorem value_of_called {kept : History Evm ExecutionResult} {child : Evm}
    (opens : (machine host).Opens evm kept child) (decoded : evm.opcode = some .call) :
    ∃ value, sentValue evm = some value ∧ child.context.value = toU128Saturating value := by
  obtain ⟨survives, resume, opened⟩ := enter_of_enters opens.2
  rw [step_apply decoded] at opened
  split at opened
  · -- A frame that cannot pay for the opcode opens none.
    cases opened
  -- A frame is opened only by a call that was prepared, and only for a contract.
  obtain ⟨setup, mid, stands, prepared, tree⟩ :=
    prepared_of_executeCall opened (fun _ => nofun) (fun _ _ => nofun)
  have sent : sentValue (evm.begin .call) = some setup.frame.value :=
    yields_prepareCall setup mid stands
  refine ⟨setup.frame.value, sent, ?_⟩
  split at tree
  · -- A precompile runs without a frame of its own.
    exact absurd tree.symm (callPrecompile_ne_enter prepared.window)
  · rw [callContract_apply] at tree
    cases tree
    rfl

/-- The frame a creation opens holds its endowment, cut to 128 bits. -/
theorem value_of_created {kept : History Evm ExecutionResult} {child : Evm} {salt : Option Word}
    (opens : (machine host).Opens evm kept child) (decoded : evm.opcode = some (createOpcode salt)) :
    ∃ value, endowment evm = some value ∧ child.context.value = toU128Saturating value := by
  cases (opened_of_enters opens.2).2 with
  | @call forceStatic delegate setup mid opening =>
    -- No call has the opcode of a creation.
    have same := decoded.symm.trans opening.opcode
    cases salt <;> cases forceStatic <;> cases delegate <;> cases same
  | @create value salt' initCode mid opening =>
    -- The endowment is on top of the stack, above the range of the init code.
    obtain ⟨offset, size, operands⟩ := opening.operands
    refine ⟨value, ?_, rfl⟩
    rw [endowment, operands]
    rfl

/-- A delegated frame holds the value of the frame it runs for. -/
theorem value_of_delegated {kept : History Evm ExecutionResult} {child : Evm}
    (opens : (machine host).Opens evm kept child) (decoded : evm.opcode = some .delegatecall) :
    child.context.value = evm.context.value := by
  cases (opened_of_enters opens.2).2 with
  | @create value salt initCode mid opening =>
    have same := decoded.symm.trans opening.opcode
    cases salt <;> cases same
  | @call forceStatic delegate setup mid opening =>
    cases forceStatic with
    -- Only one of the three kinds of call has this opcode.
    | true => cases decoded.symm.trans opening.opcode
    | false =>
      cases delegate with
      | false => cases decoded.symm.trans opening.opcode
      | true =>
        have value : mid.context.value = evm.context.value :=
          congrArg TxContext.value opening.drift.context
        -- The value is widened for the message and cut back for the frame, which changes nothing.
        show toU128Saturating (mid.context.value.setWidth 256) = _
        rw [toU128Saturating_setWidth, value]

/-- However deep the delegations, a frame holds the value it was entered with, cut to 128 bits. -/
theorem EnteredWith.context_value (entered : EnteredWith host value evm) :
    evm.context.value = toU128Saturating value := by
  -- On how the frame was entered; only the delegation needs what is known of its opener.
  induction entered with
  | simulated => rfl
  | applied sent => rw [← sent]; rfl
  | called opens decoded sent =>
    obtain ⟨value', sent', holds⟩ := value_of_called opens decoded
    rw [sent] at sent'
    rw [Option.some.inj sent']
    exact holds
  | created opens decoded sent =>
    obtain ⟨value', sent', holds⟩ := value_of_created opens decoded
    rw [sent] at sent'
    rw [Option.some.inj sent']
    exact holds
  | step _ steps ih =>
    -- A frame's own steps leave its context alone.
    have same := (stepsTo_of_resolves steps.1 steps.2).sameFrame
    rw [same.context, ih]
  | delegated _ opens decoded ih => exact (value_of_delegated opens decoded).trans ih

/-- The lowest 64 bits of a value held in 128 are the value only if it has no others. -/
theorem shown_value_eq_iff (value : Word) :
    BitVec.ofNat 256 ((toU128Saturating value).toNat % 2 ^ 64) = value ↔ value.toNat < 2 ^ 64 := by
  have held : (BitVec.ofNat 256 ((toU128Saturating value).toNat % 2 ^ 64)).toNat =
      (toU128Saturating value).toNat % 2 ^ 64 := by
    rw [BitVec.toNat_ofNat]
    omega
  constructor
  · -- A remainder is below its modulus.
    intro same
    rw [same] at held
    omega
  · -- What fits 64 bits is not cut at 128 either.
    intro small
    apply BitVec.eq_of_toNat_eq
    rw [held, toU128Saturating, if_pos (by omega), BitVec.toNat_setWidth]
    omega

/--
CALLVALUE is exact for the values that fit 64 bits.

It is asked in every frame that was entered with the value, and in all frames delegated to below.
-/
theorem callvalue_exact_iff (host : Host) (value : Word) (evm : Evm)
    (entered : EnteredWith host value evm) (room : evm.stack.data.length < 1024) :
    (∃ after, opCallvalue evm = .next () after ∧ after.stack.data = value :: evm.stack.data) ↔
      value.toNat < 2 ^ 64 := by
  -- With room on the stack the opcode always pushes something.
  have pushes : opCallvalue.Completes evm _ :=
    Completes.get_bind (completes_push _ _ room)
  obtain ⟨_, after, ended, _, data⟩ := pushes
  simp only [entered.context_value] at data
  rw [← shown_value_eq_iff]
  constructor
  · intro ⟨after', ended', data'⟩
    rw [ended] at ended'
    cases ended'
    rw [data] at data'
    -- The word on top is the one that was shown.
    exact (List.cons.inj data').1
  · intro exact'
    exact ⟨after, ended, by rw [data, exact']⟩

/-- A simulated call of account 0x0b with this value. -/
def valuedFrame (value : Word) : Evm :=
  syncLegacyStateIntoFork (simulationVm {} 0x0a 0x0b value [] 100)

theorem callvalue_exact_of_small :
    (∃ after, opCallvalue (valuedFrame 7) = .next () after ∧
        after.stack.data = 7 :: (valuedFrame 7).stack.data) ↔ (7 : Word).toNat < 2 ^ 64 :=
  callvalue_exact_iff (tableHost []) 7 (valuedFrame 7) .simulated (by decide)

/-- A value of 2^64 is shown as zero. -/
theorem callvalue_drops_high_bits :
    EnteredWith (tableHost []) 0x10000000000000000 (valuedFrame 0x10000000000000000) ∧
      ∃ after, opCallvalue (valuedFrame 0x10000000000000000) = .next () after ∧
        after.stack.data = [0] :=
  ⟨.simulated, _, rfl, by decide⟩

end Readings

end MiniEvm
