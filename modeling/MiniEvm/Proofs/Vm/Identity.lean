import MiniEvm.Proofs.Vm.Runs
import MiniEvm.Vm.Simulation

/-! Who a frame acts as and who called it, along every chain of calls and creations. -/

namespace MiniEvm

open Frames

variable {host : Host} {evm : Evm}

/-- The account that a call names in its second operand. -/
def callee (evm : Evm) : Address :=
  match evm.stack.data with
  | _ :: word :: _ => accountAddress word
  | _ => 0

/-- The account that a creation with this init code makes. -/
def newAccount (host : Host) (evm : Evm) (initCode : Bytes) : Address :=
  match evm.opcode, evm.stack.data with
  | some .create2, _ :: _ :: _ :: salt :: _ => createAddress host evm (some salt) initCode
  | _, _ => createAddress host evm none initCode

/-- A frame that was called by one account and runs as another, in both kinds of storage. -/
structure EnteredAs (caller account : Address) (child : Evm) : Prop where
  caller : child.context.caller = caller
  address : child.selfAddress = account
  transient : child.transientAddress = account

/-- A frame that runs in place of its opener. -/
structure EnteredFor (evm child : Evm) : Prop where
  address : child.selfAddress = evm.selfAddress
  caller : child.context.caller = evm.context.caller
  value : child.context.value = evm.context.value
  transient : child.transientAddress = evm.transientAddress

/-- The context a frame should be opened with, by the opcode that opens it. -/
def ContextCorrect (host : Host) (evm child : Evm) : Prop :=
  match evm.opcode with
  | some .call | some .staticcall => EnteredAs evm.selfAddress (callee evm) child
  | some .create | some .create2 =>
    EnteredAs evm.selfAddress (newAccount host evm child.code) child
  | some .delegatecall => EnteredFor evm child
  | _ => True

/--
When the code opens a frame with the right context.

Calls and creations pass on the address of the running code for that of the acting account.
A delegation takes an acting account of zero for an unset one.
-/
def ContextKept (evm : Evm) : Prop :=
  match evm.opcode with
  | some .call | some .staticcall | some .create | some .create2 =>
    -- The code passes on the first of these where the second is meant.
    evm.context.address = evm.selfAddress
  | some .delegatecall => evm.selfAddress ≠ 0 ∨ callee evm = 0
  | _ => True

/-- A value that came from 128 bits survives the way through a word. -/
theorem toU128Saturating_setWidth (value : BitVec 128) :
    toU128Saturating (value.setWidth 256) = value := by
  -- Widening keeps the value, so it is nowhere near the limit.
  have small : (value.setWidth 256).toNat = value.toNat := by
    simp only [BitVec.toNat_setWidth]
    omega
  unfold toU128Saturating
  rw [small, if_pos value.isLt]
  exact BitVec.setWidth_setWidth_of_le value (by decide)

/-- The operands name the callee. -/
theorem CallOpening.callee {forceStatic delegate : Bool} {setup : CallSetup} {mid : Evm}
    (opening : CallOpening evm forceStatic delegate setup mid) :
    callee evm = setup.frame.target := by
  obtain ⟨gasWord, addressWord, rest, operands, target⟩ := opening.prepared.target
  have operands : evm.stack.data = gasWord :: addressWord :: rest := operands
  simp [MiniEvm.callee, operands, target]

/-- A frame whose two addresses are one account acts as that account. -/
theorem selfAddress_of_same {child : Evm} {account : Address} (code : child.context.address = account)
    (storage : child.storageAddress = account) : child.selfAddress = account := by
  unfold Evm.selfAddress
  split
  · exact code
  · exact storage

/-- A called frame is right about everything but, at times, its caller. -/
theorem CallOpening.enteredAs {forceStatic : Bool} {setup : CallSetup} {mid : Evm}
    (opening : CallOpening evm forceStatic false setup mid) :
    EnteredAs evm.selfAddress (MiniEvm.callee evm) (calledFrame mid false setup) ↔
      evm.context.address = evm.selfAddress := by
  -- The frame is named after the running code, which is right only if that is the acting account.
  have caller : (calledFrame mid false setup).context.caller = evm.context.address :=
    congrArg TxContext.address opening.drift.context
  constructor
  · intro entered
    exact caller.symm.trans entered.caller
  · intro kept
    refine ⟨caller.trans kept, ?_, ?_⟩
    · rw [opening.callee]
      exact selfAddress_of_same rfl rfl
    · rw [opening.callee]
      rfl

/-- A constructor's frame is right about everything but, at times, its caller. -/
theorem CreateOpening.enteredAs {value : Word} {salt : Option Word} {mid : Evm}
    (opening : CreateOpening evm value salt mid) (initCode : Bytes) :
    EnteredAs evm.selfAddress (newAccount host evm initCode)
        (createdFrame host mid value salt initCode) ↔
      evm.context.address = evm.selfAddress := by
  have caller : (createdFrame host mid value salt initCode).context.caller = evm.context.address :=
    congrArg TxContext.address opening.drift.context
  -- The nonce and the creator that the address comes from have not changed on the way.
  have account : newAccount host evm initCode = createAddress host mid salt initCode := by
    obtain ⟨offset, size, operands⟩ := opening.operands
    have self : mid.selfAddress = evm.selfAddress := opening.drift.selfAddress
    have nonce : mid.legacyNonce evm.selfAddress = evm.legacyNonce evm.selfAddress := by
      rw [Evm.legacyNonce, opening.quiet.nonces]
      rfl
    -- With a salt the nonce plays no part.
    cases salt with
    | none => simp [newAccount, opening.opcode, createOpcode, createAddress, self, nonce]
    | some salt =>
      simp [newAccount, opening.opcode, createOpcode, createAddress, self, operands]
  constructor
  · intro entered
    exact caller.symm.trans entered.caller
  · intro kept
    refine ⟨caller.trans kept, ?_, ?_⟩
    · rw [account]
      exact selfAddress_of_same rfl rfl
    · rw [account]
      rfl

/-- A delegated frame is right as long as its account is not mistaken for an unset one. -/
theorem CallOpening.enteredFor {setup : CallSetup} {mid : Evm}
    (opening : CallOpening evm false true setup mid)
    (transient : evm.transientAddress = evm.selfAddress) :
    EnteredFor evm (calledFrame mid true setup) ↔
      evm.selfAddress ≠ 0 ∨ MiniEvm.callee evm = 0 := by
  -- The acting account is handed on as the storage address.
  have self : mid.selfAddress = evm.selfAddress := opening.drift.selfAddress
  have storage : (calledFrame mid true setup).storageAddress = evm.selfAddress := self
  have code : (calledFrame mid true setup).context.address = MiniEvm.callee evm :=
    opening.callee.symm
  constructor
  · intro entered
    -- A zero storage address falls back on the address of the code, which is another account.
    by_contra neither
    push Not at neither
    have address := entered.address
    unfold Evm.selfAddress at address
    rw [storage, if_pos neither.1, code] at address
    exact neither.2 (address.trans neither.1)
  · intro kept
    have caller : mid.context.caller = evm.context.caller :=
      congrArg TxContext.caller opening.drift.context
    refine ⟨?_, caller, ?_, ?_⟩
    · rcases kept with nonzero | zero
      · unfold Evm.selfAddress
        rw [storage, if_neg nonzero]
        rfl
      · by_cases unset : evm.selfAddress = 0
        · rw [unset]
          exact selfAddress_of_same (code.trans zero) (storage.trans unset)
        · unfold Evm.selfAddress
          rw [storage, if_neg unset]
          rfl
    · have value : mid.context.value = evm.context.value :=
        congrArg TxContext.value opening.drift.context
      show toU128Saturating (mid.context.value.setWidth 256) = _
      rw [toU128Saturating_setWidth, value]
    · rw [transient, ← self]
      rfl

/-- The frames a step opens have the right context exactly when the code keeps it. -/
theorem contextCorrect_iff {kept : History Evm ExecutionResult} {child : Evm}
    (opens : (machine host).Opens evm kept child)
    (transient : evm.transientAddress = evm.selfAddress) :
    ContextCorrect host evm child ↔ ContextKept evm := by
  -- Each opcode asks for its own kind of context.
  cases (opened_of_enters opens.2).2 with
  | @call forceStatic delegate setup mid opening =>
    unfold ContextCorrect ContextKept
    rw [opening.opcode]
    cases forceStatic with
    | true =>
      cases delegate with
      | true => exact absurd opening.single (by decide)
      | false => exact opening.enteredAs
    | false =>
      cases delegate with
      | true => exact opening.enteredFor transient
      | false => exact opening.enteredAs
  | @create value salt initCode mid opening =>
    unfold ContextCorrect ContextKept
    rw [opening.opcode]
    cases salt with
    | none => exact opening.enteredAs initCode
    | some salt => exact opening.enteredAs initCode

/-- Frames use the transient slots of the account they act as, while contexts are right. -/
theorem transient_of_reaches {root : Evm} {history : History Evm ExecutionResult}
    (rooted : root.transientAddress = root.selfAddress)
    (right : ∀ {seen opener past child}, (machine host).Reaches root seen opener →
      (machine host).Opens opener past child → opener.transientAddress = opener.selfAddress →
        ContextCorrect host opener child)
    (reaches : (machine host).Reaches root history evm) :
    evm.transientAddress = evm.selfAddress := by
  -- Within a frame both addresses stay as they are.
  induction reaches with
  | refl => exact rooted
  | step _ steps ih =>
    have same := (stepsTo_of_resolves steps.1 steps.2).sameFrame
    rw [same.transientAddress, same.selfAddress, ih]
  | @enter seen opener past child visited opens ih =>
    show child.transientAddress = child.selfAddress
    -- Whatever opened the frame, the right context names one account for both kinds of storage.
    have correct := right visited opens ih
    unfold ContextCorrect at correct
    cases (opened_of_enters opens.2).2 with
    | @call forceStatic delegate setup mid opening =>
      rw [opening.opcode] at correct
      cases forceStatic with
      | true => exact correct.transient.trans correct.address.symm
      | false =>
        cases delegate with
        | true => exact correct.transient.trans (ih.trans correct.address.symm)
        | false => exact correct.transient.trans correct.address.symm
    | @create value salt initCode mid opening =>
      rw [opening.opcode] at correct
      cases salt with
      | none => exact correct.transient.trans correct.address.symm
      | some salt => exact correct.transient.trans correct.address.symm

/--
When every frame of a run is opened with the right context.

Over all chains of frames below a root that uses its own transient slots, it is right throughout
exactly when every opening step keeps it.
-/
theorem call_context_propagates_iff (host : Host) (root : Evm)
    (rooted : root.transientAddress = root.selfAddress) :
    (∀ history evm kept child, (machine host).Reaches root history evm →
      (machine host).Opens evm kept child → ContextCorrect host evm child) ↔
    (∀ history evm kept child, (machine host).Reaches root history evm →
      (machine host).Opens evm kept child → ContextKept evm) := by
  constructor
  · -- A right context also names one account for both kinds of storage, all the way down.
    intro correct history evm kept child reaches opens
    have transient := transient_of_reaches rooted
      (fun visited opened _ => correct _ _ _ _ visited opened) reaches
    exact (contextCorrect_iff opens transient).mp (correct _ _ _ _ reaches opens)
  · intro kept history evm past child reaches opens
    have transient := transient_of_reaches rooted
      (fun visited opened own => (contextCorrect_iff opened own).mpr (kept _ _ _ _ visited opened))
      reaches
    exact (contextCorrect_iff opens transient).mpr (kept _ _ _ _ reaches opens)

/-- Two accounts: the first delegates to the second, whose code calls a third. -/
def delegateThenCall : StateFork where
  baseState := ((∅ : HashMap Address AccountState).insert 0x0a
    { code := [0x60, 0, 0x60, 0, 0x60, 0, 0x60, 0, 0x60, 0x0b, 0x61, 0xff, 0xff, 0xf4] }).insert 0x0b
    { code := [0x60, 0, 0x60, 0, 0x60, 0, 0x60, 0, 0x60, 0, 0x60, 0x0c, 0x61, 0xff, 0xff, 0xf1] }

/-- The run of the first account. -/
def delegateThenCallVm : Evm := simulationVm delegateThenCall 0x01 0x0a 0 [] 1000000

theorem call_context_propagates_from_delegate :
    delegateThenCallVm.transientAddress = delegateThenCallVm.selfAddress ∧
      ((∀ history evm kept child,
        (machine (tableHost [])).Reaches delegateThenCallVm history evm →
        (machine (tableHost [])).Opens evm kept child → ContextCorrect (tableHost []) evm child) ↔
      (∀ history evm kept child,
        (machine (tableHost [])).Reaches delegateThenCallVm history evm →
        (machine (tableHost [])).Opens evm kept child → ContextKept evm)) :=
  ⟨rfl, call_context_propagates_iff (tableHost []) delegateThenCallVm rfl⟩

/-- Whether a step was a call of the first account whose callee has this address for its caller. -/
def callsInNameOf (caller : Address) (done : Transition Evm ExecutionResult) : Bool :=
  match step (tableHost []) done.before with
  | .enter child _ _ => done.before.opcode = some .call ∧ done.before.selfAddress = 0x0a ∧
      child.context.caller = caller
  | _ => false

/--
A call from a delegated frame misnames its caller.

The frame that calls acts as the first account, and its callee finds the second one for its caller.
-/
theorem call_from_delegation_misnames_caller :
    ∃ history evm child, (machine (tableHost [])).Reaches delegateThenCallVm history evm ∧
      (machine (tableHost [])).Opens evm [] child ∧ evm.opcode = some .call ∧
      evm.selfAddress = 0x0a ∧ child.context.caller = 0x0b ∧
      ¬ ContextCorrect (tableHost []) evm child := by
  have ended : endsWith ((machine (tableHost [])).trace 30 delegateThenCallVm)
      (fun ended => ended.1.any (callsInNameOf 0x0b)) = true := by
    decide +kernel
  obtain ⟨⟨history, result, final⟩, ran, found⟩ := exists_of_endsWith ended
  obtain ⟨done, member, calls⟩ := List.any_eq_true.mp found
  obtain ⟨past, reaches⟩ := Machine.reaches_of_mem ran member
  -- The step is computed once more, for the frame that it opened.
  unfold callsInNameOf at calls
  split at calls
  · rename_i child survives resume opened
    obtain ⟨decoded, self, caller⟩ := of_decide_eq_true calls
    have opens : (machine (tableHost [])).Opens done.before [] child := by
      refine ⟨running_of_opcode decoded, ?_⟩
      show (step (tableHost []) done.before).Enters _ _ _
      rw [opened]
      exact .inl ⟨rfl, rfl⟩
    refine ⟨past, done.before, child, reaches, opens, decoded, self, caller, fun correct => ?_⟩
    unfold ContextCorrect at correct
    rw [decoded] at correct
    exact absurd (correct.caller.symm.trans caller) (by rw [self]; decide)
  · cases calls

end MiniEvm
