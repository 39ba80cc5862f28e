import MiniEvm.Frames.Check
import MiniEvm.Proofs.Vm.Charges

/-! Which exceptional ends use up the gas of their frame. -/

namespace MiniEvm

open EvmM Frames Frames.Program

/-- A frame ends exceptionally when it neither completes nor reverts. -/
def ExecutionResult.isExceptional : ExecutionResult → Bool
  | halt => false
  | return_ _ => false
  | revert _ => false
  | _ => true

section Frames

variable {host : Host} {evm start : Evm}

/--
A step that ends its frame exceptionally does so at the one opcode that clears the gas, or has none.

No other error takes away the gas that is left.
-/
def EndsEmpty (host : Host) (evm : Evm) : Prop :=
  ∀ kept result after, (machine host).Steps evm kept result after →
    result.isExceptional = true → evm.opcode = some .invalid ∨ evm.gasLeft = 0

/-- The designated invalid opcode costs nothing itself and clears the gas. -/
theorem gas_of_invalid {kept : History Evm ExecutionResult} {result : ExecutionResult} {after : Evm}
    (decoded : evm.opcode = some .invalid) (steps : (machine host).Steps evm kept result after) :
    after.gasLeft = 0 := by
  have ends : step host evm = .exit (.invalidOpcode 0xFE)
      { evm.begin .invalid with gasLeft := 0 } := by
    -- The table has it for nothing, so the charge before the handler always succeeds.
    have free : ¬ evm.gasLeft < Opcode.invalid.gasTable := Nat.not_lt_zero _
    rw [step_apply decoded, if_neg free]
    rfl
  -- The machine reads the same step through the frames it may open, of which there are none.
  have resolved := steps.2
  rw [show (machine host).step evm = step host evm from rfl, ends] at resolved
  obtain ⟨_, _, rfl⟩ := resolved
  rfl

/-- An exceptional end leaves no gas, under the condition. -/
theorem gas_of_exceptional {kept : History Evm ExecutionResult} {result : ExecutionResult}
    {after : Evm} (endsEmpty : EndsEmpty host evm)
    (steps : (machine host).Steps evm kept result after)
    (exceptional : result.isExceptional = true) : after.gasLeft = 0 := by
  rcases endsEmpty _ _ _ steps exceptional with decoded | empty
  · exact gas_of_invalid decoded steps
  · -- A step never leaves more gas than it found.
    have fell : after.gasLeft ≤ evm.gasLeft := by
      rcases (stepsTo_of_resolves steps.1 steps.2).gas gas_of_runsNested with less | ⟨le, _⟩
      · exact Nat.le_of_lt less
      · exact le
    omega

/-- So does the whole run of a frame, whose last step it is. -/
theorem gas_of_exceptional_run {history : History Evm ExecutionResult} {result : ExecutionResult}
    {final : Evm}
    (empty : ∀ past before, (machine host).Reaches start past before → EndsEmpty host before)
    (ran : (machine host).Runs start history result final)
    (exceptional : result.isExceptional = true) : final.gasLeft = 0 := by
  -- A frame that runs off its code halts, and that end is no error.
  have stopped : result ≠ .halt := by
    rintro rfl
    cases exceptional
  -- Any other end is that of a last step, which starts in a state the run reaches.
  obtain ⟨past, before, kept, reaches, last⟩ := ran.last_step stopped
  exact gas_of_exceptional (empty past before reaches) last exceptional

/--
An exceptional end uses up the gas of its frame, where every one happens at INVALID or without gas.

Nothing is left in a frame that ends so; its opener is left with what it had kept back; and a
transaction whose own frame ends so has used its whole limit.
-/
theorem exceptional_end_uses_all_gas (host : Host) (start : Evm)
    (empty : ∀ history evm, (machine host).Reaches start history evm → EndsEmpty host evm) :
    (∀ history result final, (machine host).Runs start history result final →
      result.isExceptional = true → final.gasLeft = 0) ∧
    (∀ history evm kept child, (machine host).Reaches start history evm →
      (machine host).Opens evm kept child →
      ∃ available requested, available < evm.gasLeft ∧
        child.gasLeft = calcEip150CallGas available requested ∧
        ∀ past result last, (machine host).RunsNested child past result last →
          result.isExceptional = true → last.gasLeft = 0 ∧
          ∀ kept outcome after, (machine host).Steps evm kept outcome after →
            after.gasLeft ≤ available - child.gasLeft) ∧
    (∀ fuel state tx vm result final receipt after, executedFrame host state tx = some vm →
      start = syncLegacyStateIntoFork vm → run host fuel vm = .value (result, final) →
      result.isExceptional = true →
      applySignedTransaction host fuel state tx = .value (.ok receipt, after) →
      receipt.gasUsed = tx.gasLimit) := by
  refine ⟨?_, ?_, ?_⟩
  · intro history result final ran exceptional
    exact gas_of_exceptional_run empty ran exceptional
  · intro history evm kept child reaches opens
    -- The opener put the difference aside before it looked at the code.
    obtain ⟨available, handed, regained⟩ := handed_of_opens opens
    obtain ⟨requested, computed⟩ := handed.computed
    refine ⟨available, requested, handed.less, computed, ?_⟩
    intro past result last nested exceptional
    -- What the frame below visits is visited by the whole run.
    have below : ∀ seen before, (machine host).Reaches ((machine host).opening child) seen before →
        EndsEmpty host before := by
      intro seen before visited
      exact empty _ before ((reaches.enter opens).trans visited)
    have left : last.gasLeft = 0 := by
      obtain ⟨stop, ran, rfl⟩ := nested
      have spent := gas_of_exceptional_run below ran exceptional
      exact (syncForkIntoLegacyState_gasLeft stop).trans spent
    refine ⟨left, ?_⟩
    intro kept outcome after steps
    -- What it gets back is what the frame below had left, which is nothing.
    have back := regained nested steps
    omega
  · intro fuel state tx vm result final receipt after executed synced ran exceptional applied
    subst synced
    rcases applySignedTransaction_cases applied with
      ⟨_, _, refused, _⟩ | ⟨accepted, bumped, result', vm', bumps, ran', answered, _⟩
    · -- A refused transaction has no receipt.
      cases refused
    · -- The frame of the transaction is the one that was run, and it ran once.
      rw [executedFrame_of_accepted accepted bumps] at executed
      obtain rfl := Option.some.inj executed
      rw [ran] at ran'
      obtain ⟨rfl, rfl⟩ := Prod.mk.inj (Outcome.value.inj ran')
      obtain rfl := Except.ok.inj answered
      obtain ⟨history, stop, looped, rfl⟩ := run_eq_value ran
      have spent := gas_of_exceptional_run empty ⟨fuel, looped⟩ exceptional
      have left : (syncForkIntoLegacyState host stop).gasLeft = 0 := by
        simpa using spent
      -- The receipt counts the limit without what is left.
      show tx.gasLimit - (syncForkIntoLegacyState host stop).gasLeft = tx.gasLimit
      rw [left, Nat.sub_zero]

/-- Whether the frame of a transaction ends in a way that passes a test. -/
def frameEnds (host : Host) (fuel : Nat) (state : StateFork) (tx : SignedTransaction)
    (test : Evm → ExecutionResult → Bool) : Bool :=
  (executedFrame host state tx).any fun vm => endsWith (run host fuel vm) fun ended => test vm ended.1

theorem exists_of_frameEnds {fuel : Nat} {state : StateFork} {tx : SignedTransaction}
    {test : Evm → ExecutionResult → Bool} (ends : frameEnds host fuel state tx test = true) :
    ∃ vm result final, executedFrame host state tx = some vm ∧
      run host fuel vm = .value (result, final) ∧ test vm result = true := by
  unfold frameEnds at ends
  cases executed : executedFrame host state tx with
  | none =>
    rw [executed] at ends
    -- Without a frame there is nothing to test.
    cases ends
  | some vm =>
    rw [executed] at ends
    obtain ⟨⟨result, final⟩, ran, passes⟩ := exists_of_endsWith ends
    exact ⟨vm, result, final, rfl, ran, passes⟩

theorem exceptional_end_uses_all_gas_at_invalid :
    ∃ receipt after,
      applySignedTransaction (tableHost []) 3 payer (payment 1000 2 0x0a) =
        .value (.ok receipt, after) ∧ receipt.gasUsed = 1000 := by
  have ended : endsWith (applySignedTransaction (tableHost []) 3 payer (payment 1000 2 0x0a))
      receives = true := by
    decide +kernel
  -- The only instruction of the frame is the designated one.
  have checked : frameEnds (tableHost []) 3 payer (payment 1000 2 0x0a) (fun vm result =>
      result.isExceptional && (machine (tableHost [])).visitsOnly
        (fun _ evm => evm.opcode = some .invalid) 3 [] (syncLegacyStateIntoFork vm)) = true := by
    decide +kernel
  obtain ⟨receipt, after, applied⟩ := receipt_of_receives ended
  obtain ⟨vm, result, final, executed, ran, passes⟩ := exists_of_frameEnds checked
  obtain ⟨exceptional, visited⟩ := Bool.and_eq_true_iff.mp passes
  -- Every state the frame visits stands at it, so the first half of the condition holds.
  have empty : ∀ history evm, (machine (tableHost [])).Reaches (syncLegacyStateIntoFork vm)
      history evm → EndsEmpty (tableHost []) evm := by
    intro history evm reaches kept outcome left steps _
    exact .inl (by simpa using Machine.passes_of_visitsOnly visited reaches steps.1)
  obtain ⟨_, _, settles⟩ :=
    exceptional_end_uses_all_gas (tableHost []) (syncLegacyStateIntoFork vm) empty
  exact ⟨receipt, after, applied, settles 3 payer (payment 1000 2 0x0a) vm result final receipt
    after executed rfl ran exceptional applied⟩

/-- An account with some ether, and one whose code is no instruction. -/
def undefinedCode : StateFork where
  baseState := ((∅ : HashMap Address AccountState).insert 0x01 { balance := 5000 }).insert 0x0a
    { code := [0x0c] }

/-- An undefined opcode ends its frame with an error, and all the gas comes back. -/
theorem undefined_opcode_returns_gas :
    ∃ vm result final receipt after,
      executedFrame (tableHost []) undefinedCode (payment 1000 2 0x0a) = some vm ∧
      run (tableHost []) 3 vm = .value (result, final) ∧ result.isExceptional = true ∧
      applySignedTransaction (tableHost []) 3 undefinedCode (payment 1000 2 0x0a) =
        .value (.ok receipt, after) ∧ receipt.gasUsed ≠ (payment 1000 2 0x0a).gasLimit := by
  -- The frame meets the one byte of the code and ends with an error.
  have checked : frameEnds (tableHost []) 3 undefinedCode (payment 1000 2 0x0a)
      (fun _ result => result.isExceptional) = true := by
    decide +kernel
  -- The receipt of the same transaction counts no gas at all.
  have applied : endsWith (applySignedTransaction (tableHost []) 3 undefinedCode
      (payment 1000 2 0x0a)) (fun ended => ended.1.toOption.any fun receipt =>
        receipt.gasUsed = 0) = true := by
    decide +kernel
  obtain ⟨vm, result, final, executed, ran, exceptional⟩ := exists_of_frameEnds checked
  obtain ⟨⟨answer, after⟩, applied, unused⟩ := exists_of_endsWith applied
  cases answer with
  | error error => cases unused
  | ok receipt =>
    have unused : receipt.gasUsed = 0 := of_decide_eq_true unused
    refine ⟨vm, result, final, receipt, after, executed, ran, exceptional, applied, ?_⟩
    rw [unused]
    decide

end Frames

end MiniEvm
