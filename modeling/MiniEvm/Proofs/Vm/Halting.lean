import MiniEvm.Proofs.Vm.Runs

/-! The instructions meant to end a frame, and when the loop lets them. -/

namespace MiniEvm

open EvmM Frames Frames.Program

variable {host : Host} {evm : Evm}

/-- The next opcode is a stop, or a self-destruction that nothing refuses. -/
def HaltsNext (evm : Evm) : Prop :=
  evm.opcode = some .stop ∨
    evm.opcode = some .selfdestruct ∧ evm.isStatic = false ∧
      ∃ word rest, evm.stack.data = word :: rest ∧
        5000 + accessCost evm (accountAddress word) ≤ evm.gasLeft

/-- Such an instruction completes its step. -/
theorem step_of_haltsNext (host : Host) (halts : HaltsNext evm) :
    ∃ after, step host evm = .next () after := by
  rcases halts with stop | ⟨decoded, mutable, word, rest, operand, afford⟩
  · exact ⟨_, step_apply stop⟩
  · -- Every check on the way to the removal passes.
    have start : (evm.begin .selfdestruct).stack.data = word :: rest := operand
    have mutable : (evm.begin .selfdestruct).isStatic = false := mutable
    obtain ⟨stack, popped, _⟩ := pop_of_cons (.error "Stack Underflow") start
    have free : ¬ evm.gasLeft < Opcode.selfdestruct.gasTable := Nat.not_lt_zero _
    rw [step_apply decoded, if_neg free]
    show ∃ after, opSelfdestruct (evm.begin .selfdestruct) = .next () after
    simp only [opSelfdestruct, bind_apply, Tree.bind, popped, get_apply, markAccessed, modify_apply,
      requireMutable_of_mutable mutable]
    rw [charge_of_enough (by exact afford)]
    exact ⟨_, rfl⟩

/-- What the step leaves: the same frame, one byte further. -/
theorem haltsNext_advances {after : Evm} (halts : HaltsNext evm)
    (stepped : step host evm = .next () after) :
    after.pc = evm.pc + 1 ∧ after.code = evm.code := by
  have shape := stepShape host evm
  generalize shaped : step host evm = tree at shape
  rw [shaped] at stepped
  subst stepped
  -- The step reached its end without opening a frame, so it is a leaf.
  cases shape with
  | idle decoded => rcases halts with stop | ⟨selfdestruct, _⟩ <;> simp_all
  | @leaf op _ decoded leaf =>
    have known : op = .stop ∨ op = .selfdestruct := by
      rcases halts with stop | ⟨selfdestruct, _⟩
      · exact .inl (Option.some.inj (decoded.symm.trans stop))
      · exact .inr (Option.some.inj (decoded.symm.trans selfdestruct))
    refine ⟨?_, leaf.1.sameFrame.code⟩
    -- Neither of the two is a jump or carries an immediate.
    rcases known with rfl | rfl <;> rcases leaf.2.pc with moved | ⟨never | never, _⟩ <;>
      first | exact moved | cases never

/-- The state after the step is the end of the loop only where the code ends. -/
theorem last_byte_of_ended {after : Evm} {fuel : Nat} (halts : HaltsNext evm)
    (stepped : step host evm = .next () after)
    (ran : runWithoutSync host fuel evm = .value (.halt, after)) :
    evm.code.length ≤ evm.pc + 1 := by
  obtain ⟨moved, sameCode⟩ := haltsNext_advances halts stepped
  obtain ⟨history, looped⟩ := runWithoutSync_eq_value.mp ran
  -- A halted loop has run past its code, and the step has moved by one byte only.
  have idle : ¬ after.pc < after.code.length :=
    of_decide_eq_false ((machine host).running_of_halt looped)
  rw [moved, sameCode] at idle
  omega

/--
When halting instructions end the frame.

The loop takes the halt of a step for a reason to go on.
So such an instruction ends its frame, with the state it left, exactly when no byte follows it.
-/
theorem halting_ends_frame_iff (host : Host) (evm : Evm) (halts : HaltsNext evm) :
    ∃ after, step host evm = .next () after ∧
      ((∃ fuel, runWithoutSync host fuel evm = .value (.halt, after)) ↔
        evm.pc + 1 = evm.code.length) := by
  obtain ⟨after, stepped⟩ := step_of_haltsNext host halts
  obtain ⟨moved, sameCode⟩ := haltsNext_advances halts stepped
  -- The instruction is a byte of the code.
  have inside : evm.pc < evm.code.length := by
    by_contra outside
    rcases halts with stop | ⟨selfdestruct, _⟩ <;> simp_all [Evm.opcode]
  refine ⟨after, stepped, ?_, ?_⟩
  · rintro ⟨fuel, ran⟩
    have last := last_byte_of_ended halts stepped ran
    omega
  · -- With nothing behind the instruction the loop ends right after it.
    intro last
    have running : (machine host).running evm = true := decide_eq_true inside
    have idle : (machine host).running after = false := by
      refine decide_eq_false ?_
      rw [moved, sameCode]
      omega
    have resolved : ((machine host).step evm).resolve (machine host).halt
        ((machine host).nested ((machine host).trace 1)) = .value ([], .halt, after) := by
      show (step host evm).resolve _ _ = _
      rw [stepped]
      rfl
    have looped := (machine host).trace_of_step running resolved
      ((machine host).trace_of_idle idle 0)
    exact ⟨2, runWithoutSync_eq_value.mpr ⟨_, looped⟩⟩

/-- A frame about to execute a stop, with a push right behind it. -/
def stopThenPush : Evm := Evm.newWithGas [0x00, 0x60, 0x01] 100

theorem halting_ends_frame_single_stop :
    HaltsNext (Evm.newWithGas [0x00] 0) ∧
      ∃ after, step (tableHost []) (Evm.newWithGas [0x00] 0) = .next () after ∧
        ((∃ fuel, runWithoutSync (tableHost []) fuel (Evm.newWithGas [0x00] 0) =
          .value (.halt, after)) ↔ 0 + 1 = 1) :=
  ⟨.inl rfl, halting_ends_frame_iff (tableHost []) (Evm.newWithGas [0x00] 0) (.inl rfl)⟩

/-- The push behind the stop is executed, so the frame does not end where the stop left it. -/
theorem stop_runs_on :
    HaltsNext stopThenPush ∧
      (∃ final, runWithoutSync (tableHost []) 3 stopThenPush = .value (.halt, final) ∧
        final.stack.data = [1]) ∧
      ¬ ∃ after fuel, step (tableHost []) stopThenPush = .next () after ∧
        runWithoutSync (tableHost []) fuel stopThenPush = .value (.halt, after) := by
  refine ⟨.inl rfl, ⟨_, rfl, rfl⟩, ?_⟩
  -- Two more bytes follow the stop.
  rintro ⟨after, fuel, stepped, ran⟩
  exact absurd (last_byte_of_ended (.inl rfl) stepped ran) (by decide)

end MiniEvm
