import MiniEvm.Frames.Depth
import MiniEvm.Proofs.Vm.Gas

/-! The gas rules keep call trees shallow, although nothing counts the frames. -/

namespace MiniEvm

open EvmM Frames Frames.Program

variable {host : Host} {evm : Evm}

section Price

/-- What a call hands over and keeps falls short of what it found by the price of a call. -/
theorem calm_prepareCall_price (forceStatic delegate : Bool) :
    Calm (CheckedOverflow host) evm (prepareCall forceStatic delegate)
      fun setup after => after.gasLeft + setup.frame.gasLimit + 140 ≤ evm.gasLeft := by
  -- The operands cost nothing, so only that no gas appears is kept of them.
  refine (calm_pop _).bind fun gasWord s1 q1 _ => (calm_pop _).bind fun addressWord s2 q2 _ => ?_
  refine (tame_popCallValue _ _ s2).bind fun value s3 q3 _ => ?_
  refine (calm_pop _).bind fun w1 s4 q4 _ => (calm_pop _).bind fun w2 s5 q5 _ => ?_
  refine (calm_pop _).bind fun w3 s6 q6 _ => (calm_pop _).bind fun w4 s7 q7 _ => ?_
  refine (calm_toUsize _).bind fun argsOffset s8 q8 _ => ?_
  refine (calm_toUsize _).bind fun argsSize s9 q9 _ => ?_
  refine (calm_toUsize _).bind fun retOffset s10 q10 _ => ?_
  refine (calm_toUsize _).bind fun retSize s11 q11 _ => ?_
  have spent := ((((((((((q1.trans q2).trans q3).trans q4).trans q5).trans q6).trans q7).trans
    q8).trans q9).trans q10).trans q11).gas
  refine (calm_callBaseGas _ _ _ _ _ _ _).bind fun baseGas s12 _ priced => ?_
  refine (calm_charge _).bind fun _ s13 _ paid => ?_
  refine (calm_expandMemory _).bind fun _ s14 _ expanded => ?_
  have argsInside := expanded.1 (argsOffset, argsSize) (by simp)
  refine (calm_readMemory (by omega) argsInside).bind fun input s15 _ same => ?_
  obtain ⟨_, rfl⟩ := same
  refine Calm.get_bind ?_
  refine (Calm.modify ?_).bind fun _ s16 _ handed => ?_
  · constructor <;> first | rfl | exact Nat.sub_le _ _
  -- What is handed over is taken from what is left behind the price.
  have share := calcEip150CallGas_le s15.gasLeft gasWord
  obtain ⟨enough, rfl⟩ := paid
  have afterFee := expanded.2.1
  simp only at afterFee
  subst handed
  refine Calm.pure ?_
  simp only
  omega

/-- What a step that opens a frame had left behind its price, of which the frame gets its share. -/
def SharedOut (evm child : Evm) : Prop :=
  ∃ available, available + 140 ≤ evm.gasLeft ∧ child.gasLeft ≤ available - available / 64

theorem sharedOut_of_call {forceStatic delegate : Bool} {child : Evm}
    {survives : ExecutionResult → Evm → Bool}
    {resume : ExecutionResult → Evm → Tree Evm ExecutionResult Fault Unit}
    (opens : executeCall host forceStatic delegate (evm.begin (callOpcode forceStatic delegate)) =
      .enter child survives resume) : SharedOut evm child := by
  have price : Calm (CheckedOverflow host) (evm.begin (callOpcode forceStatic delegate))
    (prepareCall forceStatic delegate) _ := calm_prepareCall_price forceStatic delegate
  have settled : Calm (CheckedOverflow host) (evm.begin (callOpcode forceStatic delegate))
    (prepareCall forceStatic delegate) _ := calm_prepareCall forceStatic delegate
  unfold executeCall at opens
  rw [bind_apply] at opens
  -- The preparation opens no frame itself.
  rcases settled.cases with ⟨cause, stands, _⟩ | ⟨result, after, stands, _⟩ |
    ⟨setup, mid, stands, _, prepared⟩
  · rw [stands] at opens
    cases opens
  · rw [stands] at opens
    cases opens
  · have paid := (price.yields setup mid stands).2
    obtain ⟨requested, computed⟩ := prepared.share
    have share := calcEip150CallGas_le (mid.gasLeft + setup.frame.gasLimit) requested
    rw [stands] at opens
    simp only [Tree.bind] at opens
    split at opens
    · -- A precompile runs within the step.
      have leaf : StepLeaf host evm _ (callPrecompile host setup mid) :=
        stepLeaf_callPrecompile prepared
      rw [opens] at leaf
      exact leaf.elim
    · obtain rfl : calledFrame mid delegate setup = child := (Tree.enter.inj opens).1
      refine ⟨mid.gasLeft + setup.frame.gasLimit, paid.trans begin_drift.gas, ?_⟩
      show setup.frame.gasLimit ≤ _
      omega

/-- Every frame is opened behind a price, and gets its share of the rest. -/
theorem sharedOut_of_opens {kept : History Evm ExecutionResult} {child : Evm}
    (opens : (machine host).Opens evm kept child) : SharedOut evm child := by
  obtain ⟨_, opened, survives, resume, begins⟩ := begins_of_enters opens.2
  cases opened with
  | @call forceStatic delegate setup mid opening =>
    rw [step_apply opening.opcode] at begins
    split at begins
    · cases begins
    · -- The static cost of a call is nothing, so its price is paid from what the step found.
      have called : executeCall host forceStatic delegate
          (evm.begin (callOpcode forceStatic delegate)) =
          .enter (calledFrame mid delegate setup) survives resume := by
        have single := opening.single
        cases forceStatic <;> cases delegate <;> first | exact begins | cases single
      exact sharedOut_of_call called
  | @create value salt initCode mid opening =>
    have paid := opening.paid
    have share := (opening.handed host initCode).share
    exact ⟨mid.gasLeft, by omega, share⟩

end Price

section Depth

/--
The gas of a frame with an allowance for the prices still to be paid below it.

The allowance is what an endless chain of calls would pay at the lowest price.
-/
def allowance (evm : Evm) : Nat := evm.gasLeft + 8757

theorem allowance_of_opens {kept : History Evm ExecutionResult} {child : Evm}
    (opens : (machine host).Opens evm kept child) :
    64 * allowance ((machine host).opening child) ≤ 63 * allowance evm := by
  obtain ⟨available, paid, share⟩ := sharedOut_of_opens opens
  have same : ((machine host).opening child).gasLeft = child.gasLeft := rfl
  unfold allowance
  rw [same]
  -- Rounding costs less than one unit, and the price is worth more.
  omega

theorem gas_of_steps {kept : History Evm ExecutionResult} {result : ExecutionResult} {after : Evm}
    (steps : (machine host).Steps evm kept result after) : after.gasLeft ≤ evm.gasLeft := by
  rcases (stepsTo_of_resolves steps.1 steps.2).gas gas_of_runsNested with less | ⟨le, _⟩
  · exact Nat.le_of_lt less
  · exact le

/-- Every opening shrinks the gas and its allowance by one 64th, so depth shrinks them fast. -/
theorem allowance_of_descends {depth : Nat} {state : Evm}
    (descends : (machine host).Descends evm depth state) :
    64 ^ depth * allowance state ≤ 63 ^ depth * allowance evm := by
  refine descends.geometric allowance ?_ allowance_of_opens
  intro state past after steps
  have spent := gas_of_steps steps
  unfold allowance
  omega

/-- A frame is open at this depth only if its opener could pay for the call behind the others. -/
theorem gas_of_depth {depth : Nat} {state : Evm}
    (descends : (machine host).Descends evm (depth + 1) state) :
    8897 * 64 ^ depth ≤ (evm.gasLeft + 8757) * 63 ^ depth := by
  obtain ⟨opener, kept, child, above, opens⟩ := descends.opened
  obtain ⟨available, paid, _⟩ := sharedOut_of_opens opens
  have shrunk := allowance_of_descends above
  -- The price of the last call and the allowance make up what the opener has at least.
  have enough : 8897 ≤ allowance opener := by
    unfold allowance
    omega
  calc 8897 * 64 ^ depth ≤ allowance opener * 64 ^ depth := Nat.mul_le_mul_right _ enough
    _ = 64 ^ depth * allowance opener := Nat.mul_comm _ _
    _ ≤ 63 ^ depth * allowance evm := shrunk
    _ = (evm.gasLeft + 8757) * 63 ^ depth := Nat.mul_comm _ _

/-- What is too little gas for one depth is too little for every greater depth. -/
theorem depth_le_of_gas {bound depth : Nat} {state : Evm}
    (short : (evm.gasLeft + 8757) * 63 ^ bound < 8897 * 64 ^ bound)
    (descends : (machine host).Descends evm depth state) : depth ≤ bound := by
  by_contra deeper
  obtain ⟨more, rfl⟩ : ∃ more, depth = bound + more + 1 := ⟨depth - bound - 1, by omega⟩
  have needed := gas_of_depth descends
  -- Each further frame takes less of the gas than of what is needed.
  have grown : (evm.gasLeft + 8757) * 63 ^ (bound + more) < 8897 * 64 ^ (bound + more) := by
    calc (evm.gasLeft + 8757) * 63 ^ (bound + more)
        = (evm.gasLeft + 8757) * 63 ^ bound * 63 ^ more := by rw [Nat.pow_add, Nat.mul_assoc]
      _ ≤ (evm.gasLeft + 8757) * 63 ^ bound * 64 ^ more :=
        Nat.mul_le_mul_left _ (Nat.pow_le_pow_left (by decide) more)
      _ < 8897 * 64 ^ bound * 64 ^ more := Nat.mul_lt_mul_of_pos_right short (Nat.pow_pos (by decide))
      _ = 8897 * 64 ^ (bound + more) := by rw [Nat.pow_add, Nat.mul_assoc]
  omega

/--
No call tree is deep, although no frame is ever refused for its depth.

A frame that is open below as many others needs a gas limit that grows with the depth as a power of
64 over 63, so that with the gas of a whole block the depth stays below the usual limit of 1024.
-/
theorem call_depth_bounded (host : Host) (evm : Evm) :
    (∀ depth state, (machine host).Descends evm (depth + 1) state →
      8897 * 64 ^ depth ≤ (evm.gasLeft + 8757) * 63 ^ depth) ∧
    (evm.gasLeft ≤ 30000000 → ∀ history state, (machine host).Reaches evm history state →
      (∃ depth, (machine host).Descends evm depth state) ∧
        ∀ depth, (machine host).Descends evm depth state → depth ≤ 516) ∧
    (evm.gasLeft ≤ u64Max → ∀ history state, (machine host).Reaches evm history state →
      (∃ depth, (machine host).Descends evm depth state) ∧
        ∀ depth, (machine host).Descends evm depth state → depth ≤ 2240) := by
  refine ⟨fun depth state descends => gas_of_depth descends, ?_, ?_⟩
  · intro gas history state reaches
    refine ⟨reaches.descends, fun depth descends => ?_⟩
    refine depth_le_of_gas ?_ descends
    calc (evm.gasLeft + 8757) * 63 ^ 516 ≤ (30000000 + 8757) * 63 ^ 516 :=
        Nat.mul_le_mul_right _ (by omega)
      _ < 8897 * 64 ^ 516 := by decide +kernel
  · intro gas history state reaches
    refine ⟨reaches.descends, fun depth descends => ?_⟩
    refine depth_le_of_gas ?_ descends
    calc (evm.gasLeft + 8757) * 63 ^ 2240 ≤ (u64Max + 8757) * 63 ^ 2240 :=
        Nat.mul_le_mul_right _ (by omega)
      _ < 8897 * 64 ^ 2240 := by decide +kernel

end Depth

end MiniEvm
