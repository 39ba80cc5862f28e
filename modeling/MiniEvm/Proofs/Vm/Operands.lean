import MiniEvm.Proofs.Vm.Completion

/-! Arithmetic handlers replace their operands by one word and change nothing else. -/

namespace MiniEvm

open EvmM Frames.Program

variable {evm : Evm} {rest : List Word} {first second third value value' : Word}

/-- The handler completes with the value on top of the rest of the stack, and nothing else
changed. -/
def Pushes (handler : EvmM Unit) (evm : Evm) (rest : List Word) (value : Word) : Prop :=
  handler.Completes evm fun _ after => StackOnly evm after ∧ after.stack.data = value :: rest

/-- A handler pushes one value only. -/
theorem Pushes.unique {handler : EvmM Unit} (pushes : Pushes handler evm rest value)
    (other : Pushes handler evm rest value') : value = value' := by
  obtain ⟨_, after, ended, _, data⟩ := pushes
  obtain ⟨_, after', ended', _, data'⟩ := other
  -- Both speak of the one state in which the handler ends.
  rw [ended] at ended'
  cases ended'
  rw [data] at data'
  exact (List.cons.inj data').1

/-- What a handler pushes is known once one value is. -/
theorem Pushes.iff {handler : EvmM Unit} (pushes : Pushes handler evm rest value) :
    Pushes handler evm rest value' ↔ value = value' := by
  constructor
  · exact pushes.unique
  · rintro rfl
    exact pushes

/-- What is below an operand leaves room on the stack. -/
theorem room_below {values : List Word} (operands : evm.stack.data = value :: values) :
    values.length < 1024 := by
  have bounded := evm.stack.bounded
  rw [operands] at bounded
  exact bounded

theorem pushes_unary (underflow overflow : String) (compute : Evm → Word → Word)
    (blind : ∀ evm stack, compute { evm with stack } = compute evm)
    (operand : evm.stack.data = value :: rest) :
    Pushes (unary underflow overflow compute) evm rest (compute evm value) := by
  unfold Pushes unary
  refine (completes_pop _ operand).bind fun _ s1 popped => ?_
  obtain ⟨rfl, only1, stack1⟩ := popped
  refine Completes.get_bind ?_
  have room : s1.stack.data.length < 1024 := by
    rw [stack1]
    exact room_below operand
  refine (completes_push _ _ room).weaken fun _ s3 pushed => ?_
  -- What is computed does not depend on the stack.
  rw [pushed.2, stack1, only1.read compute blind]
  exact ⟨only1.trans pushed.1, rfl⟩

theorem pushes_binary (name : String) (compute : Word → Word → Word)
    (operands : evm.stack.data = first :: second :: rest) :
    Pushes (binary name compute) evm rest (compute first second) := by
  unfold Pushes binary
  refine (completes_pop _ operands).bind fun _ s1 popped => ?_
  obtain ⟨rfl, only1, stack1⟩ := popped
  refine (completes_pop _ stack1).bind fun _ s2 popped => ?_
  obtain ⟨rfl, only2, stack2⟩ := popped
  -- Two words came off, so there is room for the one that goes on.
  have room : s2.stack.data.length < 1024 := by
    rw [stack2]
    exact room_below stack1
  refine (completes_push _ _ room).weaken fun _ s3 pushed => ?_
  rw [pushed.2, stack2]
  exact ⟨(only1.trans only2).trans pushed.1, rfl⟩

theorem pushes_ternary (name : String) (compute : Word → Word → Word → Word)
    (operands : evm.stack.data = first :: second :: third :: rest) :
    Pushes (ternary name compute) evm rest (compute first second third) := by
  unfold Pushes ternary
  refine (completes_pop _ operands).bind fun _ s1 popped => ?_
  obtain ⟨rfl, only1, stack1⟩ := popped
  refine (completes_pop _ stack1).bind fun _ s2 popped => ?_
  obtain ⟨rfl, only2, stack2⟩ := popped
  refine (completes_pop _ stack2).bind fun _ s3 popped => ?_
  obtain ⟨rfl, only3, stack3⟩ := popped
  have room : s3.stack.data.length < 1024 := by
    rw [stack3]
    exact room_below stack2
  refine (completes_push _ _ room).weaken fun _ s4 pushed => ?_
  rw [pushed.2, stack3]
  exact ⟨((only1.trans only2).trans only3).trans pushed.1, rfl⟩

/-- A frame without code that has these words on its stack. -/
def operandFrame (stack : Stack 1024) : Evm := { Evm.newWithGas [] 0 with stack }

end MiniEvm
