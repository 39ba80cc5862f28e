import MiniEvm.Proofs.Data.Word
import MiniEvm.Proofs.Vm.Callees

/-! What a call leaves in its return window, and in the rest of its caller's memory. -/

namespace MiniEvm

open EvmM Frames Frames.Program

section Bytes

variable {bytes output : Bytes} {offset size : Nat}

/--
A cleared window with an output in front is the window with that output, if its tail was clear.

The output is cut to the size of the window.
-/
theorem cleared_eq_iff (window : offset + size ≤ bytes.length) :
    overwrite (overwrite bytes offset (List.replicate size 0)) offset
        (output.take (min output.length size)) =
      overwrite bytes offset (output.take (min output.length size)) ↔
      ∀ i, output.length ≤ i → i < size → bytes[offset + i]? = some 0 := by
  have zeros : (List.replicate size (0 : UInt8)).length = size := List.length_replicate ..
  have copied : (output.take (min output.length size)).length = min output.length size := by
    rw [List.length_take]
    omega
  have cleared : (overwrite bytes offset (List.replicate size 0)).length = bytes.length :=
    length_overwrite (by omega)
  constructor
  · intro same i past inside
    have behind : ¬ (offset ≤ offset + i ∧ offset + i < offset + min output.length size) := by omega
    have within : offset ≤ offset + i ∧ offset + i < offset + size := by omega
    -- Behind the output the left side has been cleared, and the right side is as it was.
    have left : (overwrite (overwrite bytes offset (List.replicate size 0)) offset
        (output.take (min output.length size)))[offset + i]? = some 0 := by
      rw [getElem?_overwrite (by omega), copied, if_neg behind, getElem?_overwrite (by omega),
        zeros, if_pos within, List.getElem?_replicate, if_pos (by omega)]
    rw [same, getElem?_overwrite (by omega), copied, if_neg behind] at left
    exact left
  · intro clear
    apply List.ext_getElem?
    intro i
    have right := getElem?_overwrite
      (show offset + (output.take (min output.length size)).length ≤ bytes.length by omega) i
    rw [right, getElem?_overwrite (by omega), copied]
    by_cases front : offset ≤ i ∧ i < offset + min output.length size
    · rw [if_pos front, if_pos front]
    · rw [if_neg front, if_neg front, getElem?_overwrite (by omega), zeros]
      by_cases within : offset ≤ i ∧ i < offset + size
      · have tail := clear (i - offset) (by omega) (by omega)
        have position : offset + (i - offset) = i := by omega
        rw [position] at tail
        rw [if_pos within, tail, List.getElem?_replicate, if_pos (by omega)]
      · rw [if_neg within]

end Bytes

section Yields

variable {evm : Evm}

/-- A word in range is its number, and nothing changes. -/
theorem yields_toUsize (word : Word) :
    (toUsize word).Yields evm fun size after => size = word.toNat ∧ after = evm := by
  unfold toUsize toU64
  by_cases fits : word.toNat ≤ u64Max
  · rw [if_pos fits]
    exact Yields.pure ⟨rfl, rfl⟩
  · rw [if_neg fits]
    exact fun _ _ ended => by cases ended

/-- Reading leaves the frame as it is. -/
theorem yields_readMemory (start stop : Nat) :
    (readMemory start stop).Yields evm fun _ after => after = evm := by
  intro bytes after ended
  unfold readMemory at ended
  rw [bind_of_next (get_apply evm)] at ended
  split at ended
  · cases ended
    rfl
  · cases ended

/-- Bytes are written in their place, and nothing else changes. -/
theorem yields_writeMemory (offset : Nat) (source : Bytes) :
    (writeMemory offset source).Yields evm fun _ after =>
      offset + source.length ≤ evm.memory.length ∧
        after = { evm with memory := overwrite evm.memory offset source } := by
  intro _ after ended
  unfold writeMemory at ended
  rw [bind_of_next (get_apply evm)] at ended
  split at ended
  · rename_i inside
    cases ended
    exact ⟨inside, rfl⟩
  · cases ended

/-- A push changes the stack only. -/
theorem yields_push (value : Word) (overflow : ExecutionResult) :
    (push value overflow).Yields evm fun _ after => StackOnly evm after := by
  intro _ after ended
  unfold push at ended
  rw [bind_of_next (get_apply evm)] at ended
  cases pushed : evm.stack.push value with
  | error message =>
    rw [pushed] at ended
    cases ended
  | ok stack =>
    rw [pushed] at ended
    cases ended
    rfl

/-- Pricing a call marks its target, and leaves memory alone. -/
theorem yields_calcCallBaseGas (target : Address) (value : Word)
    (argsOffset argsSize retOffset retSize : Nat) :
    (calcCallBaseGas target value argsOffset argsSize retOffset retSize).Yields evm
      fun _ after => after.memory = evm.memory := by
  unfold calcCallBaseGas
  refine Yields.get_bind ?_
  refine Yields.bind (delivers_orVmError _).yields fun memoryCost _ same => ?_
  obtain ⟨_, rfl⟩ := same
  refine Yields.bind Completes.modify.yields fun _ mid marked => ?_
  obtain rfl := marked
  -- The sum of the prices is there or it is not, and neither touches the frame.
  dsimp only
  generalize checkedAdd _ memoryCost = total
  cases total with
  | none => exact fun _ _ ended => by cases ended
  | some cost => exact Yields.pure rfl

/-- Pricing a call leaves the bytes of the memory as they are. -/
theorem yields_callBaseGas (forceStatic : Bool) (target : Address) (value : Word)
    (argsOffset argsSize retOffset retSize : Nat) :
    (callBaseGas forceStatic target value argsOffset argsSize retOffset retSize).Yields evm
      fun _ after => after.memory = evm.memory := by
  unfold callBaseGas
  cases forceStatic with
  | false => exact yields_calcCallBaseGas target value argsOffset argsSize retOffset retSize
  | true =>
    refine Yields.bind (yields_calcCallBaseGas target 0 argsOffset argsSize retOffset retSize)
      fun normal mid same => ?_
    -- A static call is told from one without a value by a lower price.
    by_cases enough : 660 ≤ normal
    · rw [if_pos enough]
      exact Yields.pure same
    · rw [if_neg enough]
      exact fun _ _ ended => by cases ended

end Yields

section Preparation

variable {host : Host} {evm : Evm} {forceStatic delegate : Bool} {operands : CallOperands}

/-- A caller's memory, extended to where its input and its return window end. -/
def expandedMemory (evm : Evm) (operands : CallOperands) : Bytes :=
  resize evm.memory (wordsFor (furthest evm.memory.length operands.ranges) * 32)

/-- What a call has settled of its return window. -/
structure WindowSettled (evm : Evm) (operands : CallOperands) (setup : CallSetup) (mid : Evm) :
    Prop where
  offset : setup.retOffset = operands.retOffset.toNat
  size : setup.retSize = operands.retSize.toNat
  memory : mid.memory = expandedMemory evm operands

/-- A call that gets as far as its callee has grown memory, and has written nothing. -/
theorem yields_window (stack : evm.stack.data = operands.stack forceStatic delegate) :
    (prepareCall forceStatic delegate).Yields evm (WindowSettled evm operands) := by
  unfold prepareCall
  -- Popping and converting the operands leaves memory alone, and so does pricing.
  refine Yields.bind (completes_pop _ stack).yields fun gas s1 popped => ?_
  obtain ⟨rfl, only1, stack1⟩ := popped
  refine Yields.bind (completes_pop _ stack1).yields fun address s2 popped => ?_
  obtain ⟨rfl, only2, stack2⟩ := popped
  refine Yields.bind (completes_popCallValue _ stack2).yields fun value s3 popped => ?_
  obtain ⟨rfl, only3, stack3⟩ := popped
  refine Yields.bind (completes_pop _ stack3).yields fun argsOffset s4 popped => ?_
  obtain ⟨rfl, only4, stack4⟩ := popped
  refine Yields.bind (completes_pop _ stack4).yields fun argsSize s5 popped => ?_
  obtain ⟨rfl, only5, stack5⟩ := popped
  refine Yields.bind (completes_pop _ stack5).yields fun retOffset s6 popped => ?_
  obtain ⟨rfl, only6, stack6⟩ := popped
  refine Yields.bind (completes_pop _ stack6).yields fun retSize s7 popped => ?_
  obtain ⟨rfl, only7, _⟩ := popped
  have only := (((((only1.trans only2).trans only3).trans only4).trans only5).trans only6).trans only7
  refine Yields.bind (yields_toUsize operands.argsOffset) fun _ _ sized => ?_
  obtain ⟨rfl, rfl⟩ := sized
  refine Yields.bind (yields_toUsize operands.argsSize) fun _ _ sized => ?_
  obtain ⟨rfl, rfl⟩ := sized
  refine Yields.bind (yields_toUsize operands.retOffset) fun _ _ sized => ?_
  obtain ⟨rfl, rfl⟩ := sized
  refine Yields.bind (yields_toUsize operands.retSize) fun _ s11 sized => ?_
  obtain ⟨rfl, rfl⟩ := sized
  refine Yields.bind (yields_callBaseGas forceStatic _ _ _ _ _ _) fun baseGas s12 priced => ?_
  refine Yields.bind (delivers_charge baseGas).yields fun _ s13 charged => ?_
  have memory13 : s13.memory = evm.memory := by
    rw [charged]
    exact priced.trans only.memory
  -- This is the one place where memory grows.
  refine Yields.bind (delivers_expandMemory _).yields fun _ s14 grown => ?_
  have memory14 : s14.memory = expandedMemory evm operands := by
    rw [grown, Evm.covering, memory13]
    rfl
  refine Yields.bind (yields_readMemory _ _) fun input _ same => ?_
  obtain rfl := same
  refine Yields.get_bind ?_
  refine Yields.bind Completes.modify.yields fun _ _ handed => ?_
  obtain rfl := handed
  exact Yields.pure { offset := rfl, size := rfl, memory := memory14 }

/-- The window lies inside memory, which ends with a whole word. -/
theorem WindowSettled.covers {setup : CallSetup} {mid : Evm}
    (settled : WindowSettled evm operands setup mid) :
    setup.retOffset + setup.retSize ≤ mid.memory.length ∧ mid.memory.length % 32 = 0 := by
  -- Memory has grown to the furthest end, which is at or behind that of the window.
  have length : mid.memory.length =
      wordsFor (furthest evm.memory.length operands.ranges) * 32 := by
    rw [settled.memory]
    exact length_resize _ _
  have member : (operands.retOffset.toNat, operands.retSize.toNat) ∈ operands.ranges :=
    List.mem_cons_of_mem _ (List.mem_cons_self ..)
  have ends := (le_furthest evm.memory.length member).trans (le_wordsFor _)
  rw [settled.offset, settled.size, length]
  exact ⟨ends, Nat.mul_mod_left ..⟩

end Preparation

section Results

variable {host : Host} {evm mid : Evm} {forceStatic delegate : Bool} {operands : CallOperands}
  {setup : CallSetup}

/-- Memory with a window cleared, and so much of an output as fits at its start. -/
def clearedWindow (memory : Bytes) (retOffset retSize : Nat) (output : Bytes) : Bytes :=
  overwrite (overwrite memory retOffset (List.replicate retSize 0)) retOffset
    (output.take (min output.length retSize))

/-- Memory with just the bytes of an output that fit into a window. -/
def writtenWindow (memory : Bytes) (retOffset retSize : Nat) (output : Bytes) : Bytes :=
  overwrite memory retOffset (output.take (min output.length retSize))

theorem yields_writeOutput (retOffset retSize : Nat) (output : Bytes) :
    (writeOutput retOffset retSize output).Yields evm fun _ after =>
      after = { evm with memory := clearedWindow evm.memory retOffset retSize output } := by
  -- First the zeros are written, and then the output over them.
  refine Yields.bind (yields_writeMemory retOffset _) fun _ between cleared => ?_
  obtain ⟨_, rfl⟩ := cleared
  intro _ after ended
  obtain ⟨_, rfl⟩ := yields_writeMemory retOffset _ () after ended
  rfl

/-- Touching a window that memory covers does nothing, or ends the frame. -/
theorem yields_touchCovered (host : Host) {offset size : Nat} (whole : evm.memory.length % 32 = 0)
    (inside : offset + size ≤ evm.memory.length) :
    (touchMemory host offset size).Yields evm fun _ after => after = evm := by
  -- Memory ends with a whole word, so its last word covers the end of the window.
  have covered : touchedWords offset size ≤ evm.memory.length / 32 := by
    unfold touchedWords wordsFor
    split <;> omega
  by_cases fits : offset + size + 31 ≤ u64Max
  · exact Yields.of_eq (touchMemory_of_covered fits covered) (Yields.pure rfl)
  · by_cases empty : size = 0
    · -- An empty window is let through wherever it is.
      unfold touchMemory
      rw [if_pos empty]
      exact Yields.pure rfl
    · intro _ _ ended
      rw [touchMemory_of_outside empty (Nat.not_le.mp fits)] at ended
      cases ended

/-- The window and the return data once a call has ended. -/
structure WindowWritten (evm : Evm) (operands : CallOperands) (output : Bytes) (after : Evm) :
    Prop where
  returned : after.returnData = output
  memory : after.memory = clearedWindow (expandedMemory evm operands) operands.retOffset.toNat
    operands.retSize.toNat output

theorem yields_finishCall (settled : WindowSettled evm operands setup mid) (snapshot : Nat)
    (result : ExecutionResult) (child : Evm) :
    (finishCall host setup snapshot result child).Yields mid fun _ after =>
      WindowWritten evm operands result.output after := by
  have covers := settled.covers
  -- The merge takes the output over, and leaves memory to the two writes.
  refine Yields.bind Completes.modify.yields fun _ merged merge => ?_
  have memory : merged.memory = mid.memory := by
    rw [merge, mergeCall]
    split <;> rfl
  have returned : merged.returnData = result.output := by
    rw [merge, mergeCall]
    split <;> rfl
  rw [← memory] at covers
  refine Yields.bind (yields_touchCovered host covers.2 covers.1) fun _ _ same => ?_
  obtain rfl := same
  refine Yields.bind (yields_writeOutput _ _ _) fun _ wrote written => ?_
  intro _ after pushed
  have only : StackOnly wrote after := yields_push _ _ () after pushed
  constructor
  · rw [only.read Evm.returnData fun _ _ => rfl, written]
    exact returned
  · rw [only.memory, written, memory, settled.memory, settled.offset, settled.size]

theorem yields_callPrecompile (settled : WindowSettled evm operands setup mid) {gasUsed : Nat}
    {output : Bytes}
    (ran : executePrecompile host setup.frame.target setup.frame.input setup.frame.gasLimit =
      .ok (gasUsed, output)) :
    (callPrecompile host setup).Yields mid fun _ after =>
      WindowWritten evm operands output after := by
  unfold callPrecompile
  simp only [ran]
  -- A precompile has no frame to merge, but writes its output in the same way.
  refine Yields.bind Completes.modify.yields fun _ merged merge => ?_
  refine Yields.bind (yields_writeOutput _ _ _) fun _ wrote written => ?_
  intro _ after pushed
  have only : StackOnly wrote after := yields_push _ _ () after pushed
  constructor
  · rw [only.read Evm.returnData fun _ _ => rfl, written, merge]
  · rw [only.memory, written, merge, settled.memory, settled.offset, settled.size]

end Results

/--
A call comes to its end with an output.

A precompile hands back bytes, and a contract hands back a result in which they are.
-/
inductive CallEnds (host : Host) (forceStatic delegate : Bool) (evm : Evm) : Bytes → Evm → Prop
  | precompile {setup : CallSetup} {mid : Evm} {gasUsed : Nat} {output : Bytes} {after : Evm}
      (prepared : prepareCall forceStatic delegate evm = .next setup mid)
      (ran : executePrecompile host setup.frame.target setup.frame.input setup.frame.gasLimit =
        .ok (gasUsed, output))
      (ended : executeCall host forceStatic delegate evm = .next () after) :
      CallEnds host forceStatic delegate evm output after
  | contract {child : Evm} {survives : ExecutionResult → Evm → Bool}
      {resume : ExecutionResult → Evm → Tree Evm ExecutionResult Fault Unit}
      {result : ExecutionResult} {final after : Evm}
      (entered : executeCall host forceStatic delegate evm = .enter child survives resume)
      (resumed : resume result final = .next () after) :
      CallEnds host forceStatic delegate evm result.output after

section Windows

variable {host : Host} {evm after : Evm} {forceStatic delegate : Bool} {operands : CallOperands}
  {output : Bytes}

/-- Whatever a call comes to, its return window is cleared and its output is put in front. -/
theorem CallEnds.written (stack : evm.stack.data = operands.stack forceStatic delegate)
    (ends : CallEnds host forceStatic delegate evm output after) :
    WindowWritten evm operands output after := by
  cases ends with
  | @precompile setup mid gasUsed _ _ prepared ran ended =>
    have settled := yields_window stack setup mid prepared
    unfold executeCall at ended
    rw [bind_of_next prepared] at ended
    cases precompiled : isPrecompile setup.frame.target with
    | true =>
      rw [if_pos precompiled] at ended
      exact yields_callPrecompile settled ran () after ended
    | false =>
      -- A contract would have been entered.
      rw [if_neg (by simp [precompiled]), callContract_apply] at ended
      cases ended
  | @contract child survives resume result final _ entered resumed =>
    obtain ⟨setup, mid, prepared, _, tree⟩ :=
      prepared_of_executeCall entered (fun _ => nofun) (fun _ _ => nofun)
    have settled := yields_window stack setup mid prepared
    cases precompiled : isPrecompile setup.frame.target with
    | true =>
      rw [if_pos precompiled] at tree
      exact absurd tree.symm (callPrecompile_ne_enter settled.covers.1)
    | false =>
      rw [if_neg (by simp [precompiled]), callContract_apply] at tree
      cases tree
      -- Taking the snapshot left memory alone.
      have taken : WindowSettled evm operands setup mid.takeSnapshot.2 :=
        { offset := settled.offset, size := settled.size, memory := settled.memory }
      exact yields_finishCall taken _ result final () after resumed

/-- The return data is all of the output, and memory takes over only what fits of it. -/
def WritesOnlyOutput (evm : Evm) (operands : CallOperands) (output : Bytes) (after : Evm) : Prop :=
  after.returnData = output ∧
    after.memory = writtenWindow (expandedMemory evm operands) operands.retOffset.toNat
      operands.retSize.toNat output

/-- Behind the output, the return window reads zeros. -/
def TailIsClear (evm : Evm) (operands : CallOperands) (output : Bytes) : Prop :=
  ∀ i, output.length ≤ i → i < operands.retSize.toNat →
    evm.memory[operands.retOffset.toNat + i]?.getD 0 = 0

/-- A call writes just its output, if there was nothing behind it in the window. -/
theorem writesOnlyOutput_iff (host : Host) (forceStatic delegate : Bool) (evm after : Evm)
    (operands : CallOperands) (output : Bytes)
    (stack : evm.stack.data = operands.stack forceStatic delegate)
    (ends : CallEnds host forceStatic delegate evm output after) :
    WritesOnlyOutput evm operands output after ↔ TailIsClear evm operands output := by
  have written := ends.written stack
  have member : (operands.retOffset.toNat, operands.retSize.toNat) ∈ operands.ranges :=
    List.mem_cons_of_mem _ (List.mem_cons_self ..)
  have inside : operands.retOffset.toNat + operands.retSize.toNat ≤
      wordsFor (furthest evm.memory.length operands.ranges) * 32 :=
    (le_furthest evm.memory.length member).trans (le_wordsFor _)
  have longer : evm.memory.length ≤ wordsFor (furthest evm.memory.length operands.ranges) * 32 :=
    length_le_furthest.trans (le_wordsFor _)
  have window : operands.retOffset.toNat + operands.retSize.toNat ≤
      (expandedMemory evm operands).length := by
    unfold expandedMemory
    rw [length_resize]
    exact inside
  have cleared : WritesOnlyOutput evm operands output after ↔
      ∀ i, output.length ≤ i → i < operands.retSize.toNat →
        (expandedMemory evm operands)[operands.retOffset.toNat + i]? = some 0 := by
    rw [← cleared_eq_iff window]
    unfold WritesOnlyOutput
    rw [written.memory]
    exact and_iff_right written.returned
  rw [cleared]
  -- A byte that memory did not have yet was added as a zero.
  constructor
  · intro clear i past within
    have byte := clear i past within
    rw [expandedMemory, getElem?_resize longer (by omega)] at byte
    exact Option.some.inj byte
  · intro clear i past within
    rw [expandedMemory, getElem?_resize longer (by omega), clear i past within]

/-- A call of the identity, with memory's first word as its return window. -/
def identityCall (argsSize : Word) : CallOperands where
  gas := 100
  address := 4
  value := 0
  argsOffset := 0
  argsSize := argsSize
  retOffset := 0
  retSize := 32
  rest := []

/-- A frame with such a call on its stack, and a word in memory. -/
def identityCaller (argsSize : Word) : Evm :=
  { Evm.newWithGas [] 10000 with
    stack := ⟨[100, 4, 0, 0, argsSize, 0, 32], Nat.le_of_ble_eq_true rfl⟩
    memory := List.replicate 32 255 }

/-- An input of a whole word leaves no room behind the output. -/
theorem writesOnlyOutput_of_full_window : ∃ after,
    CallEnds (tableHost []) false false (identityCaller 32) (List.replicate 32 255) after ∧
      WritesOnlyOutput (identityCaller 32) (identityCall 32) (List.replicate 32 255) after := by
  have ends : ∃ after, CallEnds (tableHost []) false false (identityCaller 32)
      (List.replicate 32 255) after := ⟨_, .precompile rfl rfl rfl⟩
  obtain ⟨after, ends⟩ := ends
  refine ⟨after, ends, (writesOnlyOutput_iff (tableHost []) false false (identityCaller 32) after
    (identityCall 32) _ rfl ends).mpr ?_⟩
  -- The output fills the window, so that no byte lies behind it.
  intro i past within
  have size : (identityCall 32).retSize.toNat = 32 := rfl
  rw [List.length_replicate] at past
  omega

/-- Without an input nothing is returned, and yet the word in the window is gone. -/
theorem empty_output_clears_window : ∃ after,
    CallEnds (tableHost []) false false (identityCaller 0) [] after ∧
      after.memory = List.replicate 32 0 ∧
      ¬ WritesOnlyOutput (identityCaller 0) (identityCall 0) [] after := by
  refine ⟨_, .precompile rfl rfl rfl, rfl, ?_⟩
  intro only
  exact absurd only.2 (by decide)

end Windows

end MiniEvm
