import MiniEvm.Proofs.Vm.TapeHandlers

/-! Whole runs of a frame keep to the tape, and how far its instructions complete. -/

namespace MiniEvm

open Collections EvmM Frames Frames.Program

section Steps

variable {host : Host} {evm after : Evm} {tape : Tape UInt8} {rest : List Word} {op : MemoryOp}

/-- A step on a memory instruction keeps to the tape, and completes where it is paid for. -/
theorem MemoryOp.Waits.delivers_step (waits : op.Waits rest evm) (backs : Backs evm.memory tape) :
    (step host).Delivers evm (op.Funded evm ∧ op.Within evm)
      fun _ after => op.Served evm rest tape after := by
  have ended := @step_apply host evm op.opcode waits.decoded
  -- Either the static cost cannot be paid, or the handler is what decides.
  by_cases short : evm.gasLeft < op.opcode.gasTable
  · rw [if_pos short] at ended
    have same : step host evm = (exit .outOfGas : EvmM Unit) evm := ended
    refine Delivers.of_eq same (Delivers.exit ?_)
    rintro ⟨funded, _⟩
    have static := op.gasTable_le evm
    have paid := funded.paid
    omega
  · rw [if_neg short] at ended
    exact Delivers.of_eq ended (waits.delivers_dispatch backs)

/-- No memory instruction opens a frame. -/
theorem MemoryOp.closed (op : MemoryOp) : op.opcode.opensFrame = false := by
  -- The opcodes are listed, and none of them is of the call or create family.
  cases op with
  | copy source dest offset size => cases source <;> rfl
  | _ => rfl

/-- A step on which the loop goes on reached its end, if it opens no frame. -/
theorem next_of_steps {code : Opcode} {kept : History Evm ExecutionResult}
    (decoded : evm.opcode = some code) (closed : code.opensFrame = false)
    (steps : (machine host).Steps evm kept .halt after) : step host evm = .next () after := by
  have resolved : (step host evm).Resolves .halt (machine host).RunsNested kept .halt after :=
    steps.2
  -- The step has one of the known shapes, and only a completed handler gives a halt.
  have shape := stepShape host evm
  generalize step host evm = tree at resolved shape
  cases shape with
  | idle nothing =>
    obtain ⟨_, _, rfl⟩ := resolved
    rfl
  | leaf _ leaf =>
    cases tree with
    | fault cause => exact resolved.elim
    | exit result final =>
      -- An early end is never a halt.
      obtain ⟨_, rfl, _⟩ := resolved
      exact absurd rfl leaf.2
    | next value final =>
      obtain ⟨_, _, rfl⟩ := resolved
      rfl
    | enter child survives resume => exact leaf.elim
  | @call forceStatic delegate setup mid opening =>
    have opens := opening.opcode
    rw [decoded] at opens
    obtain rfl := Option.some.inj opens
    cases forceStatic <;> cases delegate <;> cases closed
  | @create value salt initCode mid opening =>
    have opens := opening.opcode
    rw [decoded] at opens
    obtain rfl := Option.some.inj opens
    cases salt <;> cases closed

theorem steps_of_next {code : Opcode} (decoded : evm.opcode = some code)
    (ended : step host evm = .next () after) : (machine host).Steps evm [] .halt after := by
  -- A tree that stands at its end resolves to it without a nested run.
  refine ⟨running_of_opcode decoded, ?_⟩
  show (step host evm).Resolves .halt (machine host).RunsNested [] .halt after
  rw [ended]
  exact ⟨rfl, rfl, rfl⟩

theorem ends_of_exit {early result : ExecutionResult} {final : Evm}
    {kept : History Evm ExecutionResult} (ended : step host evm = .exit early final)
    (steps : (machine host).Steps evm kept result after) : result = early ∧ after = final := by
  -- An early end resolves to itself.
  have resolved : (step host evm).Resolves .halt (machine host).RunsNested kept result after :=
    steps.2
  rw [ended] at resolved
  exact ⟨resolved.2.1, resolved.2.2⟩

/-- From 2^32 words on, the square of the words is no 64-bit number, and the checked form
says so. -/
theorem memoryExpansionCost_of_large {length : Nat} {ranges : List (Nat × Nat)}
    (large : ¬ wordsFor (furthest length ranges) < 2 ^ 32) :
    memoryExpansionCost length ranges = .error .overflow := by
  unfold memoryExpansionCost
  -- An end past the 64-bit range is an overflow of its own.
  cases found : requiredEnd length ranges with
  | none => rfl
  | some required =>
    obtain rfl := furthest_of_requiredEnd found
    have some_ : furthest length ranges ≠ 0 := by
      intro nothing
      rw [nothing] at large
      exact large (by decide)
    simp only [if_neg some_]
    cases padded : checkedAdd (furthest length ranges) 31 with
    | none => rfl
    | some rounded =>
      obtain ⟨rfl, _⟩ := checkedAdd_eq_some padded
      -- Otherwise it is the square of the words that leaves the range.
      have square := Nat.not_le.mpr (lt_square (Nat.not_lt.mp large))
      have unpriced : checkedMemoryCost ((furthest length ranges + 31) / 32) = none := by
        unfold wordsFor at square
        simp only [checkedMemoryCost, checkedMul, if_neg square, Option.bind_eq_bind,
          Option.bind_none, Option.bind_fun_none]
      simp only [unpriced]

/-- The instructions that price all of their ranges at once, in checked arithmetic. -/
def MemoryOp.pricesAtOnce : MemoryOp → Bool
  | mcopy _ _ _ => true
  | copy (.extcode _) _ _ _ => true
  | _ => false

/-- These end the frame with an overflow where the price cannot be computed, and leave memory. -/
theorem MemoryOp.Waits.overflows (waits : op.Waits rest evm) (atOnce : op.pricesAtOnce = true)
    (far : ¬ op.Within evm) :
    ∃ final, step host evm = .exit (.vmError .overflow) final ∧ final.memory = evm.memory := by
  have ended := @step_apply host evm op.opcode waits.decoded
  obtain ⟨_, stack, _, near, nonempty, _⟩ := waits
  -- Neither of the two has a static cost, so the handlers are reached.
  cases op with
  | mcopy dest source size =>
    have free : ¬ evm.gasLeft < (mcopy dest source size).opcode.gasTable := Nat.not_lt_zero _
    rw [if_neg free] at ended
    have stack0 : (evm.begin .mcopy).stack.data = dest :: source :: size :: rest := stack
    obtain ⟨below, _, same⟩ := opMcopy_eq stack0 (near _ (by simp [positions]))
      (near _ (by simp [positions])) (near _ (by simp [positions]))
      (nonempty (dest.toNat, size.toNat) (by simp [access, Access.ranges]))
    have priced : memoryExpansionCost (evm.begin .mcopy).memory.length
        [(dest.toNat, size.toNat), (source.toNat, size.toNat)] = .error .overflow :=
      memoryExpansionCost_of_large far
    rw [priced] at same
    exact ⟨_, ended.trans same, rfl⟩
  | copy source dest offset size =>
    cases source with
    | extcode account =>
      have free : ¬ evm.gasLeft < (copy (.extcode account) dest offset size).opcode.gasTable :=
        Nat.not_lt_zero _
      rw [if_neg free] at ended
      have stack0 : (evm.begin .extcodecopy).stack.data =
        account :: dest :: offset :: size :: rest := stack
      obtain ⟨below, _, same⟩ := opExtcodecopy_eq stack0 (near _ (by simp [positions]))
        (near _ (by simp [positions])) (near _ (by simp [positions]))
      simp only [Within, access, Access.ranges, length_padded] at far
      have priced : memoryExpansionCost (evm.begin .extcodecopy).memory.length
          [(dest.toNat, size.toNat)] = .error .overflow := memoryExpansionCost_of_large far
      rw [priced] at same
      exact ⟨_, ended.trans same, rfl⟩
    | _ => cases atOnce
  | _ => cases atOnce

end Steps

/-- What a frame has done to its memory, step by step. -/
inductive MemoryRun (host : Host) (start : Evm) : List (Access UInt8) → Evm → Prop
  | start : MemoryRun host start [] start
  | access {accesses evm op rest kept after} : MemoryRun host start accesses evm →
      MemoryOp.Waits op rest evm → (machine host).Steps evm kept .halt after →
      MemoryRun host start (accesses ++ [op.access evm]) after
  -- Between them come instructions that leave memory as it is, such as those for the operands.
  | other {accesses evm kept after} : MemoryRun host start accesses evm →
      (∀ op : MemoryOp, evm.opcode ≠ some op.opcode) →
      (machine host).Steps evm kept .halt after → after.memory = evm.memory →
      MemoryRun host start accesses after

/-- The tape after some accesses to a blank one. -/
def tapeOf (accesses : List (Access UInt8)) : Tape UInt8 := accesses.foldl Tape.perform (.blank 0)

section Runs

variable {host : Host} {start evm after : Evm} {accesses : List (Access UInt8)}

/-- Memory is the tape at every point of a run. -/
theorem MemoryRun.backs (ran : MemoryRun host start accesses evm) (fresh : start.memory = []) :
    Backs evm.memory (tapeOf accesses) := by
  induction ran with
  | start =>
    rw [fresh]
    exact backs_blank
  | @access accesses evm op rest kept after _ waits steps ih =>
    -- The step reached its end, where its handler has served the instruction.
    have ended := next_of_steps waits.decoded op.closed steps
    have served := (waits.delivers_step ih).yields _ _ ended
    unfold tapeOf
    rw [List.foldl_append]
    exact served.backs
  | other _ _ _ same ih =>
    rw [same]
    exact ih

/-- A step on another instruction, as it is computed. -/
theorem MemoryRun.next {code : Opcode} (ran : MemoryRun host start accesses evm)
    (decoded : evm.opcode = some code) (unrelated : ∀ op : MemoryOp, op.opcode ≠ code)
    (ended : step host evm = .next () after) (same : after.memory = evm.memory) :
    MemoryRun host start accesses after := by
  -- The opcode that was decoded is none of those of the memory instructions.
  refine ran.other (fun op listed => ?_) (steps_of_next decoded ended) same
  rw [decoded] at listed
  exact unrelated op (Option.some.inj listed).symm

end Runs

/--
Memory is an endless tape of zero bytes, in every run of a frame that starts without memory.

Every instruction that completes reads from the tape, writes to it, or measures it, and nothing else.
It completes wherever its price can be paid and everything it touches lies in the first 2^32 - 1 words;
past these the two copies that price their ranges at once end the frame with an overflow.
-/
theorem memory_is_tape (host : Host) (start evm : Evm) (accesses : List (Access UInt8))
    (fresh : start.memory = []) (ran : MemoryRun host start accesses evm) :
    Backs evm.memory (tapeOf accesses) ∧
    ∀ (op : MemoryOp) (rest : List Word), op.Waits rest evm →
      (∀ kept after, (machine host).Steps evm kept .halt after →
        op.Served evm rest (tapeOf accesses) after) ∧
      (op.Funded evm → op.Within evm → ∃ after, (machine host).Steps evm [] .halt after) ∧
      (op.pricesAtOnce = true → ¬ op.Within evm → ∀ kept result after,
        (machine host).Steps evm kept result after →
          result = .vmError .overflow ∧ after.memory = evm.memory) := by
  -- The run has kept memory and tape together so far, and the next step goes on from there.
  have backs := ran.backs fresh
  refine ⟨backs, fun op rest waits => ⟨?_, ?_, ?_⟩⟩
  · intro kept after steps
    exact (waits.delivers_step backs).yields _ _ (next_of_steps waits.decoded op.closed steps)
  · intro funded within
    obtain ⟨_, after, ended⟩ := (waits.delivers_step backs).ends ⟨funded, within⟩
    exact ⟨after, steps_of_next waits.decoded ended⟩
  · intro atOnce far kept result after steps
    obtain ⟨final, ended, same⟩ := waits.overflows atOnce far
    obtain ⟨rfl, rfl⟩ := ends_of_exit ended steps
    exact ⟨rfl, same⟩

/-- The operands of memory instructions are put there by others. -/
theorem MemoryOp.opcode_ne_push (op : MemoryOp) :
    op.opcode ≠ .push1 ∧ ∀ size, op.opcode ≠ .push size := by
  -- Each opcode of the list is another one.
  cases op with
  | copy source dest offset size => cases source <;> simp [opcode]
  | _ => simp [opcode]

/-- A frame whose code stores a word at an odd place and then measures memory. -/
def storingOddly : Evm := Evm.newWithGas [0x60, 7, 0x60, 5, 0x52, 0x59] 100

/-- That frame before the store. -/
def beforeStore : Evm :=
  { storingOddly with pc := 4, gasLeft := 94, stack := ⟨[5, 7], Nat.le_of_ble_eq_true rfl⟩ }

/-- And after it. -/
def afterStore : Evm :=
  { storingOddly with
    pc := 5
    gasLeft := 85
    memory := List.replicate 5 0 ++ toBeBytes 7 ++ List.replicate 27 0 }

theorem memoryRun_beforeStore : MemoryRun (tableHost []) storingOddly [] beforeStore := by
  -- The two operands are pushed.
  let between : Evm := { storingOddly with
    pc := 2, gasLeft := 97, stack := ⟨[7], Nat.le_of_ble_eq_true rfl⟩ }
  have first : step (tableHost []) storingOddly = .next () between := rfl
  have second : step (tableHost []) between = .next () beforeStore := rfl
  have pushed := MemoryRun.start.next rfl (fun op => op.opcode_ne_push.1) first rfl
  exact pushed.next rfl (fun op => op.opcode_ne_push.1) second rfl

theorem memory_is_tape_storing :
    ∃ after, (machine (tableHost [])).Steps afterStore [] .halt after ∧
      after.stack.data = [64] ∧ Backs after.memory (tapeOf [.store 5 (toBeBytes 7)]) := by
  -- The store is the one access of the run, and touches two words.
  have waits : (MemoryOp.mstore 5 7).Waits [] beforeStore := by
    refine ⟨rfl, rfl, by decide, by simp [MemoryOp.positions, u64Max],
      by simp [MemoryOp.access, Access.ranges, toBeBytes, length_beBytes], ?_⟩
    intro source dest offset size other
    cases other
  have stored : (machine (tableHost [])).Steps beforeStore [] .halt afterStore :=
    steps_of_next waits.decoded rfl
  have ran : MemoryRun (tableHost []) storingOddly [.store 5 (toBeBytes 7)] afterStore :=
    memoryRun_beforeStore.access waits stored
  -- So that is what the next instruction finds.
  have measures : MemoryOp.msize.Waits [] afterStore := by
    refine ⟨rfl, rfl, by decide, by simp [MemoryOp.positions],
      by simp [MemoryOp.access, Access.ranges], ?_⟩
    intro source dest offset size other
    cases other
  obtain ⟨_, serves⟩ := memory_is_tape (tableHost []) storingOddly afterStore _ rfl ran
  obtain ⟨served, completes, _⟩ := serves .msize [] measures
  have funded : MemoryOp.msize.Funded afterStore := by
    refine ⟨by decide, ?_⟩
    intro dest offset size other
    cases other
  obtain ⟨after, steps⟩ := completes funded (by decide)
  have done := served _ after steps
  exact ⟨after, steps, done.stack, done.backs⟩

/-- A frame whose code copies one byte of memory to the place 2^37. -/
def copyingFar : Evm := Evm.newWithGas [0x60, 1, 0x60, 0, 0x64, 0x20, 0, 0, 0, 0, 0x5e] u64Max

/-- That frame before the copy. -/
def beforeCopy : Evm :=
  { copyingFar with
    pc := 10
    gasLeft := u64Max - 9
    stack := ⟨[0x2000000000, 0, 1], Nat.le_of_ble_eq_true rfl⟩ }

/-- A copy to 2^37 ends its frame with an overflow, although there is gas for its price. -/
theorem copy_past_first_words_overflows :
    MemoryRun (tableHost []) copyingFar [] beforeCopy ∧
      (MemoryOp.mcopy 0x2000000000 0 1).Waits [] beforeCopy ∧
      (MemoryOp.mcopy 0x2000000000 0 1).Funded beforeCopy ∧
      ¬ ∃ kept after, (machine (tableHost [])).Steps beforeCopy kept .halt after := by
  -- The three operands are pushed, the size first.
  let first : Evm := { copyingFar with
    pc := 2, gasLeft := u64Max - 3, stack := ⟨[1], Nat.le_of_ble_eq_true rfl⟩ }
  let second : Evm := { copyingFar with
    pc := 4, gasLeft := u64Max - 6, stack := ⟨[0, 1], Nat.le_of_ble_eq_true rfl⟩ }
  have toFirst : step (tableHost []) copyingFar = .next () first := rfl
  have toSecond : step (tableHost []) first = .next () second := rfl
  have toCopy : step (tableHost []) second = .next () beforeCopy := rfl
  have pushed := MemoryRun.start.next rfl (fun op => op.opcode_ne_push.1) toFirst rfl
  have pushed := pushed.next rfl (fun op => op.opcode_ne_push.1) toSecond rfl
  have ran := pushed.next rfl (fun op => op.opcode_ne_push.2 5) toCopy rfl
  have waits : (MemoryOp.mcopy 0x2000000000 0 1).Waits [] beforeCopy := by
    refine ⟨rfl, rfl, by decide, by simp [MemoryOp.positions, u64Max],
      by simp [MemoryOp.access, Access.ranges], ?_⟩
    intro source dest offset size other
    cases other
  -- The byte behind the first 2^32 words is what the copy would have to write.
  have far : ¬ (MemoryOp.mcopy 0x2000000000 0 1).Within beforeCopy := by
    decide
  refine ⟨ran, waits, ⟨by decide, ?_⟩, ?_⟩
  · intro dest offset size other
    cases other
  · rintro ⟨kept, after, steps⟩
    obtain ⟨final, ended, _⟩ := waits.overflows rfl far
    obtain ⟨impossible, _⟩ := ends_of_exit ended steps
    cases impossible

end MiniEvm
