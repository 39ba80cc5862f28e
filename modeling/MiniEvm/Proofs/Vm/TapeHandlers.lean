import MiniEvm.Proofs.Vm.Tapes

/-! Every handler of a memory instruction keeps to the tape. -/

namespace MiniEvm

open Collections EvmM Frames Frames.Program

/-- The frame with another stack. -/
def Evm.withStack (evm : Evm) (stack : Stack 1024) : Evm := { evm with stack }

section Handlers

variable {host : Host} {evm before : Evm} {tape : Tape UInt8} {rest : List Word} {condition : Prop}

/-- Popping leaves everything but the stack. -/
theorem delivers_pop (underflow : ExecutionResult) {value : Word} {below : List Word}
    (operand : evm.stack.data = value :: below) :
    (pop underflow).Delivers evm condition fun popped after =>
      popped = value ∧ ∃ stack, after = evm.withStack stack ∧ stack.data = below := by
  -- The stack was known to hold the operand, so popping is no place to end early.
  obtain ⟨stack, ended, data⟩ := pop_of_cons underflow operand
  exact Completes.delivers ⟨value, _, ended, rfl, stack, rfl, data⟩

/-- Pushing leaves everything but the stack, too. -/
theorem delivers_push (value : Word) (overflow : ExecutionResult)
    (room : evm.stack.data.length < 1024) :
    (push value overflow).Delivers evm condition fun _ after =>
      after.memory = evm.memory ∧ after.stack.data = value :: evm.stack.data :=
  Completes.delivers ((completes_push value overflow room).weaken fun _ _ pushed =>
    ⟨pushed.1.memory, pushed.2⟩)

/-- A look at the frame delivers the frame. -/
theorem delivers_get : (get : EvmM Evm).Delivers evm condition fun value after =>
    value = evm ∧ after = evm :=
  Completes.get.delivers

/-- A near offset is not truncated. -/
theorem asUsize_of_near {word : Word} (near : word.toNat ≤ u64Max) : asUsize word = word.toNat :=
  -- The bound is the largest number below 2^64.
  asUsize_of_lt (Nat.lt_of_le_of_lt near (by decide))

/-- Copying is priced by the word. -/
theorem calcCopyGas_of_near {size : Word} (near : size.toNat ≤ u64Max) :
    calcCopyGas size = .ok (wordsFor size.toNat * 3) := by
  -- A 64-bit size has at most 2^59 words.
  have product : wordsFor size.toNat * 3 ≤ u64Max := by
    unfold wordsFor u64Max
    unfold u64Max at near
    omega
  rw [calcCopyGas_eq, if_pos product]

/-- There is gas for a cost and for the growth over some ranges, which end within 2^32 words. -/
structure CanReach (length gas : Nat) (ranges : List (Nat × Nat)) (cost : Nat) : Prop where
  within : wordsFor (furthest length ranges) < 2 ^ 32
  paid : cost + growthPrice length (wordsFor (furthest length ranges)) ≤ gas

/-- Memory covers some ranges now, and so does the tape. -/
structure Covers (before : Evm) (tape : Tape UInt8) (ranges : List (Nat × Nat)) (after : Evm) :
    Prop where
  same : ∃ gas, after = before.covering ranges gas
  backs : Backs after.memory (tape.touch ranges)
  ends : ∀ range ∈ ranges, range.1 + range.2 ≤ after.memory.length

/-- The frame with grown memory covers the ranges. -/
theorem covers_covering (backs : Backs evm.memory tape) (ranges : List (Nat × Nat)) (gas : Nat) :
    Covers evm tape ranges (evm.covering ranges gas) :=
  -- Growth leaves the cells alone, and fills up to the next whole word.
  ⟨⟨gas, rfl⟩, backs.covering ranges gas, fun _ member => le_covering member gas⟩

/-- Touching a range covers it. -/
theorem delivers_touch (host : Host) {offset size : Nat} (nonempty : 0 < size)
    (backs : Backs evm.memory tape)
    (reaches : condition → CanReach evm.memory.length evm.gasLeft [(offset, size)] 0) :
    (touchMemory host offset size).Delivers evm condition fun _ after =>
      Covers evm tape [(offset, size)] after := by
  -- No other cost is left to be paid at this point.
  refine ((delivers_touchMemory host nonempty backs.whole).under fun holds => ?_).weaken ?_
  · obtain ⟨within, paid⟩ := reaches holds
    exact ⟨within, by omega⟩
  · intro _ after covered
    obtain ⟨gas, rfl⟩ := covered
    exact covers_covering backs _ gas

/-- Writing inside memory writes to the tape. -/
theorem delivers_writeMemory {offset : Nat} {values : Bytes} (backs : Backs evm.memory tape)
    (inside : offset + values.length ≤ evm.memory.length) :
    (writeMemory offset values).Delivers evm condition fun _ after =>
      after.stack = evm.stack ∧ Backs after.memory (tape.write offset values) ∧
        after.memory.length = evm.memory.length := by
  -- The same bytes go to the same cells, and memory is as long as before.
  refine Completes.delivers ((completes_writeMemory inside).weaken fun _ after wrote => ?_)
  subst wrote
  exact ⟨rfl, backs.overwrite inside, length_overwrite inside⟩

/-- Reading inside memory reads from the tape. -/
theorem delivers_readMemory {start size : Nat} (backs : Backs evm.memory tape)
    (inside : start + size ≤ evm.memory.length) :
    (readMemory start (start + size)).Delivers evm condition fun bytes after =>
      bytes = tape.window start size ∧ after = evm := by
  -- The slice and the window are the same bytes.
  refine Completes.delivers ((completes_readMemory (Nat.le_add_right ..) inside).weaken ?_)
  intro bytes after read
  exact ⟨read.1.trans (backs.slice inside), read.2⟩

/-- A load delivers the word on the tape. -/
theorem delivers_opMload {offset : Word} (backs : Backs evm.memory tape)
    (stack : evm.stack.data = offset :: rest) (room : rest.length < 1024)
    (near : offset.toNat ≤ u64Max)
    (reaches : condition → CanReach evm.memory.length evm.gasLeft [(offset.toNat, 32)] 0) :
    (opMload host).Delivers evm condition fun _ after =>
      (MemoryOp.mload offset).Served before rest tape after := by
  unfold opMload
  refine Delivers.bind (delivers_pop _ stack) fun word s1 popped => ?_
  obtain ⟨rfl, stack1, rfl, data1⟩ := popped
  rw [asUsize_of_near near]
  -- Memory covers the word before it is read, in whatever state it was.
  refine Delivers.bind (delivers_touch host (by decide) backs reaches) fun _ s2 covers => ?_
  obtain ⟨⟨gas, rfl⟩, backs2, ends⟩ := covers
  have inside := ends _ (List.mem_singleton_self _)
  refine Delivers.bind (delivers_readMemory backs2 inside) fun bytes s3 read => ?_
  obtain ⟨rfl, rfl⟩ := read
  -- The operand has made room for the word that is pushed.
  have room2 : ((evm.withStack stack1).covering [(word.toNat, 32)] gas).stack.data.length < 1024 :=
    data1 ▸ room
  refine (delivers_push _ _ room2).weaken fun _ after pushed => ⟨?_, ?_⟩
  · rw [pushed.2]
    exact congrArg _ data1
  · rw [pushed.1]
    exact backs2

/-- A store writes its word onto the tape. -/
theorem delivers_opMstore {offset value : Word} (backs : Backs evm.memory tape)
    (stack : evm.stack.data = offset :: value :: rest) (near : offset.toNat ≤ u64Max)
    (reaches : condition → CanReach evm.memory.length evm.gasLeft [(offset.toNat, 32)] 0) :
    (opMstore host).Delivers evm condition fun _ after =>
      (MemoryOp.mstore offset value).Served before rest tape after := by
  unfold opMstore
  refine Delivers.bind (delivers_pop _ stack) fun position s1 popped => ?_
  obtain ⟨rfl, stack1, rfl, data1⟩ := popped
  refine Delivers.bind (delivers_pop _ data1) fun word s2 popped => ?_
  obtain ⟨rfl, stack2, rfl, data2⟩ := popped
  rw [asUsize_of_near near]
  -- The offset is known now, and its word is touched.
  refine Delivers.bind (delivers_touch host (by decide) backs reaches) fun _ s3 covers => ?_
  obtain ⟨⟨gas, rfl⟩, backs3, ends⟩ := covers
  have inside := ends _ (List.mem_singleton_self _)
  have width : (toBeBytes word).length = 32 := length_beBytes _ _
  -- The zeros that are written first are all written over.
  have cleared : position.toNat + (List.replicate 24 (0 : UInt8)).length ≤
      ((evm.withStack stack1 |>.withStack stack2).covering [(position.toNat, 32)] gas).memory.length :=
    Nat.le_trans (Nat.add_le_add_left (by decide : 24 ≤ 32) position.toNat) inside
  refine Delivers.bind (delivers_writeMemory backs3 cleared) fun _ s4 wrote => ?_
  obtain ⟨stack4, backs4, length4⟩ := wrote
  refine (delivers_writeMemory backs4 ?_).weaken fun _ after wrote => ⟨?_, ?_⟩
  · rw [length4, width]
    exact inside
  · rw [wrote.1, stack4]
    exact data2
  · have hidden := wrote.2.1
    rw [Tape.write_write _ _ (by rw [width]; decide)] at hidden
    simpa only [MemoryOp.access, Tape.perform, Access.ranges, width] using hidden

/-- A store of a byte writes it onto the tape. -/
theorem delivers_opMstore8 {offset value : Word} (backs : Backs evm.memory tape)
    (stack : evm.stack.data = offset :: value :: rest) (near : offset.toNat ≤ u64Max)
    (reaches : condition → CanReach evm.memory.length evm.gasLeft [(offset.toNat, 1)] 0) :
    (opMstore8 host).Delivers evm condition fun _ after =>
      (MemoryOp.mstore8 offset value).Served before rest tape after := by
  unfold opMstore8
  refine Delivers.bind (delivers_pop _ stack) fun position s1 popped => ?_
  obtain ⟨rfl, stack1, rfl, data1⟩ := popped
  refine Delivers.bind (delivers_pop _ data1) fun word s2 popped => ?_
  obtain ⟨rfl, stack2, rfl, data2⟩ := popped
  rw [asUsize_of_near near]
  -- Only the lowest byte of the word is stored.
  refine Delivers.bind (delivers_touch host (by decide) backs reaches) fun _ s3 covers => ?_
  obtain ⟨⟨gas, rfl⟩, backs3, ends⟩ := covers
  have inside := ends _ (List.mem_singleton_self _)
  refine (delivers_writeMemory backs3 inside).weaken fun _ after wrote => ⟨?_, wrote.2.1⟩
  rw [wrote.1]
  exact data2

/-- The size of the memory is how far the tape was touched, in whole words. -/
theorem delivers_opMsize (backs : Backs evm.memory tape) (stack : evm.stack.data = rest)
    (room : rest.length < 1024) :
    opMsize.Delivers evm condition fun _ after => MemoryOp.msize.Served before rest tape after := by
  -- Memory is not touched, only measured.
  unfold opMsize pushRead
  refine Delivers.bind delivers_get fun read s1 same => ?_
  obtain ⟨rfl, rfl⟩ := same
  refine (delivers_push _ _ (stack ▸ room)).weaken fun _ after pushed => ⟨?_, ?_⟩
  · have top : after.stack.data = BitVec.ofNat 256 s1.memory.length :: s1.stack.data := pushed.2
    rw [top, backs.length, stack]
    rfl
  · rw [pushed.1]
    exact backs

/-- Pricing the growth over some ranges together with the rest, paying, and growing. -/
theorem delivers_growth {β : Type} {first second length : Nat} {ranges : List (Nat × Nat)}
    {then_ : EvmM β} {post : β → Evm → Prop} (backs : Backs evm.memory tape)
    (known : evm.memory.length = length) (modest : first + second ≤ 2 ^ 62)
    (reaches : condition → CanReach evm.memory.length evm.gasLeft ranges (first + second))
    (rest : ∀ after, Covers evm tape ranges after → then_.Delivers after condition post) :
    (do
      let memoryCost ← orVmError (memoryExpansionCost length ranges)
      chargeSum first second memoryCost
      expandMemoryWithoutCharge ranges
      then_ : EvmM β).Delivers evm condition post := by
  subst known
  refine Delivers.bind ((delivers_orVmError _).under fun holds =>
    ⟨_, memoryExpansionCost_of_small (reaches holds).within⟩) fun cost mid priced => ?_
  obtain ⟨found, rfl⟩ := priced
  have affordable : condition → first + second + cost ≤ mid.gasLeft ∧
      first + second + cost ≤ u64Max := by
    intro holds
    obtain ⟨within, paid⟩ := reaches holds
    -- The price that was found is the exact one.
    rw [memoryExpansionCost_of_small within] at found
    obtain rfl := Except.ok.inj found
    have bound : growthPrice mid.memory.length (wordsFor (furthest mid.memory.length ranges)) <
        2 ^ 56 := Nat.lt_of_le_of_lt (Nat.sub_le _ _) (memoryGas_lt within)
    refine ⟨paid, ?_⟩
    unfold u64Max
    omega
  -- The whole price is charged before memory grows.
  refine Delivers.bind ((delivers_chargeSum _ _ _).under affordable) fun _ paid charged => ?_
  obtain ⟨spent, rfl⟩ := charged
  refine Delivers.bind (Delivers.under (delivers_expandMemory ranges) fun holds =>
    (reaches holds).within) fun _ after covered => ?_
  subst covered
  exact rest _ (covers_covering backs ranges _)

/-- Popping one operand after another only ever changes the stack. -/
theorem pop_withStack (underflow : ExecutionResult) (evm : Evm) {stack : Stack 1024} {value : Word}
    {below : List Word} (operand : stack.data = value :: below) :
    ∃ lower : Stack 1024, pop underflow (evm.withStack stack) = .next value (evm.withStack lower) ∧
      lower.data = below :=
  pop_of_cons underflow operand

/-- A size that fits is found at once. -/
theorem toUsize_of_near {word : Word} (near : word.toNat ≤ u64Max) (evm : Evm) :
    toUsize word evm = .next word.toNat evm := by
  unfold toUsize toU64
  rw [if_pos near]
  rfl

/-- A copy within memory, once its operands are known: it is priced at once, and read first. -/
theorem opMcopy_eq {dest source size : Word}
    (stack : evm.stack.data = dest :: source :: size :: rest) (nearDest : dest.toNat ≤ u64Max)
    (nearSource : source.toNat ≤ u64Max) (nearSize : size.toNat ≤ u64Max)
    (nonempty : 0 < size.toNat) :
    ∃ below : Stack 1024, below.data = rest ∧ opMcopy evm = (do
      let memoryCost ← orVmError (memoryExpansionCost evm.memory.length
        [(dest.toNat, size.toNat), (source.toNat, size.toNat)])
      chargeSum 3 (wordsFor size.toNat * 3) memoryCost
      expandMemoryWithoutCharge [(dest.toNat, size.toNat), (source.toNat, size.toNat)]
      let bytes ← readMemory source.toNat (source.toNat + size.toNat)
      writeMemory dest.toNat bytes : EvmM Unit) (evm.withStack below) := by
  -- Operand after operand is taken off the front of the handler.
  obtain ⟨stack1, popDest, data1⟩ := pop_withStack (.error "Stack Underflow on MCOPY") evm stack
  obtain ⟨stack2, popSource, data2⟩ := pop_withStack (.error "Stack Underflow on MCOPY") evm data1
  obtain ⟨stack3, popSize, data3⟩ := pop_withStack (.error "Stack Underflow on MCOPY") evm data2
  refine ⟨stack3, data3, ?_⟩
  unfold opMcopy
  refine (bind_of_next popDest).trans ?_
  rw [bind_of_next popSource, bind_of_next popSize, bind_of_next (toUsize_of_near nearSize _),
    calcCopyGas_of_near nearSize]
  have priced : orVmError (.ok (wordsFor size.toNat * 3)) (evm.withStack stack3) =
    .next (wordsFor size.toNat * 3) (evm.withStack stack3) := rfl
  rw [bind_of_next priced, if_neg (Nat.ne_of_gt nonempty),
    bind_of_next (toUsize_of_near nearDest _), bind_of_next (toUsize_of_near nearSource _),
    bind_of_next (get_apply _)]
  rfl

/-- A move delivers what stood on the tape before. -/
theorem delivers_opMcopy {dest source size : Word} (backs : Backs evm.memory tape)
    (stack : evm.stack.data = dest :: source :: size :: rest) (nearDest : dest.toNat ≤ u64Max)
    (nearSource : source.toNat ≤ u64Max) (nearSize : size.toNat ≤ u64Max)
    (nonempty : 0 < size.toNat)
    (reaches : condition → CanReach evm.memory.length evm.gasLeft
      [(dest.toNat, size.toNat), (source.toNat, size.toNat)] (3 + wordsFor size.toNat * 3)) :
    opMcopy.Delivers evm condition fun _ after =>
      (MemoryOp.mcopy dest source size).Served before rest tape after := by
  obtain ⟨below, data, same⟩ := opMcopy_eq stack nearDest nearSource nearSize nonempty
  have modest : 3 + wordsFor size.toNat * 3 ≤ 2 ^ 62 := by
    unfold wordsFor
    unfold u64Max at nearSize
    omega
  refine Delivers.of_eq same (delivers_growth backs rfl modest reaches fun grown covers => ?_)
  -- Memory covers both ranges, whichever of them reaches further.
  obtain ⟨⟨gas, rfl⟩, backs1, ends⟩ := covers
  have sourceInside := ends (source.toNat, size.toNat) (by simp)
  have destInside := ends (dest.toNat, size.toNat) (by simp)
  -- The source is read as a whole, so that overlaps do no harm.
  refine Delivers.bind (delivers_readMemory backs1 sourceInside) fun bytes s9 read => ?_
  obtain ⟨rfl, rfl⟩ := read
  refine (delivers_writeMemory backs1 ?_).weaken fun _ after wrote => ⟨?_, wrote.2.1⟩
  · rw [Tape.length_window]
    exact destInside
  · rw [wrote.1]
    exact data

/-- No index into a byte vector saturates before its end. -/
theorem map_byteOrZero {bytes : Bytes} (addressable : bytes.length ≤ u64Max) (offset size : Nat) :
    (List.range size).map (byteOrZero bytes offset) = padded bytes offset size := by
  apply List.map_congr_left
  intro i _
  unfold byteOrZero saturatingAdd
  by_cases near : offset + i ≤ u64Max
  · rw [Nat.min_eq_left near]
  · -- Both indices are past the end.
    rw [Nat.min_eq_right (Nat.le_of_not_le near), List.getElem?_eq_none addressable,
      List.getElem?_eq_none (by omega)]

/-- Inside the source nothing has to be padded. -/
theorem slice_eq_padded {bytes : Bytes} {offset size : Nat} (inside : offset + size ≤ bytes.length) :
    slice bytes offset (offset + size) = padded bytes offset size := by
  -- A list shows the tape that repeats it, and every slice is a window of that.
  have shown : Shows 0 bytes ⟨fun i => (bytes[i]?).getD 0, 0⟩ := fun _ => rfl
  exact shown.window inside

/-- Copying byte after byte writes the padded source to the tape. -/
theorem delivers_copyToMemory {dest offset size : Nat} {bytes : Bytes}
    (backs : Backs evm.memory tape) (nonempty : 0 < size) (addressable : bytes.length ≤ u64Max)
    (inside : dest + size ≤ evm.memory.length) :
    (copyToMemory dest size (byteOrZero bytes offset)).Delivers evm condition fun _ after =>
      after.stack = evm.stack ∧ Backs after.memory (tape.write dest (padded bytes offset size)) := by
  -- The loop over the bytes is one write of the whole padded source.
  unfold copyToMemory
  rw [if_neg (Nat.ne_of_gt nonempty), map_byteOrZero addressable]
  refine (delivers_writeMemory backs ?_).weaken fun _ _ wrote => ⟨wrote.1, wrote.2.1⟩
  rw [length_padded]
  exact inside

/-- A copy pays for its words before it touches memory. -/
theorem delivers_chargeCopy {size : Word} (near : size.toNat ≤ u64Max) :
    (chargeCopy size).Delivers evm (wordsFor size.toNat * 3 ≤ evm.gasLeft) fun _ after =>
      after = evm.spend (wordsFor size.toNat * 3) := by
  unfold chargeCopy
  rw [calcCopyGas_of_near near]
  exact delivers_charge _

/-- Once a copy is paid for, the growth that was affordable with it still is. -/
theorem CanReach.afterCopy {length gas cost : Nat} {ranges : List (Nat × Nat)}
    (reaches : CanReach length gas ranges cost) : CanReach length (gas - cost) ranges 0 := by
  obtain ⟨within, paid⟩ := reaches
  exact ⟨within, by omega⟩

/-- A copy from a byte string that neither the stack, nor gas, nor memory is part of. -/
theorem delivers_copyOpcode {name : String} {source : Evm → Bytes} {bytes : Bytes}
    {dest offset size : Word} (backs : Backs evm.memory tape)
    (stack : evm.stack.data = dest :: offset :: size :: rest) (nearDest : dest.toNat ≤ u64Max)
    (nearOffset : offset.toNat ≤ u64Max) (nearSize : size.toNat ≤ u64Max)
    (nonempty : 0 < size.toNat) (addressable : bytes.length ≤ u64Max)
    (blind : ∀ stack cost ranges gas,
      source (((evm.withStack stack).spend cost).covering ranges gas) = bytes)
    (reaches : condition → CanReach evm.memory.length evm.gasLeft [(dest.toNat, size.toNat)]
      (wordsFor size.toNat * 3)) :
    (copyOpcode host name source).Delivers evm condition fun _ after =>
      after.stack.data = rest ∧ Backs after.memory ((tape.touch [(dest.toNat, size.toNat)]).write
        dest.toNat (padded bytes offset.toNat size.toNat)) := by
  unfold copyOpcode
  refine Delivers.bind (delivers_pop _ stack) fun destWord s1 popped => ?_
  obtain ⟨rfl, stack1, rfl, data1⟩ := popped
  refine Delivers.bind (delivers_pop _ data1) fun offsetWord s2 popped => ?_
  obtain ⟨rfl, stack2, rfl, data2⟩ := popped
  refine Delivers.bind (delivers_pop _ data2) fun sizeWord s3 popped => ?_
  obtain ⟨rfl, stack3, rfl, data3⟩ := popped
  rw [asUsize_of_near nearDest, asUsize_of_near nearOffset, asUsize_of_near nearSize,
    if_neg (Nat.ne_of_gt nonempty)]
  -- The words are paid for first, and the growth out of what is left.
  refine Delivers.bind (Delivers.under (delivers_chargeCopy nearSize) fun holds =>
    Nat.le_trans (Nat.le_add_right ..) (reaches holds).paid) fun _ s4 charged => ?_
  subst charged
  refine Delivers.bind (delivers_touch host nonempty backs fun holds =>
    (reaches holds).afterCopy) fun _ s5 covers => ?_
  obtain ⟨⟨gas, rfl⟩, backs5, ends⟩ := covers
  have inside := ends _ (List.mem_singleton_self _)
  refine Delivers.bind delivers_get fun read s6 same => ?_
  obtain ⟨rfl, rfl⟩ := same
  -- What was popped, paid and grown is no part of the source.
  have same : source ((((evm.withStack stack1 |>.withStack stack2).withStack stack3).spend
      (wordsFor sizeWord.toNat * 3)).covering [(destWord.toNat, sizeWord.toNat)] gas) = bytes :=
    blind _ _ _ _
  rw [same]
  refine (delivers_copyToMemory backs5 nonempty addressable inside).weaken fun _ after wrote =>
    ⟨?_, wrote.2⟩
  rw [wrote.1]
  exact data3

/-- A copy of code, once its operands are known and the account is marked. -/
theorem opExtcodecopy_eq {account dest offset size : Word}
    (stack : evm.stack.data = account :: dest :: offset :: size :: rest)
    (nearDest : dest.toNat ≤ u64Max) (nearOffset : offset.toNat ≤ u64Max)
    (nearSize : size.toNat ≤ u64Max) :
    ∃ below : Stack 1024, below.data = rest ∧ opExtcodecopy evm = (do
      let memoryCost ← orVmError (memoryExpansionCost evm.memory.length
        [(dest.toNat, size.toNat)])
      chargeSum (accessCost evm (accountAddress account)) (wordsFor size.toNat * 3) memoryCost
      expandMemoryWithoutCharge [(dest.toNat, size.toNat)]
      copyToMemory dest.toNat size.toNat
        (byteOrZero (evm.state.getCode (accountAddress account)) offset.toNat) : EvmM Unit)
      { evm.withStack below with
        accessedAddresses := insert (accountAddress account) evm.accessedAddresses } := by
  -- The account is marked as soon as all operands are known to fit.
  obtain ⟨stack0, popAccount, data0⟩ := pop_withStack (.error "Stack Underflow") evm stack
  obtain ⟨stack1, popDest, data1⟩ :=
    pop_withStack (.error "Stack Underflow on EXTCODECOPY") evm data0
  obtain ⟨stack2, popOffset, data2⟩ :=
    pop_withStack (.error "Stack Underflow on EXTCODECOPY") evm data1
  obtain ⟨stack3, popSize, data3⟩ :=
    pop_withStack (.error "Stack Underflow on EXTCODECOPY") evm data2
  refine ⟨stack3, data3, ?_⟩
  unfold opExtcodecopy
  refine (bind_of_next popAccount).trans ?_
  rw [bind_of_next popDest, bind_of_next popOffset, bind_of_next popSize,
    bind_of_next (toUsize_of_near nearDest _), bind_of_next (toUsize_of_near nearOffset _),
    bind_of_next (toUsize_of_near nearSize _), calcCopyGas_of_near nearSize]
  rfl

/-- A copy of code writes the code, and zeros past its end. -/
theorem delivers_opExtcodecopy {account dest offset size : Word} (backs : Backs evm.memory tape)
    (stack : evm.stack.data = account :: dest :: offset :: size :: rest)
    (nearDest : dest.toNat ≤ u64Max) (nearOffset : offset.toNat ≤ u64Max)
    (nearSize : size.toNat ≤ u64Max) (nonempty : 0 < size.toNat)
    (addressable : (evm.state.getCode (accountAddress account)).length ≤ u64Max)
    (reaches : condition → CanReach evm.memory.length evm.gasLeft [(dest.toNat, size.toNat)]
      (accessCost evm (accountAddress account) + wordsFor size.toNat * 3)) :
    opExtcodecopy.Delivers evm condition fun _ after =>
      after.stack.data = rest ∧ Backs after.memory ((tape.touch [(dest.toNat, size.toNat)]).write
        dest.toNat (padded (evm.state.getCode (accountAddress account)) offset.toNat
          size.toNat)) := by
  obtain ⟨below, data, same⟩ := opExtcodecopy_eq stack nearDest nearOffset nearSize
  -- The cost of the access is that of an account that was not marked before.
  have access : accessCost evm (accountAddress account) ≤ 2600 := by
    unfold accessCost
    split <;> decide
  have modest : accessCost evm (accountAddress account) + wordsFor size.toNat * 3 ≤ 2 ^ 62 := by
    unfold wordsFor
    unfold u64Max at nearSize
    omega
  refine Delivers.of_eq same (delivers_growth backs rfl modest reaches fun grown covers => ?_)
  obtain ⟨⟨gas, rfl⟩, backs1, ends⟩ := covers
  have inside := ends _ (List.mem_singleton_self _)
  refine (delivers_copyToMemory backs1 nonempty addressable inside).weaken fun _ after wrote =>
    ⟨?_, wrote.2⟩
  rw [wrote.1]
  exact data

/-- Return data are copied from inside only. -/
theorem delivers_opReturndatacopy {dest offset size : Word} (backs : Backs evm.memory tape)
    (stack : evm.stack.data = dest :: offset :: size :: rest) (nearDest : dest.toNat ≤ u64Max)
    (nearOffset : offset.toNat ≤ u64Max) (nearSize : size.toNat ≤ u64Max)
    (nonempty : 0 < size.toNat) (addressable : evm.returnData.length ≤ u64Max)
    (returned : condition → offset.toNat + size.toNat ≤ evm.returnData.length)
    (reaches : condition → CanReach evm.memory.length evm.gasLeft [(dest.toNat, size.toNat)]
      (wordsFor size.toNat * 3)) :
    (opReturndatacopy host).Delivers evm condition fun _ after =>
      after.stack.data = rest ∧ Backs after.memory ((tape.touch [(dest.toNat, size.toNat)]).write
        dest.toNat (padded evm.returnData offset.toNat size.toNat)) := by
  unfold opReturndatacopy
  refine Delivers.bind (delivers_pop _ stack) fun destWord s1 popped => ?_
  obtain ⟨rfl, stack1, rfl, data1⟩ := popped
  refine Delivers.bind (delivers_pop _ data1) fun offsetWord s2 popped => ?_
  obtain ⟨rfl, stack2, rfl, data2⟩ := popped
  refine Delivers.bind (delivers_pop _ data2) fun sizeWord s3 popped => ?_
  obtain ⟨rfl, stack3, rfl, data3⟩ := popped
  refine Delivers.bind delivers_get fun read s4 same => ?_
  obtain ⟨rfl, rfl⟩ := same
  rw [asUsize_of_near nearDest, asUsize_of_near nearOffset, asUsize_of_near nearSize]
  have kept : (((evm.withStack stack1).withStack stack2).withStack stack3).returnData =
    evm.returnData := rfl
  -- Whether the range ends inside the return data is decided before anything is paid.
  by_cases inData : offsetWord.toNat + sizeWord.toNat ≤ evm.returnData.length
  · have fits : offsetWord.toNat + sizeWord.toNat ≤ u64Max := inData.trans addressable
    simp only [checkedAdd, if_pos fits, kept, if_pos inData]
    refine Delivers.bind (Delivers.under (delivers_chargeCopy nearSize) fun holds =>
      Nat.le_trans (Nat.le_add_right ..) (reaches holds).paid) fun _ s5 charged => ?_
    subst charged
    refine Delivers.bind (delivers_touch host nonempty backs fun holds =>
      (reaches holds).afterCopy) fun _ s6 covers => ?_
    obtain ⟨⟨gas, rfl⟩, backs6, ends⟩ := covers
    have inside := ends _ (List.mem_singleton_self _)
    rw [slice_eq_padded inData]
    refine (delivers_writeMemory backs6 ?_).weaken fun _ after wrote => ⟨?_, wrote.2.1⟩
    · rw [length_padded]
      exact inside
    · rw [wrote.1]
      exact data3
  · -- Past the return data the frame ends with an error.
    have never : ¬ condition := fun holds => inData (returned holds)
    by_cases fits : offsetWord.toNat + sizeWord.toNat ≤ u64Max
    · simp only [checkedAdd, if_pos fits, kept, if_neg inData]
      exact Delivers.exit never
    · simp only [checkedAdd, if_neg fits]
      exact Delivers.exit never

/-- The static cost is part of what the instruction costs in all. -/
theorem MemoryOp.gasTable_le (op : MemoryOp) (evm : Evm) : op.opcode.gasTable ≤ op.baseCost evm := by
  -- Copies within memory and of code have no static cost, and pay for everything themselves.
  cases op with
  | copy source dest offset size =>
    cases source with
    | extcode account => exact Nat.zero_le _
    | _ => exact Nat.le_add_right ..
  | mcopy dest source size => exact Nat.zero_le _
  | _ => exact Nat.le_refl _

/-- Whoever can pay in all can pay for the rest once the static cost is paid. -/
theorem MemoryOp.Funded.reaches {op : MemoryOp} (funded : op.Funded evm) (within : op.Within evm) :
    CanReach evm.memory.length (evm.gasLeft - op.opcode.gasTable) (op.access evm).ranges
      (op.baseCost evm - op.opcode.gasTable) := by
  -- What is left after the static cost covers what is left of the price.
  have static := op.gasTable_le evm
  have paid := funded.paid
  exact ⟨within, by omega⟩

/-- The handler of a memory instruction keeps to the tape. -/
theorem MemoryOp.Waits.delivers_dispatch {op : MemoryOp} (waits : op.Waits rest evm)
    (backs : Backs evm.memory tape) :
    (dispatch host op.opcode).Delivers (evm.begin op.opcode) (op.Funded evm ∧ op.Within evm)
      fun _ after => op.Served evm rest tape after := by
  obtain ⟨_, stack, room, near, nonempty, addressable⟩ := waits
  -- The static cost and the move past the opcode change nothing that the handlers look at.
  have stack0 : (evm.begin op.opcode).stack.data = op.operands ++ rest := stack
  have backs0 : Backs (evm.begin op.opcode).memory tape := backs
  have reaches : op.Funded evm ∧ op.Within evm → CanReach (evm.begin op.opcode).memory.length
      (evm.begin op.opcode).gasLeft (op.access evm).ranges
      (op.baseCost evm - op.opcode.gasTable) := fun holds => holds.1.reaches holds.2
  cases op with
  | mload offset => exact delivers_opMload backs0 stack0 room (near _ (by simp [positions])) reaches
  | mstore offset value =>
    exact delivers_opMstore backs0 stack0 (near _ (by simp [positions])) reaches
  | mstore8 offset value =>
    exact delivers_opMstore8 backs0 stack0 (near _ (by simp [positions])) reaches
  | mcopy dest source size =>
    exact delivers_opMcopy backs0 stack0 (near _ (by simp [positions]))
      (near _ (by simp [positions])) (near _ (by simp [positions]))
      (nonempty (dest.toNat, size.toNat) (by simp [access, Access.ranges])) reaches
  | copy source dest offset size =>
    have nearDest := near dest (by simp [positions])
    have nearOffset := near offset (by simp [positions])
    have nearSize := near size (by simp [positions])
    have fits := addressable source dest offset size rfl
    simp only [access, Access.ranges, length_padded, List.mem_singleton, forall_eq] at nonempty reaches
    -- All four sources come to the same write.
    suffices copied : (dispatch host (copy source dest offset size).opcode).Delivers
        (evm.begin (copy source dest offset size).opcode) _ fun _ after =>
          after.stack.data = rest ∧ Backs after.memory
            ((tape.touch [(dest.toNat, size.toNat)]).write dest.toNat
              (padded (source.bytes evm) offset.toNat size.toNat)) by
      refine copied.weaken fun _ after wrote => ⟨wrote.1, ?_⟩
      simpa only [access, Tape.perform, Access.ranges, length_padded] using wrote.2
    cases source with
    | calldata =>
      exact delivers_copyOpcode backs0 stack0 nearDest nearOffset nearSize nonempty fits
        (fun _ _ _ _ => rfl) fun holds => by simpa [baseCost, opcode, Opcode.gasTable] using reaches holds
    | code =>
      exact delivers_copyOpcode backs0 stack0 nearDest nearOffset nearSize nonempty fits
        (fun _ _ _ _ => rfl) fun holds => by simpa [baseCost, opcode, Opcode.gasTable] using reaches holds
    | extcode account =>
      exact delivers_opExtcodecopy backs0 stack0 nearDest nearOffset nearSize nonempty fits reaches
    | returndata =>
      exact delivers_opReturndatacopy backs0 stack0 nearDest nearOffset nearSize nonempty fits
        (fun holds => holds.1.returned dest offset size rfl)
        fun holds => by simpa [baseCost, opcode, Opcode.gasTable] using reaches holds
  | msize => exact delivers_opMsize backs0 stack0 room

end Handlers

end MiniEvm
