import MiniEvm.Proofs.Vm.ColdCharges

/-! What a step charges cold is a fixed surcharge, on top of its cost where everything is warm. -/

namespace MiniEvm

open EvmM Frames Frames.Program

/-- The opcodes that look something up and open no frame. -/
def Opcode.isLookup : Opcode → Bool
  | sload | sstore | balance | extcodesize | extcodehash | extcodecopy | selfdestruct => true
  | _ => false

/-- What such an opcode costs more where it finds cold what it looks up. -/
def Opcode.coldSurcharge : Opcode → Nat
  | sload => 2000
  | sstore => 2100
  | _ => 2500

/-- The cost of an attempt that has one. -/
def costOf (attempt : Except VmError Nat) : Nat := attempt.toOption.getD 0

/-- The cost of writing a value over another one. -/
def storeCost (current val : Word) : Nat :=
  if current = val then 100 else if current = 0 then 20000 else 2900

/-- What such an opcode costs where everything is warm, by the operands that are on the stack. -/
def Opcode.warmCost (evm : Evm) : Opcode → Nat
  | sload | balance | extcodesize | extcodehash => 100
  | selfdestruct => 5100
  | sstore =>
    match evm.stack.data with
    | key :: val :: _ => storeCost (evm.state.getStorage evm.selfAddress key) val
    | _ => 0
  | extcodecopy =>
    match evm.stack.data with
    | _ :: dest :: _ :: size :: _ =>
      100 + costOf (calcCopyGas size) +
        costOf (memoryExpansionCost evm.memory.length [(dest.toNat, size.toNat)])
    | _ => 0
  | _ => 0

/-- Wherever the handler reaches its end, the cost of its opcode has been paid. -/
def PaysLookup (op : Opcode) (handler : EvmM Unit) : Prop :=
  ∀ evm : Evm, handler.Arrives evm (fun result => result ≠ .halt) fun _ after =>
    ∃ access, op.access evm = some access ∧ evm.gasLeft = after.gasLeft +
      (op.warmCost evm + if evm.isWarm access then 0 else op.coldSurcharge)

section Parts

variable {α : Type} {evm : Evm}

/-- A quiet handler comes to its ends without opening a frame. -/
theorem Calm.arrives {onFault : Fault → Prop} {handler : EvmM α} {post : α → Evm → Prop}
    (calm : Calm onFault evm handler post) :
    handler.Arrives evm (fun result => result ≠ .halt) post := by
  unfold Calm Meets at calm
  unfold Program.Arrives
  -- A quiet tree is a single leaf, so each of its ends is the one that is known.
  cases stands : handler evm with
  | fault cause => trivial
  | exit result after =>
    rw [stands] at calm
    exact calm.2
  | next value after =>
    rw [stands] at calm
    exact calm.2
  | enter child survives resume =>
    rw [stands] at calm
    exact calm.elim

/-- What is left of the gas and the cost make up what there was. -/
theorem arrives_charge (cost : Nat) :
    (charge cost).Arrives evm (fun result => result ≠ .halt) fun _ after =>
      ∃ left, evm.gasLeft = left + cost ∧ after = { evm with gasLeft := left } := by
  have calm : Calm (fun _ => True) evm (charge cost) _ := calm_charge cost
  refine calm.arrives.weaken fun _ after paid => ⟨evm.gasLeft - cost, ?_, paid.2⟩
  exact (Nat.sub_add_cancel paid.1).symm

/-- A sum of prices is taken off as one. -/
theorem arrives_chargeSum (first second third : Nat) :
    (chargeSum first second third).Arrives evm (fun result => result ≠ .halt) fun _ after =>
      ∃ left, evm.gasLeft = left + (first + second + third) ∧
        after = { evm with gasLeft := left } := by
  have calm : Calm (fun _ => True) evm (chargeSum first second third) _ :=
    calm_chargeSum first second third
  -- Being able to pay, the frame is left with the difference.
  refine calm.arrives.weaken fun _ after paid => ⟨_, ?_, paid.2⟩
  exact (Nat.sub_add_cancel paid.1).symm

/-- Pushing is free. -/
theorem arrives_push (value : Word) (overflow : ExecutionResult) [Stops overflow] :
    (push value overflow).Arrives evm (fun result => result ≠ .halt) fun _ after =>
      after.gasLeft = evm.gasLeft := by
  have calm : Calm (fun _ => True) evm (push value overflow) _ := calm_push value overflow
  exact calm.arrives.weaken fun _ after pushed => pushed.2.2

/-- What an attempt came to is its cost. -/
theorem arrives_orVmError (attempt : Except VmError Nat) :
    (orVmError attempt).Arrives evm (fun result => result ≠ .halt) fun value after =>
      costOf attempt = value ∧ after = evm := by
  have calm : Calm (fun _ => True) evm (orVmError attempt) _ := calm_orVmError attempt
  refine calm.arrives.weaken fun value after given => ⟨?_, given.2⟩
  rw [given.1]
  rfl

/-- A word in range is its number. -/
theorem arrives_toUsize (word : Word) :
    (toUsize word).Arrives evm (fun result => result ≠ .halt) fun value after =>
      word.toNat = value ∧ after = evm := by
  have calm : Calm (fun _ => True) evm (toUsize word) _ := calm_toUsize word
  refine calm.arrives.weaken fun value after fits => ⟨?_, fits.2⟩
  have fitted := fits.1
  unfold toU64 at fitted
  split at fitted
  · exact Option.some.inj fitted
  · cases fitted

/-- Reading memory changes nothing. -/
theorem arrives_readMemory (start stop : Nat) :
    (readMemory start stop).Arrives evm (fun result => result ≠ .halt) fun _ after =>
      after = evm := by
  refine Arrives.get_bind ?_
  split
  · exact rfl
  · trivial

/-- Popping again changes no more than the stack either. -/
theorem arrives_pop_below (underflow : ExecutionResult) [Stops underflow] (below : Stack 1024) :
    (pop underflow).Arrives { evm with stack := below } (fun result => result ≠ .halt)
      fun value after =>
        ∃ stack : Stack 1024, below.data = value :: stack.data ∧ after = { evm with stack } :=
  arrives_pop_stack underflow _

/-- A warm account costs a hundred. -/
theorem accessCost_eq (evm : Evm) (address : Address) :
    accessCost evm address = 100 + if evm.isWarm (.account address) then 0 else 2500 := by
  simp only [accessCost, Evm.isWarm, decide_eq_true_eq]
  split <;> rfl

/-- A slot of its own account is warm to a frame if its key is on the list. -/
theorem isWarm_slot (evm : Evm) (key : Word) :
    evm.isWarm (.slot evm.selfAddress key) = decide (key ∈ evm.accessedSlots) := by
  simp [Evm.isWarm]

end Parts

section Handlers

variable {host : Host}

/-- A load of a slot pays by its mark. -/
theorem pays_sload : PaysLookup .sload opSload := by
  intro evm
  refine Arrives.bind (arrives_pop_stack _ evm) fun key mid popped => ?_
  obtain ⟨stack, top, rfl⟩ := popped
  refine Arrives.get_bind ?_
  refine Arrives.bind (Arrives.modify _) fun _ marked marks => ?_
  subst marks
  refine Arrives.bind (arrives_charge _) fun _ charged paid => ?_
  obtain ⟨left, paid, rfl⟩ := paid
  -- The value is pushed after the charge and costs nothing.
  refine (arrives_push _ _).weaken fun _ after kept => ⟨.slot evm.selfAddress key, ?_, ?_⟩
  · simp [Opcode.access, top]
  · have price : (if key ∈ evm.accessedSlots then 100 else 2100) =
        100 + if evm.isWarm (.slot evm.selfAddress key) then 0 else 2000 := by
      simp only [isWarm_slot, decide_eq_true_eq]
      split <;> rfl
    calc evm.gasLeft = left + if key ∈ evm.accessedSlots then 100 else 2100 := paid
      _ = after.gasLeft + _ := by rw [price, kept]; rfl

/-- A store pays for the write, and for the slot by its mark. -/
theorem pays_sstore : PaysLookup .sstore opSstore := by
  intro evm
  refine Arrives.bind (arrives_requireMutable evm) fun _ _ mutable => ?_
  subst mutable
  refine Arrives.bind (arrives_pop_stack _ evm) fun key mid popped => ?_
  obtain ⟨below, top, rfl⟩ := popped
  refine Arrives.bind (arrives_pop_below _ _) fun val mid popped => ?_
  obtain ⟨stack, second, rfl⟩ := popped
  refine Arrives.get_bind ?_
  refine Arrives.bind (Arrives.modify _) fun _ marked marks => ?_
  subst marks
  refine Arrives.bind (arrives_charge _) fun _ charged paid => ?_
  obtain ⟨left, paid, rfl⟩ := paid
  refine (Arrives.modify _).weaken fun _ after stored => ⟨.slot evm.selfAddress key, ?_, ?_⟩
  · simp [Opcode.access, top]
  · subst stored
    -- The base compares with the value in the fork, which only the last step writes to.
    have operands : evm.stack.data = key :: val :: stack.data := by rw [top, second]
    have base : Opcode.sstore.warmCost evm =
        storeCost (evm.state.getStorage evm.selfAddress key) val := by
      simp only [Opcode.warmCost, operands]
    have spent : evm.gasLeft = left +
        (storeCost (evm.state.getStorage evm.selfAddress key) val +
          if key ∈ evm.accessedSlots then 0 else 2100) := paid
    rw [base, isWarm_slot, spent]
    simp only [decide_eq_true_eq]
    rfl

/-- Queries of an account pay by its mark. -/
theorem pays_accountQuery {op : Opcode} (overflow : String) (read : Evm → Address → Word)
    (top : ∀ evm, op.access evm =
      evm.stack.data[0]?.map fun word => .account (accountAddress word))
    (warm : ∀ evm, op.warmCost evm = 100) (cold : op.coldSurcharge = 2500) :
    PaysLookup op (accountQuery overflow read) := by
  intro evm
  refine Arrives.bind (arrives_pop_stack _ evm) fun word mid popped => ?_
  obtain ⟨stack, operand, rfl⟩ := popped
  -- The price is settled before the account is marked.
  have charged : (chargeAccountAccess (accountAddress word)).Arrives { evm with stack }
      (fun result => result ≠ .halt) fun _ after =>
        evm.gasLeft = after.gasLeft + accessCost evm (accountAddress word) := by
    refine Arrives.get_bind ?_
    refine Arrives.bind (Arrives.modify _) fun _ marked marks => ?_
    subst marks
    refine (arrives_charge _).weaken fun _ after paid => ?_
    obtain ⟨left, paid, rfl⟩ := paid
    exact paid
  refine Arrives.bind charged fun _ mid paid => ?_
  refine Arrives.get_bind ?_
  refine (arrives_push _ _).weaken fun _ after kept => ⟨.account (accountAddress word), ?_, ?_⟩
  · simp [top, operand]
  · rw [warm, cold, ← accessCost_eq, kept]
    exact paid

/-- A copy of code pays for the account, the bytes and the memory at once. -/
theorem pays_extcodecopy : PaysLookup .extcodecopy opExtcodecopy := by
  intro evm
  refine Arrives.bind (arrives_pop_stack _ evm) fun word mid popped => ?_
  obtain ⟨below, top, rfl⟩ := popped
  refine Arrives.bind (arrives_pop_below _ _) fun destWord mid popped => ?_
  obtain ⟨third, second, rfl⟩ := popped
  refine Arrives.bind (arrives_pop_below _ _) fun offsetWord mid popped => ?_
  obtain ⟨last, next, rfl⟩ := popped
  refine Arrives.bind (arrives_pop_below _ _) fun sizeWord mid popped => ?_
  obtain ⟨stack, fourth, rfl⟩ := popped
  refine Arrives.bind (arrives_toUsize _) fun dest mid fits => ?_
  obtain ⟨rfl, rfl⟩ := fits
  refine Arrives.bind (arrives_toUsize _) fun offset mid fits => ?_
  obtain ⟨rfl, rfl⟩ := fits
  refine Arrives.bind (arrives_toUsize _) fun size mid fits => ?_
  obtain ⟨rfl, rfl⟩ := fits
  split
  · -- A copy whose cost is out of range runs out of gas.
    exact Stops.ne_halt
  · rename_i copyCost copied
    refine Arrives.get_bind ?_
    refine Arrives.bind (Arrives.modify _) fun _ marked marks => ?_
    subst marks
    refine Arrives.bind (arrives_orVmError _) fun memoryCost mid given => ?_
    obtain ⟨rfl, rfl⟩ := given
    refine Arrives.bind (arrives_chargeSum _ _ _) fun _ charged paid => ?_
    obtain ⟨left, paid, rfl⟩ := paid
    -- What is left is only memory, which does not cost anything any more.
    have free : Program.Keeps (fun result => result ≠ .halt) Evm.gasLeft
        (expandMemoryWithoutCharge [(destWord.toNat, sizeWord.toNat)] >>= fun _ =>
          copyToMemory destWord.toNat sizeWord.toNat
            (byteOrZero (evm.state.getCode (accountAddress word)) offsetWord.toNat)) :=
      (keeps_expandMemory_view (fun _ _ => rfl) _).bind fun _ =>
        keeps_copyToMemory_view (fun _ _ => rfl) _ _ _
    refine (free _).weaken fun _ after kept => ⟨.account (accountAddress word), ?_, ?_⟩
    · simp [Opcode.access, top]
    · have operands : evm.stack.data =
          word :: destWord :: offsetWord :: sizeWord :: stack.data := by
        rw [top, second, next, fourth]
      have base : Opcode.extcodecopy.warmCost evm = 100 + copyCost +
          costOf (memoryExpansionCost evm.memory.length [(destWord.toNat, sizeWord.toNat)]) := by
        simp only [Opcode.warmCost, operands, copied]
        rfl
      have price := accessCost_eq evm (accountAddress word)
      have spent : evm.gasLeft = left + (accessCost evm (accountAddress word) + copyCost +
          costOf (memoryExpansionCost evm.memory.length [(destWord.toNat, sizeWord.toNat)])) :=
        paid
      have kept : after.gasLeft = left := kept
      have cold : Opcode.extcodecopy.coldSurcharge = 2500 := rfl
      rw [base, cold]
      omega

/-- What is swept or removed takes no gas. -/
theorem gasLeft_destroyAccount (evm : Evm) (beneficiary : Address) :
    (destroyAccount evm beneficiary).gasLeft = evm.gasLeft := by
  simp only [destroyAccount]
  split <;> rfl

/-- A self-destruction pays by the mark of its beneficiary. -/
theorem pays_selfdestruct : PaysLookup .selfdestruct opSelfdestruct := by
  intro evm
  refine Arrives.bind (arrives_requireMutable evm) fun _ _ mutable => ?_
  subst mutable
  refine Arrives.bind (arrives_pop_stack _ evm) fun word mid popped => ?_
  obtain ⟨stack, top, rfl⟩ := popped
  refine Arrives.get_bind ?_
  -- The beneficiary is marked first, but its price goes by the frame before that.
  refine Arrives.bind (Arrives.modify _) fun _ marked marks => ?_
  subst marks
  refine Arrives.bind (arrives_charge _) fun _ charged paid => ?_
  obtain ⟨left, paid, rfl⟩ := paid
  refine (Arrives.modify _).weaken fun _ after gone => ⟨.account (accountAddress word), ?_, ?_⟩
  · simp [Opcode.access, top]
  · have price := accessCost_eq evm (accountAddress word)
    have spent : evm.gasLeft = left + (5000 + accessCost evm (accountAddress word)) := paid
    have kept : after.gasLeft = left := by rw [gone, gasLeft_destroyAccount]
    show _ = _ + (5100 + if evm.isWarm (.account (accountAddress word)) then 0 else 2500)
    omega

/-- Every lookup that opens no frame costs what it costs where it is warm, and the surcharge. -/
theorem pays_dispatch (host : Host) {op : Opcode} (lookup : op.isLookup = true) :
    PaysLookup op (dispatch host op) := by
  -- Queries of an account share one proof, and only a call opens a frame.
  cases op with
  | sload => exact pays_sload
  | sstore => exact pays_sstore
  | balance => exact pays_accountQuery _ _ (fun _ => rfl) (fun _ => rfl) rfl
  | extcodesize =>
    show PaysLookup .extcodesize opExtcodesize
    unfold opExtcodesize
    exact pays_accountQuery _ _ (fun _ => rfl) (fun _ => rfl) rfl
  | extcodehash =>
    show PaysLookup .extcodehash (opExtcodehash host)
    unfold opExtcodehash
    exact pays_accountQuery _ _ (fun _ => rfl) (fun _ => rfl) rfl
  | extcodecopy => exact pays_extcodecopy
  | selfdestruct => exact pays_selfdestruct
  | _ => cases lookup

/-- The base cost of a call to an account that is warm. -/
def callWarmCost (evm : Evm) (forceStatic : Bool) (target : Address) (value : Word)
    (ranges : List (Nat × Nat)) : Nat :=
  let kindCost :=
    if forceStatic then 140
    else 800 + if value > 0 then 9000 + if target ∈ evm.contracts then 0 else 25000 else 0
  kindCost + costOf (memoryExpansionCost evm.memory.length ranges)

/-- The base cost of a call has the surcharge in it if its target is cold. -/
theorem arrives_calcCallBaseGas_cost (target : Address) (value : Word)
    (argsOffset argsSize retOffset retSize : Nat) (evm : Evm) :
    (calcCallBaseGas target value argsOffset argsSize retOffset retSize).Arrives evm
      (fun result => result ≠ .halt) fun cost after =>
        (cost = callWarmCost evm false target value [(argsOffset, argsSize), (retOffset, retSize)] +
          if evm.isWarm (.account target) then 0 else 2500) ∧ after.gasLeft = evm.gasLeft := by
  refine Arrives.get_bind ?_
  refine Arrives.bind (arrives_orVmError _) fun memoryCost mid given => ?_
  obtain ⟨rfl, rfl⟩ := given
  refine Arrives.bind (Arrives.modify _) fun _ marked marks => ?_
  have price := accessCost_eq mid target
  simp only
  -- The sum of the costs is given back, if it is in range.
  split
  · rename_i cost sum
    obtain ⟨total, _⟩ := checkedAdd_eq_some sum
    refine ⟨?_, by rw [marks]⟩
    simp only [callWarmCost, Bool.false_eq_true, if_false]
    omega
  · exact Stops.ne_halt

/-- The surcharge is part of the base cost, which is charged before a call opens anything. -/
theorem arrives_callBaseGas_cost (forceStatic : Bool) (target : Address) (value : Word)
    (argsOffset argsSize retOffset retSize : Nat) (evm : Evm) :
    (callBaseGas forceStatic target value argsOffset argsSize retOffset retSize).Arrives evm
      (fun result => result ≠ .halt) fun cost after =>
        (cost = callWarmCost evm forceStatic target value
            [(argsOffset, argsSize), (retOffset, retSize)] +
          if evm.isWarm (.account target) then 0 else 2500) ∧ after.gasLeft = evm.gasLeft := by
  unfold callBaseGas
  cases forceStatic with
  | false => exact arrives_calcCallBaseGas_cost _ _ _ _ _ _ _
  | true =>
    refine Arrives.bind (arrives_calcCallBaseGas_cost target 0 _ _ _ _ _) fun normal mid cost => ?_
    split
    · -- A static call hands over no value, and is let off the rest of the base.
      have free : ¬ (0 : Word) > 0 := by decide
      refine ⟨?_, cost.2⟩
      replace cost := cost.1
      simp only [callWarmCost, Bool.false_eq_true, if_false, if_true, free] at cost ⊢
      omega
    · exact Stops.ne_halt

/-- The value operand, where there is one, comes off the stack. -/
theorem arrives_popCallValue (forceStatic delegate : Bool) (evm : Evm) (below : Stack 1024) :
    (popCallValue forceStatic delegate).Arrives { evm with stack := below }
      (fun result => result ≠ .halt) fun _ after =>
        ∃ stack : Stack 1024, after = { evm with stack } := by
  unfold popCallValue
  -- DELEGATECALL and STATICCALL have no value on the stack.
  split
  · exact ⟨below, rfl⟩
  · refine (arrives_pop_below _ below).weaken fun _ after popped => ?_
    obtain ⟨stack, _, same⟩ := popped
    exact ⟨stack, same⟩

/-- What a call has paid for its target before it opens anything, beside the gas it sets aside. -/
structure PaidCall (evm : Evm) (forceStatic delegate : Bool) (setup : CallSetup) (mid : Evm) :
    Prop where
  access : (callOpcode forceStatic delegate).access evm = some (.account setup.frame.target)
  gas : ∃ args, evm.gasLeft = mid.gasLeft + setup.frame.gasLimit +
    (callWarmCost evm forceStatic setup.frame.target setup.frame.value
        [args, (setup.retOffset, setup.retSize)] +
      if evm.isWarm (.account setup.frame.target) then 0 else 2500)

/-- A prepared call has paid its base cost, and set aside the gas of its callee. -/
theorem arrives_prepareCall_cost (forceStatic delegate : Bool) (evm : Evm) :
    (prepareCall forceStatic delegate).Arrives evm (fun result => result ≠ .halt)
      (PaidCall evm forceStatic delegate) := by
  refine Arrives.bind (arrives_pop_stack _ evm) fun gasWord mid popped => ?_
  obtain ⟨s1, top, rfl⟩ := popped
  refine Arrives.bind (arrives_pop_below _ _) fun address mid popped => ?_
  obtain ⟨s2, second, rfl⟩ := popped
  have target : (callOpcode forceStatic delegate).access evm =
      some (.account (accountAddress address)) := by
    have operand : evm.stack.data[1]? = some address := by
      rw [top, second]
      rfl
    cases forceStatic <;> cases delegate <;> simp [callOpcode, Opcode.access, operand]
  -- The other operands change nothing but the stack, and so nothing that the price depends on.
  refine Arrives.bind (arrives_popCallValue _ _ _ _) fun value mid popped => ?_
  obtain ⟨s3, rfl⟩ := popped
  refine Arrives.bind (arrives_pop_below _ _) fun argsOffset mid popped => ?_
  obtain ⟨s4, _, rfl⟩ := popped
  refine Arrives.bind (arrives_pop_below _ _) fun argsSize mid popped => ?_
  obtain ⟨s5, _, rfl⟩ := popped
  refine Arrives.bind (arrives_pop_below _ _) fun retOffset mid popped => ?_
  obtain ⟨s6, _, rfl⟩ := popped
  refine Arrives.bind (arrives_pop_below _ _) fun retSize mid popped => ?_
  obtain ⟨s7, _, rfl⟩ := popped
  refine Arrives.bind (arrives_toUsize _) fun argsOffset mid fits => ?_
  obtain ⟨rfl, rfl⟩ := fits
  refine Arrives.bind (arrives_toUsize _) fun argsSize mid fits => ?_
  obtain ⟨rfl, rfl⟩ := fits
  refine Arrives.bind (arrives_toUsize _) fun retOffset mid fits => ?_
  obtain ⟨rfl, rfl⟩ := fits
  refine Arrives.bind (arrives_toUsize _) fun retSize mid fits => ?_
  obtain ⟨rfl, rfl⟩ := fits
  refine Arrives.bind (arrives_callBaseGas_cost _ _ _ _ _ _ _ _) fun baseGas mid priced => ?_
  obtain ⟨rfl, same⟩ := priced
  refine Arrives.bind (arrives_charge _) fun _ charged paid => ?_
  obtain ⟨left, paid, rfl⟩ := paid
  have spent : evm.gasLeft = left + _ := same.symm.trans paid
  -- Memory was part of that price, and the gas that is set aside is taken from the rest.
  have free : Program.Keeps (fun result => result ≠ .halt) Evm.gasLeft
      (expandMemoryWithoutCharge [(argsOffset.toNat, argsSize.toNat),
        (retOffset.toNat, retSize.toNat)]) :=
    keeps_expandMemory_view (fun _ _ => rfl) _
  refine Arrives.bind (free _) fun _ grown kept => ?_
  refine Arrives.bind (arrives_readMemory _ _) fun input read same => ?_
  obtain rfl := same.symm
  refine Arrives.get_bind ?_
  refine Arrives.bind (Arrives.modify _) fun _ handed gas => ?_
  subst gas
  have share := calcEip150CallGas_le grown.gasLeft gasWord
  have kept : grown.gasLeft = left := kept
  refine ⟨target, (argsOffset.toNat, argsSize.toNat), ?_⟩
  have whole : grown.gasLeft - calcEip150CallGas grown.gasLeft gasWord +
      calcEip150CallGas grown.gasLeft gasWord = left := by omega
  show evm.gasLeft = grown.gasLeft - calcEip150CallGas grown.gasLeft gasWord +
    calcEip150CallGas grown.gasLeft gasWord + _
  rw [whole]
  exact spent

end Handlers

section Steps

variable {host : Host} {evm after : Evm} {kept : History Evm ExecutionResult} {op : Opcode}

/-- A completed step takes the surcharge off the gas exactly if it is charged cold. -/
theorem gasLeft_of_lookup (lookup : op.isLookup = true) (decoded : evm.opcode = some op)
    (steps : (machine host).Steps evm kept .halt after) :
    ∃ access, evm.access = some access ∧ evm.gasLeft = after.gasLeft + (op.warmCost evm +
      if chargesCold access ⟨evm, .halt, after⟩ then op.coldSurcharge else 0) := by
  have resolved : (step host evm).Resolves .halt (machine host).RunsNested kept .halt after :=
    steps.2
  -- None of these opcodes has a static cost.
  have free : op.gasTable = 0 := by
    cases op <;> first | rfl | cases lookup
  rw [step_apply decoded, if_neg (by omega)] at resolved
  rcases (pays_dispatch host lookup (evm.begin op)).resolves resolved with
    stopped | ⟨access, looked, paid⟩
  · exact absurd rfl stopped
  · have looks : evm.access = some access := by
      rw [Evm.access, decoded]
      exact looked
    have begun : (evm.begin op).gasLeft = evm.gasLeft := by
      show evm.gasLeft - op.gasTable = evm.gasLeft
      omega
    have warm : op.warmCost (evm.begin op) = op.warmCost evm := by
      cases op <;> rfl
    have cold : chargesCold access ⟨evm, .halt, after⟩ = !evm.isWarm access := by
      simp [chargesCold, looksUp, looks]
    refine ⟨access, looks, ?_⟩
    -- The handler starts from the frame with its counter advanced, which has the same lists.
    rw [← begun, paid, warm, cold]
    have same : (evm.begin op).isWarm access = evm.isWarm access := by
      cases access <;> rfl
    rw [same]
    cases evm.isWarm access <;> rfl

/-- A quiet handler whose opcode goes on has come to its end. -/
theorem next_of_resolves {α : Type} {onFault : Fault → Prop} {first : EvmM α}
    {rest : α → EvmM Unit} {post : α → Evm → Prop} {nested : Evm → History Evm ExecutionResult →
      ExecutionResult → Evm → Prop} (calm : Calm onFault evm first post)
    (resolved : ((first >>= rest) evm).Resolves .halt nested kept .halt after) :
    ∃ value mid, first evm = .next value mid := by
  unfold Calm Meets at calm
  change ((first evm).bind rest).Resolves _ _ _ _ _ at resolved
  -- Every other end of the handler is one that the opcode would have ended with.
  cases stands : first evm with
  | fault cause =>
    rw [stands] at resolved
    exact resolved.elim
  | exit result state =>
    rw [stands] at calm resolved
    exact absurd resolved.2.1.symm calm.2
  | next value mid => exact ⟨value, mid, rfl⟩
  | enter child survives resume =>
    rw [stands] at calm
    exact calm.elim

/-- A call that its frame survives has paid for its target before anything else. -/
theorem paidCall_of_steps {forceStatic delegate : Bool}
    (single : (forceStatic && delegate) = false)
    (decoded : evm.opcode = some (callOpcode forceStatic delegate))
    (steps : (machine host).Steps evm kept .halt after) :
    ∃ setup mid, prepareCall forceStatic delegate (evm.begin (callOpcode forceStatic delegate)) =
        .next setup mid ∧
      PaidCall (evm.begin (callOpcode forceStatic delegate)) forceStatic delegate setup mid := by
  have resolved : (step host evm).Resolves .halt (machine host).RunsNested kept .halt after :=
    steps.2
  have free : (callOpcode forceStatic delegate).gasTable = 0 := by
    cases forceStatic <;> cases delegate <;> rfl
  rw [step_apply decoded, if_neg (by omega)] at resolved
  -- The opcode itself is free, so that its price is that of the preparation.
  have calls : ((prepareCall forceStatic delegate >>= fun setup =>
      if isPrecompile setup.frame.target then callPrecompile host setup
      else callContract host delegate setup)
        (evm.begin (callOpcode forceStatic delegate))).Resolves .halt
          (machine host).RunsNested kept .halt after := by
    cases forceStatic <;> cases delegate <;> first | exact resolved | cases single
  have calm : Calm (CheckedOverflow host) (evm.begin (callOpcode forceStatic delegate))
      (prepareCall forceStatic delegate) fun setup after =>
        Prepared (evm.begin (callOpcode forceStatic delegate)) forceStatic setup after :=
    calm_prepareCall _ _
  -- A frame that goes on has come through the preparation without a failure.
  obtain ⟨setup, mid, prepared⟩ := next_of_resolves calm calls
  have paid := arrives_prepareCall_cost forceStatic delegate
    (evm.begin (callOpcode forceStatic delegate))
  unfold Program.Arrives at paid
  rw [prepared] at paid
  exact ⟨setup, mid, prepared, paid⟩

/--
A step took the surcharge off the gas exactly if it counts as charged cold.

A call has it in its base cost, which is paid before gas is handed over and given back.
-/
inductive PaysSurcharge (access : Lookup) (done : Transition Evm ExecutionResult) : Prop
  | atOnce {op : Opcode} : done.before.opcode = some op → op.isLookup = true →
      done.before.gasLeft = done.after.gasLeft + (op.warmCost done.before +
        if chargesCold access done then op.coldSurcharge else 0) → PaysSurcharge access done
  | beforeCall {forceStatic delegate setup mid args} :
      done.before.opcode = some (callOpcode forceStatic delegate) →
      prepareCall forceStatic delegate (done.before.begin (callOpcode forceStatic delegate)) =
        .next setup mid →
      done.before.gasLeft = mid.gasLeft + setup.frame.gasLimit +
        (callWarmCost done.before forceStatic setup.frame.target setup.frame.value
            [args, (setup.retOffset, setup.retSize)] +
          if chargesCold access done then 2500 else 0) → PaysSurcharge access done

/-- The opcodes that look something up are the plain lookups and the calls. -/
theorem isLookup_or_call {access : Lookup} (looked : op.access evm = some access) :
    op.isLookup = true ∨ ∃ forceStatic delegate, (forceStatic && delegate) = false ∧
      op = callOpcode forceStatic delegate := by
  cases op with
  | call => exact .inr ⟨false, false, rfl, rfl⟩
  | delegatecall => exact .inr ⟨false, true, rfl, rfl⟩
  | staticcall => exact .inr ⟨true, false, rfl, rfl⟩
  | sload | sstore | balance | extcodesize | extcodehash | extcodecopy | selfdestruct =>
    exact .inl rfl
  | _ => cases looked

/-- Every completed step that looks something up has paid as its count says. -/
theorem paysSurcharge_of_looksUp {access : Lookup} {done : Transition Evm ExecutionResult}
    (looks : looksUp access done = true)
    (steps : (machine host).Steps done.before kept done.result done.after) :
    PaysSurcharge access done := by
  obtain ⟨before, result, after⟩ := done
  obtain ⟨halted, looked⟩ := of_decide_eq_true looks
  obtain rfl : result = .halt := halted
  obtain ⟨op, decoded, looked'⟩ := Option.bind_eq_some_iff.mp looked
  rcases isLookup_or_call looked' with lookup | ⟨forceStatic, delegate, single, rfl⟩
  · obtain ⟨other, found, paid⟩ := gasLeft_of_lookup lookup decoded steps
    -- A step looks up one thing only.
    obtain rfl : other = access := Option.some.inj (found.symm.trans looked)
    exact .atOnce decoded lookup paid
  · obtain ⟨setup, mid, prepared, paid⟩ := paidCall_of_steps single decoded steps
    obtain ⟨args, gas⟩ := paid.gas
    have same : access = .account setup.frame.target := by
      have target : (callOpcode forceStatic delegate).access before =
          some (.account setup.frame.target) := by
        have target := paid.access
        cases forceStatic <;> cases delegate <;> exact target
      exact Option.some.inj (looked'.symm.trans target)
    subst same
    -- The call is counted as cold by the lists of the frame before the step.
    have cold : chargesCold (.account setup.frame.target) ⟨before, .halt, after⟩ =
        !before.isWarm (.account setup.frame.target) := by
      rw [chargesCold, looks, Bool.true_and]
    -- The opcode itself is free, and fetching it marks nothing.
    have begun : (before.begin (callOpcode forceStatic delegate)).gasLeft = before.gasLeft := by
      cases forceStatic <;> cases delegate <;> exact Nat.sub_zero _
    have warm : (before.begin (callOpcode forceStatic delegate)).isWarm
        (.account setup.frame.target) = before.isWarm (.account setup.frame.target) := rfl
    have spent : before.gasLeft = mid.gasLeft + setup.frame.gasLimit +
        (callWarmCost before forceStatic setup.frame.target setup.frame.value
            [args, (setup.retOffset, setup.retSize)] +
          if chargesCold (.account setup.frame.target) ⟨before, .halt, after⟩ then 2500 else 0) := by
      rw [← begun, gas, cold, warm]
      cases before.isWarm (.account setup.frame.target) <;> rfl
    exact .beforeCall decoded prepared spent

end Steps

section Runs

/--
The cold price is charged once exactly for what no two frames look up.

Every finished run has the records of its frames, and whatever these are, something is charged cold
at most once over all of them just if at most one of them looks it up.
Each completed step that looks something up took the surcharge off the gas just if it is counted.
-/
theorem cold_charged_once_iff (host : Host) (start : Evm) (blank : start.accessed = (∅, ∅)) :
    (∀ history result final, (machine host).Runs start history result final →
      ∃ own below, (machine host).Records start own below final ∧ own.result = result) ∧
    ∀ own below final, (machine host).Records start own below final → ∀ access,
      (coldCharges access (own :: below) ≤ 1 ↔ visitors access (own :: below) ≤ 1) ∧
      ∀ done ∈ (own :: below).flatMap Record.steps, looksUp access done = true →
        PaysSurcharge access done := by
  constructor
  · exact fun _ _ _ ran => ran.records
  · -- Each record belongs to a step of its frame, and that step pays for what it looks up.
    intro own below final records access
    refine ⟨by rw [coldCharges_eq_visitors blank records], fun done member looks => ?_⟩
    obtain ⟨kept, steps⟩ := records.steps_of_mem member
    exact paysSurcharge_of_looksUp looks steps

/-- An account that calls another one twice, and the code of that one reads its first slot. -/
def readsTwice : StateFork where
  baseState := ((∅ : HashMap Address AccountState).insert 0x0a
    { code := [0x60, 0, 0x60, 0, 0x60, 0, 0x60, 0, 0x60, 0, 0x60, 0x0b, 0x61, 0xff, 0xff, 0xf1,
        0x60, 0, 0x60, 0, 0x60, 0, 0x60, 0, 0x60, 0, 0x60, 0x0b, 0x61, 0xff, 0xff, 0xf1] }).insert
    0x0b { code := [0x60, 0, 0x54] }

/-- The frame in which a simulation calls that account. -/
def readsTwiceVm : Evm :=
  syncLegacyStateIntoFork (simulationVm readsTwice 0x01 0x0a 0 [] 1000000)

/-- What the steps that charge something cold take off the gas. -/
def coldGas (access : Lookup) (frames : List (Record Evm ExecutionResult)) : List Nat :=
  ((frames.flatMap Record.steps).filter (chargesCold access)).map fun done =>
    done.before.gasLeft - done.after.gasLeft

/-- There are as many cold charges as amounts that they took. -/
theorem coldCharges_eq_length (access : Lookup) (frames : List (Record Evm ExecutionResult)) :
    coldCharges access frames = (coldGas access frames).length := by
  rw [coldCharges, coldGas, List.length_map, List.countP_eq_length_filter]

/-- Two calls without a failure, in each of which the slot costs the full price. -/
theorem records_readsTwice :
    ∃ own below final, (machine (tableHost [])).Records readsTwiceVm own below final ∧
      (∀ frame ∈ own :: below, frame.result.isSuccess = true) ∧
      coldGas (.slot 0x0b 0) (own :: below) = [2100, 2100] := by
  -- Each callee starts without marks, whatever was looked up before it.
  have ended : endsWith ((machine (tableHost [])).log 30 readsTwiceVm) (fun ended =>
      (∀ frame ∈ ended.1 :: ended.2.1, frame.result.isSuccess = true) ∧
        coldGas (.slot 0x0b 0) (ended.1 :: ended.2.1) = [2100, 2100]) = true := by
    decide +kernel
  obtain ⟨⟨own, below, final⟩, logged, noted⟩ := exists_of_endsWith ended
  exact ⟨own, below, final, Machine.records_of_log logged, of_decide_eq_true noted⟩

theorem cold_charged_once_iff_readsTwice :
    ∃ own below final, (machine (tableHost [])).Records readsTwiceVm own below final ∧
      (coldCharges (.slot 0x0b 0) (own :: below) ≤ 1 ↔
        visitors (.slot 0x0b 0) (own :: below) ≤ 1) ∧
      ∀ done ∈ (own :: below).flatMap Record.steps, looksUp (.slot 0x0b 0) done = true →
        PaysSurcharge (.slot 0x0b 0) done := by
  obtain ⟨own, below, final, records, _⟩ := records_readsTwice
  have entry : EntryVm readsTwice (simulationVm readsTwice 0x01 0x0a 0 [] 1000000) :=
    .simulation 0x01 0x0a 0 [] 1000000
  have blank : readsTwiceVm.accessed = (∅, ∅) := entry.accessed
  obtain ⟨once, paid⟩ :=
    (cold_charged_once_iff (tableHost []) readsTwiceVm blank).2 own below final records
      (.slot 0x0b 0)
  exact ⟨own, below, final, records, once, paid⟩

/-- No frame fails, and the slot is paid for as cold in both calls. -/
theorem slot_charged_cold_twice :
    ∃ own below final, (machine (tableHost [])).Records readsTwiceVm own below final ∧
      (∀ frame ∈ own :: below, frame.result.isSuccess = true) ∧
      coldGas (.slot 0x0b 0) (own :: below) = [2100, 2100] ∧
      ¬ coldCharges (.slot 0x0b 0) (own :: below) ≤ 1 := by
  obtain ⟨own, below, final, records, successes, gas⟩ := records_readsTwice
  refine ⟨own, below, final, records, successes, gas, ?_⟩
  rw [coldCharges_eq_length, gas]
  decide

end Runs

end MiniEvm
