import MiniEvm.Proofs.Vm.Ether
import MiniEvm.Proofs.Vm.Lockstep

/-! Two frames side by side that differ in one nonce: what keeps them in step. -/

namespace MiniEvm

open EvmM Frames Frames.Program

section Forks

/-- Two accounts that agree in everything but a difference between their nonces. -/
structure SameAccount (bump : Nat) (one other : AccountState) : Prop where
  nonce : one.nonce = other.nonce + bump
  balance : one.balance = other.balance
  code : one.code = other.code
  storage : ∀ key, (one.storage.lookup key).getD 0 = (other.storage.lookup key).getD 0

/-- Two forks that agree in everything but the nonce of one account, which is one higher. -/
structure Bumped (sender : Address) (one other : StateFork) : Prop where
  account : ∀ address, SameAccount (if address = sender then 1 else 0) (one.getAccount address)
    (other.getAccount address)
  transient : ∀ address key, one.tload address key = other.tload address key

namespace Bumped

variable {sender : Address} {one other : StateFork}

/-- Code cannot tell such forks apart, since it cannot ask for nonces. -/
theorem sameReads (bumped : Bumped sender one other) : one.SameReads other where
  balance := fun account => (bumped.account account).balance
  code := fun account => (bumped.account account).code
  storage := fun account key => (bumped.account account).storage key
  transient := bumped.transient

/-- The same write to the same account of both keeps them alike. -/
theorem accountForWrite (bumped : Bumped sender one other) (address : Address)
    {write : AccountState → AccountState}
    (same : ∀ bump left right, SameAccount bump left right →
      SameAccount bump (write left) (write right)) :
    Bumped sender (one.accountForWrite address write) (other.accountForWrite address write) where
  account := by
    intro account
    rw [StateFork.getAccount_accountForWrite, StateFork.getAccount_accountForWrite]
    -- The write changes one account in each fork, in the same way.
    by_cases here : account = address
    · rw [if_pos here, if_pos here, here]
      exact same _ _ _ (bumped.account address)
    · rw [if_neg here, if_neg here]
      exact bumped.account account
  transient := bumped.transient

/-- Writing the same slot to both keeps them so. -/
theorem setStorage (bumped : Bumped sender one other) (address : Address) (slot value : Word) :
    Bumped sender (one.setStorage address slot value) (other.setStorage address slot value) := by
  refine bumped.accountForWrite address fun bump left right same => ?_
  refine ⟨same.nonce, same.balance, same.code, fun key => ?_⟩
  by_cases hit : key = slot
  · subst hit
    simp only [AList.lookup_insert]
  · simp only [AList.lookup_insert_ne hit]
    exact same.storage key

/-- Writing the same balance to both keeps them so. -/
theorem setBalance (bumped : Bumped sender one other) (address : Address) (balance : Word) :
    Bumped sender (one.setBalance address balance) (other.setBalance address balance) :=
  bumped.accountForWrite address fun _ _ _ same => ⟨same.nonce, rfl, same.code, same.storage⟩

/-- Writing the same code to both keeps them so. -/
theorem setCode (bumped : Bumped sender one other) (address : Address) (code : Bytes) :
    Bumped sender (one.setCode address code) (other.setCode address code) :=
  bumped.accountForWrite address fun _ _ _ same => ⟨same.nonce, same.balance, rfl, same.storage⟩

/-- A nonce may be set for another account only. -/
theorem setNonce (bumped : Bumped sender one other) {address : Address} (others : address ≠ sender)
    (nonce : Nat) : Bumped sender (one.setNonce address nonce) (other.setNonce address nonce) where
  account := by
    intro account
    have same := bumped.account account
    simp only [StateFork.setNonce, StateFork.getAccount_accountForWrite]
    -- The account that is written is not the bumped one, so both nonces become the same.
    by_cases here : account = address
    · subst here
      rw [if_neg others] at same ⊢
      rw [if_pos rfl, if_pos rfl]
      exact ⟨rfl, same.balance, same.code, same.storage⟩
    · rw [if_neg here, if_neg here]
      exact same
  transient := bumped.transient

/-- Transient storage is common to both. -/
theorem tstore (bumped : Bumped sender one other) (address : Address) (slot value : Word) :
    Bumped sender (one.tstore address slot value) (other.tstore address slot value) where
  account := bumped.account
  transient := by
    intro account key
    simp only [StateFork.tload, StateFork.tstore]
    by_cases hit : (account, key) = (address, slot)
    · rw [hit, AList.lookup_insert, AList.lookup_insert]
    · rw [AList.lookup_insert_ne hit, AList.lookup_insert_ne hit]
      exact bumped.transient account key

/-- A snapshot of each changes nothing for a reader. -/
theorem snapshot (bumped : Bumped sender one other) :
    Bumped sender one.snapshot.2 other.snapshot.2 := ⟨bumped.account, bumped.transient⟩

/-- Another account may be removed from both. -/
theorem erase (bumped : Bumped sender one other) {address : Address} (others : address ≠ sender) :
    Bumped sender
      { one with
        dirtyState := one.dirtyState.erase address, baseState := one.baseState.erase address }
      { other with
        dirtyState := other.dirtyState.erase address
        baseState := other.baseState.erase address } where
  account := by
    intro account
    rw [StateFork.getAccount_erase, StateFork.getAccount_erase]
    -- A removed account reads as an empty one on both sides.
    by_cases here : account = address
    · rw [if_pos here, if_pos here, here, if_neg others]
      exact ⟨rfl, rfl, rfl, fun _ => rfl⟩
    · rw [if_neg here, if_neg here]
      exact bumped.account account
  transient := bumped.transient

/-- Sweeping reads and writes the same balances in both. -/
theorem sweepBalance (bumped : Bumped sender one other) (account beneficiary : Address) :
    Bumped sender (MiniEvm.sweepBalance one account beneficiary)
      (MiniEvm.sweepBalance other account beneficiary) := by
  -- The balances that are moved are read from the forks, where they are equal.
  unfold MiniEvm.sweepBalance
  split
  · exact bumped
  · rw [bumped.sameReads.balance account, bumped.sameReads.balance beneficiary]
    exact (bumped.setBalance _ _).setBalance _ _

/-- Forks that no reader can tell apart may take each other's place. -/
theorem of_sameView (bumped : Bumped sender one other) {one' other' : StateFork}
    (left : one.SameView one') (right : other.SameView other') : Bumped sender one' other' where
  account := by
    intro account
    -- Each part is followed from the first view over both forks to the second.
    have same := bumped.account account
    refine ⟨?_, ?_, ?_, fun key => ?_⟩
    · rw [left.nonce, right.nonce]
      exact same.nonce
    · exact (left.balance account).trans (same.balance.trans (right.balance account).symm)
    · exact (left.code account).trans (same.code.trans (right.code account).symm)
    · exact (left.storage account key).trans
        ((same.storage key).trans (right.storage account key).symm)
  transient := by
    intro account key
    rw [left.transient, right.transient, bumped.transient]

end Bumped

end Forks

/-- Two forks alike but for the bump, with snapshots that can be reverted to. -/
structure Backed (sender : Address) (one other : StateFork) : Prop where
  bumped : Bumped sender one other
  indexed : one.SnapshotsIndexed
  indexed' : other.SnapshotsIndexed

/-- The frame of a mined transaction and that of its simulation, at the same point. -/
structure InStep (sender : Address) (mined simulated : Evm) : Prop where
  common : mined = simulated.over mined.backdrop
  backed : Backed sender mined.state simulated.state

section Handlers

variable {sender : Address} {self : Address × Finset Address} {left right : Backdrop} {α β : Type}
  {granted opens ends : Evm → Evm → Prop}

/-- One frame over two such forks is in step with itself. -/
theorem Backed.inStep (backed : Backed sender left.state right.state) (evm : Evm) :
    InStep sender (evm.over left) (evm.over right) := ⟨rfl, backed⟩

/-- A handler that cannot tell the backdrops apart goes on in step. -/
theorem Lockstep.both {handler : EvmM α} (lockstep : Lockstep self left right handler)
    (backed : Backed sender left.state right.state) {evm : Evm} (own : evm.identity = self) :
    (handler (evm.over left)).Both granted opens ends (InStep sender)
      (fun value one value' other => value = value' ∧ ∃ after : Evm, after.identity = self ∧
        one = after.over left ∧ other = after.over right) (handler (evm.over right)) := by
  -- No frame is opened, so nothing is to be said about nested runs.
  refine (lockstep evm own).of_closed.weaken ?_ ?_
  · rintro one other ⟨after, _, rfl, rfl⟩
    exact backed.inStep after
  · exact fun _ _ _ _ ended => ended

/-- The same, when nothing more is asked of the end. -/
theorem Lockstep.inStep {handler : EvmM α} {evm : Evm}
    (lockstep : Lockstep evm.identity left right handler)
    (backed : Backed sender left.state right.state) :
    (handler (evm.over left)).Both granted opens ends (InStep sender)
      (fun _ one _ other => InStep sender one other) (handler (evm.over right)) := by
  refine (lockstep.both backed rfl).weaken (fun _ _ ended => ended) ?_
  rintro _ one _ other ⟨_, after, _, rfl, rfl⟩
  exact backed.inStep after

/-- Frames in step go on in step through such a handler. -/
theorem InStep.both {handler : EvmM α} {mined simulated : Evm}
    (inStep : InStep sender mined simulated)
    (lockstep : ∀ self left right, Lockstep self left right handler) :
    (handler mined).Both granted opens ends (InStep sender)
      (fun _ one _ other => InStep sender one other) (handler simulated) := by
  -- Frames in step are one frame over their two backdrops.
  have both : (handler (simulated.over mined.backdrop)).Both granted opens ends (InStep sender)
      (fun _ one _ other => InStep sender one other) (handler simulated) :=
    (lockstep simulated.identity mined.backdrop simulated.backdrop).inStep inStep.backed
  rwa [← inStep.common] at both

/-- What follows such a handler starts from one frame over both backdrops. -/
theorem Lockstep.then {first : EvmM α} {rest rest' : α → EvmM β}
    {nexts : β → Evm → β → Evm → Prop} (head : Lockstep self left right first)
    (backed : Backed sender left.state right.state) {evm : Evm} (own : evm.identity = self)
    (tail : ∀ value (mid : Evm), mid.identity = self →
      (rest value (mid.over left)).Both granted opens ends (InStep sender) nexts
        (rest' value (mid.over right))) :
    ((first >>= rest) (evm.over left)).Both granted opens ends (InStep sender) nexts
      ((first >>= rest') (evm.over right)) := by
  refine (head.both backed own).bind ?_
  rintro value one value' other ⟨rfl, mid, own, rfl, rfl⟩
  exact tail value mid own

/-- Reading the frame keeps it in step where the rest uses only what the two have in common. -/
theorem both_get {rest : Evm → EvmM β} {nexts : β → Evm → β → Evm → Prop} {evm : Evm}
    (same : rest (evm.over left) = rest (evm.over right))
    (tail : (rest (evm.over left) (evm.over left)).Both granted opens ends (InStep sender) nexts
      (rest (evm.over left) (evm.over right))) :
    ((get >>= rest) (evm.over left)).Both granted opens ends (InStep sender) nexts
      ((get >>= rest) (evm.over right)) := by
  simp only [bind_apply, get_apply, Tree.bind]
  rwa [← same]

end Handlers

section Writers

variable {sender : Address} {self : Address × Finset Address} {left right : Backdrop}
  {granted opens ends : Evm → Evm → Prop} {evm : Evm}

/-- A store goes to the same slot of both forks, at the same price. -/
theorem both_opSstore (backed : Backed sender left.state right.state)
    (own : evm.identity = self) :
    (opSstore (evm.over left)).Both granted opens ends (InStep sender)
      (fun _ one _ other => InStep sender one other) (opSstore (evm.over right)) := by
  refine lockstep_requireMutable.then backed own fun _ mid own => ?_
  refine (lockstep_pop _).then backed own fun key mid own => ?_
  refine (lockstep_pop _).then backed own fun val mid own => ?_
  refine both_get ?_ ?_
  · -- The price depends on the value in the fork.
    show (do
      markSlotWarm key
      charge ((if left.state.getStorage mid.selfAddress key = val then 100
        else if left.state.getStorage mid.selfAddress key = 0 then 20000 else 2900) +
          if key ∈ mid.accessedSlots then 0 else 2100)
      modify fun evm => { evm with state := evm.state.setStorage evm.selfAddress key val }) = _
    rw [backed.bumped.sameReads.storage]
    rfl
  · refine (lockstep_markSlotWarm key).then backed own fun _ mid own => ?_
    refine (lockstep_charge _).then backed own fun _ mid own => ?_
    -- Both forks get the same value in the same slot, and no snapshot is touched.
    exact ⟨rfl, backed.bumped.setStorage _ _ _, backed.indexed, backed.indexed'⟩

/-- Transient stores stay in step. -/
theorem both_opTstore (backed : Backed sender left.state right.state)
    (own : evm.identity = self) :
    (opTstore (evm.over left)).Both granted opens ends (InStep sender)
      (fun _ one _ other => InStep sender one other) (opTstore (evm.over right)) := by
  refine lockstep_requireMutable.then backed own fun _ mid own => ?_
  refine (lockstep_pop _).then backed own fun key mid own => ?_
  refine (lockstep_pop _).then backed own fun val mid own => ?_
  exact ⟨rfl, backed.bumped.tstore _ _ _, backed.indexed, backed.indexed'⟩

/-- Both forks lose the same account, which must not be that of the sender. -/
theorem inStep_destroyAccount (backed : Backed sender left.state right.state)
    (beneficiary : Address)
    (others : evm.selfAddress ∈ evm.createdInTransaction → evm.selfAddress ≠ sender) :
    InStep sender (destroyAccount (evm.over left) beneficiary)
      (destroyAccount (evm.over right) beneficiary) := by
  have swept := backed.bumped.sweepBalance evm.selfAddress beneficiary
  have indexed : ∀ state : StateFork, state.SnapshotsIndexed →
      (sweepBalance state evm.selfAddress beneficiary).SnapshotsIndexed := by
    intro state indexed
    unfold sweepBalance
    split <;> exact indexed
  -- Either the balance is moved and the account goes, or only the balance is moved.
  by_cases created : evm.selfAddress ∈ evm.createdInTransaction
  · have gone : ∀ back, destroyAccount (evm.over back) beneficiary =
        removeAccount ((evm.over back).over { back with
          state := sweepBalance back.state evm.selfAddress beneficiary }) evm.selfAddress := by
      intro back
      exact if_pos created
    rw [gone, gone]
    exact ⟨rfl, swept.erase (others created), indexed _ backed.indexed, indexed _ backed.indexed'⟩
  · have kept : ∀ back, destroyAccount (evm.over back) beneficiary =
        (evm.over back).over { back with
          state := sweepBalance back.state evm.selfAddress beneficiary } := by
      intro back
      exact if_neg created
    rw [kept, kept]
    exact ⟨rfl, swept, indexed _ backed.indexed, indexed _ backed.indexed'⟩

/-- Self-destructions stay in step, if the sender is not removed. -/
theorem both_opSelfdestruct (backed : Backed sender left.state right.state)
    (others : evm.selfAddress ∈ evm.createdInTransaction → evm.selfAddress ≠ sender) :
    (opSelfdestruct (evm.over left)).Both granted opens ends (InStep sender)
      (fun _ one _ other => InStep sender one other) (opSelfdestruct (evm.over right)) := by
  refine lockstep_requireMutable.then backed rfl fun _ mid own => ?_
  refine (lockstep_pop _).then backed own fun word mid own => ?_
  refine both_get rfl ?_
  refine (lockstep_markAccessed _).then backed own fun _ mid own => ?_
  refine (lockstep_charge _).then backed own fun _ mid own => ?_
  -- Neither the account nor the marks have changed since the opcode started.
  obtain ⟨self, marks⟩ := Prod.mk.inj own
  refine inStep_destroyAccount backed _ ?_
  rw [self, marks]
  exact others

end Writers

end MiniEvm
