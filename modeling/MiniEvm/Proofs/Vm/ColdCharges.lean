import MiniEvm.Frames.Records
import MiniEvm.Proofs.Vm.Accesses
import MiniEvm.Proofs.Vm.Slots

/-! Cold charges over whole runs: every frame finds warm only what it has looked up by itself. -/

namespace MiniEvm

open EvmM Frames Frames.Program

/--
Whether a completed step looked this up.

An opcode that looks something up and does not halt fails its frame.
-/
def looksUp (access : Lookup) (done : Transition Evm ExecutionResult) : Bool :=
  done.result = .halt ∧ done.before.access = some access

/-- Whether a completed step paid the cold price for this. -/
def chargesCold (access : Lookup) (done : Transition Evm ExecutionResult) : Bool :=
  looksUp access done && !done.before.isWarm access

/-- How often this is charged cold, over the steps of all frames. -/
def coldCharges (access : Lookup) (frames : List (Record Evm ExecutionResult)) : Nat :=
  (frames.flatMap Record.steps).countP (chargesCold access)

/-- How many of the frames look this up. -/
def visitors (access : Lookup) (frames : List (Record Evm ExecutionResult)) : Nat :=
  frames.countP fun frame => frame.steps.any (looksUp access)

section Steps

variable {host : Host} {evm after child : Evm} {kept : History Evm ExecutionResult}

/-- A slot is looked up in the account that the frame acts as. -/
theorem account_of_access {account : Address} {key : Word}
    (looked : evm.access = some (.slot account key)) : account = evm.selfAddress := by
  obtain ⟨op, _, looked⟩ := Option.bind_eq_some_iff.mp looked
  unfold Opcode.access at looked
  -- Only two opcodes look up slots.
  split at looked <;> simp at looked <;> exact looked.2.symm

theorem mem_marked_slots (lists : Finset Word × Finset Address) (looked : Option Lookup)
    (key : Word) :
    key ∈ (marked lists looked).1 ↔
      key ∈ lists.1 ∨ ∃ account, looked = some (.slot account key) := by
  rcases looked with _ | (⟨account, other⟩ | ⟨address⟩)
  · simp [marked]
  · simp [marked, or_comm, eq_comm]
  · simp [marked]

theorem mem_marked_addresses (lists : Finset Word × Finset Address) (looked : Option Lookup)
    (address : Address) :
    address ∈ (marked lists looked).2 ↔ address ∈ lists.2 ∨ looked = some (.account address) := by
  rcases looked with _ | (⟨account, key⟩ | ⟨other⟩)
  · simp [marked]
  · simp [marked]
  · simp [marked, or_comm, eq_comm]

/-- After a step its frame finds warm what was warm before, and what the step looked up. -/
theorem isWarm_of_steps (steps : (machine host).Steps evm kept .halt after) (access : Lookup) :
    after.isWarm access = (evm.isWarm access || looksUp access ⟨evm, .halt, after⟩) := by
  have lists := accessed_of_steps steps
  have slots : after.accessedSlots = (marked evm.accessed evm.access).1 := congrArg Prod.fst lists
  have addresses : after.accessedAddresses = (marked evm.accessed evm.access).2 :=
    congrArg Prod.snd lists
  have self := (stepsTo_of_steps steps).sameFrame.selfAddress
  rw [Bool.eq_iff_iff, Bool.or_eq_true]
  simp only [looksUp, decide_eq_true_iff, true_and]
  cases access with
  | account address =>
    simp only [Evm.isWarm, decide_eq_true_iff, addresses]
    exact mem_marked_addresses _ _ address
  | slot account key =>
    simp only [Evm.isWarm, decide_eq_true_iff, self, slots, mem_marked_slots]
    constructor
    · rintro ⟨rfl, listed | ⟨account, looked⟩⟩
      · exact .inl ⟨rfl, listed⟩
      · -- The list does not say whose slot it is, but it can only be one's own.
        rw [← account_of_access looked]
        exact .inr looked
    · rintro (⟨own, listed⟩ | looked)
      · exact ⟨own, .inl listed⟩
      · exact ⟨account_of_access looked, .inr ⟨account, looked⟩⟩

theorem isWarm_of_accessed (blank : evm.accessed = (∅, ∅)) (access : Lookup) :
    evm.isWarm access = false := by
  obtain ⟨slots, addresses⟩ := Prod.mk.inj blank
  cases access <;> simp [Evm.isWarm, slots, addresses]

/-- A frame that is opened finds nothing warm, whatever its opener has looked up. -/
theorem isWarm_of_opens (opens : (machine host).Opens evm kept child) (access : Lookup) :
    (syncLegacyStateIntoFork child).isWarm access = false := by
  apply isWarm_of_accessed
  cases (opened_of_enters opens.2).2 with
  | call _ => rfl
  | create _ => rfl

end Steps

section Runs

variable {host : Host} {start final : Evm} {own : Record Evm ExecutionResult}
  {below : List (Record Evm ExecutionResult)}

/-- Every frame that looks something up is charged cold for it, and that once. -/
theorem coldCharges_eq_visitors (blank : start.accessed = (∅, ∅))
    (records : (machine host).Records start own below final) (access : Lookup) :
    coldCharges access (own :: below) = visitors access (own :: below) := by
  have knows : chargesCold access =
      Machine.usesFirst (looksUp access) fun evm => evm.isWarm access := rfl
  unfold coldCharges visitors
  rw [knows]
  refine records.countP_usesFirst ?_ ?_ ?_ (isWarm_of_accessed blank access)
  · intro done looked
    exact (of_decide_eq_true looked).1
  · exact fun steps => isWarm_of_steps steps access
  · exact fun opens => isWarm_of_opens opens access

/-- The entry points start with nothing on the lists. -/
theorem EntryVm.accessed {initial : StateFork} {vm : Evm} (entry : EntryVm initial vm) :
    (syncLegacyStateIntoFork vm).accessed = (∅, ∅) := by
  cases entry <;> rfl

end Runs

end MiniEvm
