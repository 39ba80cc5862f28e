import MiniEvm.Proofs.Vm.Merges

/-! Failed calls are atomic. -/

namespace MiniEvm

open Frames Frames.Program

/-- What an opcode must leave alone to have had no effect. -/
structure Untouched (before after : Evm) : Prop where
  state : after.state = before.state
  logs : after.logs = before.logs
  createdInTransaction : after.createdInTransaction = before.createdInTransaction
  storage : after.storage = before.storage
  balances : after.balances = before.balances
  nonces : after.nonces = before.nonces
  contracts : after.contracts = before.contracts

theorem Quiet.untouched {before after : Evm} (quiet : Quiet before after) :
    Untouched before after := { quiet with }

theorem Untouched.trans {a b c : Evm} (first : Untouched a b) (second : Untouched b c) :
    Untouched a c where
  state := second.state.trans first.state
  logs := second.logs.trans first.logs
  createdInTransaction := second.createdInTransaction.trans first.createdInTransaction
  storage := second.storage.trans first.storage
  balances := second.balances.trans first.balances
  nonces := second.nonces.trans first.nonces
  contracts := second.contracts.trans first.contracts

/-- The opcodes that call another account. -/
def callOpcodes : List Opcode := [.call, .delegatecall, .staticcall]

/--
A failed call is atomic.

Whatever the callee and the frames below it did, the caller's fork, logs, set of accounts and old
maps are exactly what they were when the opcode began.
-/
theorem failed_call_atomic (host : Host) (evm : Evm) (op : Opcode)
    (child : Evm) (survives : ExecutionResult → Evm → Bool)
    (resume : ExecutionResult → Evm → Tree Evm ExecutionResult Fault Unit)
    (fuel : Nat) (ended : ExecutionResult) (final : Evm) (result : ExecutionResult) (after : Evm)
    (indexed : evm.state.SnapshotsIndexed) (decoded : evm.opcode = some op)
    (calls : op ∈ callOpcodes)
    (opens : step host evm = .enter child survives resume)
    (ran : runChild host fuel child = .value (ended, final))
    (failed : ended ≠ .halt ∧ ∀ data, ended ≠ .return_ data)
    (stepped : stepFrame host fuel evm = .value (result, after)) : Untouched evm after := by
  -- Both the step and its child are read as runs of the machine.
  obtain ⟨kept, resolved⟩ := stepFrame_eq_value stepped
  obtain ⟨history, nested⟩ := runChild_eq_value.mp ran
  have unsuccessful : ended.isSuccess = false := by
    cases ended <;> simp_all [ExecutionResult.isSuccess]
  have shape := stepShape host evm
  rw [opens] at resolved shape
  cases shape with
  | leaf _ leaf => exact leaf.elim
  | @call forceStatic delegate setup mid opening =>
    -- The resumed caller is quiet from the merge on, and the merge is a revert.
    simp only [Tree.resolve, nested, Outcome.value_bind] at resolved
    obtain ⟨⟨later, outcome, state⟩, resumed, rest⟩ := Outcome.bind_eq_value resolved
    simp only [Outcome.pure_eq, Outcome.value.injEq, Prod.mk.injEq] at rest
    obtain ⟨_, rfl, rfl⟩ := rest
    have resolves := Tree.resolves_of_resolve (machine host).runsNested_of_nested
      (fun _ => (machine host).runsNested_of_nested) resumed
    have quiet := ((opening.resumes ended final).resolves resolves).2
    -- Nothing has touched the fork since the opcode began, so its snapshot is the first of its id.
    have fresh : mid.state.Fresh := by
      rw [opening.drift.state]
      exact indexed.fresh
    rw [afterCall_of_failure fresh unsuccessful] at quiet
    have start : Untouched evm mid := { opening.drift with nonces := opening.prepared.quiet.nonces }
    exact start.trans { quiet.untouched with }
  | @create value salt initCode mid opening =>
    -- Creations are not calls.
    have same := Option.some.inj (decoded.symm.trans opening.opcode)
    subst same
    cases salt <;> simp [callOpcodes, createOpcode] at calls

/-- Whether a step opens a frame that ends as a test asks for. -/
def calleeEndsWith (host : Host) (fuel : Nat) (evm : Evm)
    (test : ExecutionResult × Evm → Bool) : Bool :=
  match step host evm with
  | .enter child _ _ => endsWith (runChild host fuel child) test
  | _ => false

theorem exists_of_calleeEndsWith {fuel : Nat} {test : ExecutionResult × Evm → Bool}
    (checked : calleeEndsWith host fuel evm test = true) :
    ∃ child survives resume ended final, step host evm = .enter child survives resume ∧
      runChild host fuel child = .value (ended, final) ∧ test (ended, final) = true := by
  unfold calleeEndsWith at checked
  cases opens : step host evm with
  | fault cause => simp [opens] at checked
  | exit outcome state => simp [opens] at checked
  | next value state => simp [opens] at checked
  | enter child survives resume =>
    simp only [opens] at checked
    obtain ⟨⟨ended, final⟩, ran, passed⟩ := exists_of_endsWith checked
    exact ⟨child, survives, resume, ended, final, rfl, ran, passed⟩

/-- A frame about to call an account that stores seven and then meets the invalid opcode. -/
def callToInvalid : Evm :=
  { Evm.newWithGas [0xf1] 100000 with
    stack := ⟨[0xffff, 0x0b, 0, 0, 0, 0, 0], by decide⟩
    state := {
      baseState := (∅ : HashMap Address AccountState).insert 0x0b
        { code := [0x60, 7, 0x60, 3, 0x55, 0xfe] } } }

/-- What the callee has stored by the time that it fails is not there any more for its caller. -/
theorem failed_call_atomic_invalid :
    ∃ child survives resume ended final result after,
      step (tableHost []) callToInvalid = .enter child survives resume ∧
        runChild (tableHost []) 6 child = .value (ended, final) ∧ ended = .invalidOpcode 0xfe ∧
        final.state.getStorage 0x0b 3 = 7 ∧
        stepFrame (tableHost []) 6 callToInvalid = .value (result, after) ∧
        Untouched callToInvalid after := by
  have called : calleeEndsWith (tableHost []) 6 callToInvalid (fun ended =>
      ended.1 = .invalidOpcode 0xfe && ended.2.state.getStorage 0x0b 3 = 7) = true := by
    decide +kernel
  have finished : endsWith (stepFrame (tableHost []) 6 callToInvalid) (fun _ => true) = true := by
    decide +kernel
  obtain ⟨⟨result, after⟩, stepped, _⟩ := exists_of_endsWith finished
  obtain ⟨child, survives, resume, ended, final, opens, ran, noted⟩ :=
    exists_of_calleeEndsWith called
  obtain ⟨invalid, stored⟩ := Bool.and_eq_true_iff.mp noted
  obtain rfl : ended = .invalidOpcode 0xfe := of_decide_eq_true invalid
  refine ⟨child, survives, resume, _, final, result, after, opens, ran, rfl,
    of_decide_eq_true stored, stepped, ?_⟩
  exact failed_call_atomic (tableHost []) callToInvalid .call child survives resume 6 _ final
    result after (fun _ _ found => by simp [callToInvalid] at found) rfl (by decide) opens ran
    ⟨by simp, by simp⟩ stepped

end MiniEvm
