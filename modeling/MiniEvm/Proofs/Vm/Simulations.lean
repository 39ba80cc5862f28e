import MiniEvm.Proofs.Vm.Predictions
import MiniEvm.Proofs.Vm.Removals

/-! What the diff of a simulation does to the state that was simulated on. -/

namespace MiniEvm

open Frames

section Diffs

variable {state : StateFork} {diff : HashMap Address AccountState}
  {entries : List (Sigma fun _ : Address => AccountState)}

theorem getAccount_insertDirty (fork : StateFork) (address : Address) (account : AccountState)
    (other : Address) :
    (insertDirty fork address account).getAccount other =
      if other = address then account else fork.getAccount other := by
  unfold insertDirty StateFork.getAccount
  -- A read looks into the modified accounts first, and one of them was written.
  by_cases here : other = address
  · rw [here, if_pos rfl]
    simp only [AList.lookup_insert]
  · rw [if_neg here]
    simp only [AList.lookup_insert_ne here]

/-- In whatever order the entries come, each account reads as in the diff or else as before. -/
theorem getAccount_insertDiff (perm : entries.Perm diff.entries) (address : Address) :
    (insertDiff state entries).getAccount address = overlay state diff address := by
  -- The entries are a map of their own, in another order.
  have nodup : entries.NodupKeys := (List.perm_nodupKeys perm).mpr diff.nodupKeys
  have same : (AList.mk entries nodup).lookup address = diff.lookup address :=
    AList.perm_lookup perm
  have read := read_foldl_write (fun fork address account other =>
    getAccount_insertDirty fork address account other) ⟨entries, nodup⟩ state address
  rw [same] at read
  exact read

/-- Entering what is there already changes nothing. -/
theorem overlay_self (state : StateFork) (address : Address) :
    overlay state state.dirtyState address = state.getAccount address := by
  unfold overlay StateFork.getAccount
  -- Both reads fall through to the base state for the same addresses.
  cases state.dirtyState.lookup address with
  | none => rfl
  | some account => rfl

end Diffs

section Outcomes

variable {host : Host} {fuel : Nat} {state : StateFork} {caller target : Address} {value : Word}
  {input : Bytes} {gasLimit : Nat} {outcome : SimulationResult}

/-- A simulation that came to an end was turned down, or ran its frame and reported on it. -/
theorem simulateTx_cases
    (simulated : simulateTx host fuel state caller target value input gasLimit = .value outcome) :
    (outcome.success = false ∧ outcome.stateDiff = ∅) ∨
      ∃ result vm, run host fuel (simulationVm state caller target value input gasLimit) =
        .value (result, vm) ∧ outcome = predictionOf state gasLimit result vm := by
  by_cases funded : value ≤ state.getBalance caller
  · rw [simulateTx_of_funded funded] at simulated
    obtain ⟨⟨result, vm⟩, ran, reported⟩ := Outcome.bind_eq_value simulated
    simp only [Outcome.pure_eq, Outcome.value.injEq] at reported
    exact .inr ⟨result, vm, ran, reported.symm⟩
  · -- Turned down for want of ether, it reports an empty diff.
    rw [simulateTx, if_pos (BitVec.not_le.mp funded)] at simulated
    cases simulated
    exact .inl ⟨rfl, rfl⟩

/--
A failed simulation leaves no trace in its diff.

The revert finds the snapshot from before the run, whatever the run did with later ones.
-/
theorem failed_simulation_changes_nothing (host : Host) (fuel : Nat) (state : StateFork)
    (caller target : Address) (value : Word) (input : Bytes) (gasLimit : Nat)
    (outcome : SimulationResult) (indexed : state.SnapshotsIndexed)
    (simulated : simulateTx host fuel state caller target value input gasLimit = .value outcome)
    (failed : outcome.success = false) :
    ∀ entries, entries.Perm outcome.stateDiff.entries → ∀ address,
      (insertDiff state entries).getAccount address = state.getAccount address := by
  intro entries perm address
  rw [getAccount_insertDiff perm]
  rcases simulateTx_cases simulated with ⟨_, nothing⟩ | ⟨result, vm, ran, rfl⟩
  · rw [nothing]
    rfl
  · obtain ⟨history, last, traced, rfl⟩ := run_eq_value ran
    have start : (simulationVm state caller target value input gasLimit).state.SnapshotsIndexed :=
      indexed.snapshot.of_snapshots rfl
    -- Over a state without accounts no removal needs to be looked at.
    have keeps : Keeps {} _ last.state := keeps_of_trace (start.of_snapshots rfl)
      (fun _ _ _ _ _ _ => ⟨rfl, rfl, rfl, fun _ => rfl⟩) traced
    -- What is left after the revert is what was modified before the run.
    have reverted : (last.state.clearTransientStorage.revertToSnapshot
        state.snapshots.length).dirtyState = state.dirtyState :=
      dirtyState_revertToSnapshot (keeps.indexed.of_snapshots rfl) keeps.snapshots
    have notDone : result.isSuccess = false := failed
    simp only [predictionOf, notDone, Bool.false_eq_true, if_false, reverted]
    -- So the diff is that of the state itself.
    exact overlay_self state address

/-- A payer, and an account that stores a value and then reverts. -/
def storingThenReverting : StateFork where
  baseState := ((∅ : HashMap Address AccountState).insert 0x02 { balance := 100 }).insert 0x01
    { code := [0x60, 7, 0x60, 3, 0x55, 0x60, 0, 0x60, 0, 0xfd] }

theorem failed_simulation_changes_nothing_reverting :
    ∃ outcome, simulateTx (tableHost []) 10 storingThenReverting 0x02 0x01 9 [] 100000 =
        .value outcome ∧ outcome.success = false ∧
      ∀ entries, entries.Perm outcome.stateDiff.entries → ∀ address,
        (insertDiff storingThenReverting entries).getAccount address =
          storingThenReverting.getAccount address := by
  have ended : endsWith (simulateTx (tableHost []) 10 storingThenReverting 0x02 0x01 9 [] 100000)
      (fun outcome => !outcome.success) = true := by
    decide +kernel
  obtain ⟨outcome, simulated, failed⟩ := exists_of_endsWith ended
  have failed : outcome.success = false := by simpa using failed
  exact ⟨outcome, simulated, failed, failed_simulation_changes_nothing (tableHost []) 10
    storingThenReverting 0x02 0x01 9 [] 100000 outcome
    (fun _ _ found => by simp [storingThenReverting] at found) simulated failed⟩

/--
The diff of a successful simulation is complete, unless the run removes an account that was there.

Slots are compared as they are read, so one that holds zero counts as absent.
-/
theorem diff_is_complete (host : Host) (fuel : Nat) (state : StateFork) (caller target : Address)
    (value : Word) (input : Bytes) (gasLimit : Nat) (outcome : SimulationResult)
    (indexed : state.SnapshotsIndexed)
    (visible : ∀ history evm, (machine host).Reaches
      (syncLegacyStateIntoFork (simulationVm state caller target value input gasLimit))
        history evm → (machine host).running evm = true → RemovesUnknown state evm)
    (simulated : simulateTx host fuel state caller target value input gasLimit = .value outcome)
    (succeeded : outcome.success = true) :
    ∃ result vm, run host fuel (simulationVm state caller target value input gasLimit) =
        .value (result, vm) ∧ ∀ entries, entries.Perm outcome.stateDiff.entries → ∀ address,
          SameAccount 0 (vm.state.getAccount address)
            ((insertDiff state entries).getAccount address) := by
  rcases simulateTx_cases simulated with ⟨failed, _⟩ | ⟨result, vm, ran, rfl⟩
  · rw [failed] at succeeded
    cases succeeded
  · refine ⟨result, vm, ran, fun entries perm address => ?_⟩
    rw [getAccount_insertDiff perm]
    obtain ⟨history, last, traced, rfl⟩ := run_eq_value ran
    have start : (simulationVm state caller target value input gasLimit).state.SnapshotsIndexed :=
      indexed.snapshot.of_snapshots rfl
    have keeps := keeps_of_trace (start.of_snapshots rfl) visible traced
    -- The two writes of the transfer modify the accounts that they touch.
    have overlays : Overlays state (simulationVm state caller target value input gasLimit).state := by
      have taken : Overlays state state.snapshot.2 := (Overlays.refl state).of_layers rfl rfl
      exact (taken.accountForWrite _ _).accountForWrite _ _
    -- The layers of the last fork are those of the diff over the state it started from.
    have done : result.isSuccess = true := succeeded
    simp only [predictionOf, done, if_true]
    exact (keeps.overlays overlays).overlay address

/-- An account that stores a value, and then creates another account and has it destroyed. -/
def renewing : StateFork where
  baseState := (∅ : HashMap Address AccountState).insert 0x0a
    { code := [0x60, 7, 0x60, 3, 0x55] ++ createAndDestroy }

/-- The account that is removed is one that the run has created. -/
theorem diff_is_complete_storing :
    ∃ outcome history last, simulateTx createEmptyHost 40 renewing 0x01 0x0a 0 [] 1000000 =
        .value outcome ∧ outcome.success = true ∧
      (machine createEmptyHost).trace 40 (syncLegacyStateIntoFork
        (simulationVm renewing 0x01 0x0a 0 [] 1000000)) = .value (history, last) ∧
      removedIn history 0xf6a171f57acac30c292e223ea8adbb28abd3e14d = true ∧
      ∃ result vm, run createEmptyHost 40 (simulationVm renewing 0x01 0x0a 0 [] 1000000) =
          .value (result, vm) ∧ ∀ entries, entries.Perm outcome.stateDiff.entries → ∀ address,
        SameAccount 0 (vm.state.getAccount address)
          ((insertDiff renewing entries).getAccount address) := by
  have ended : endsWith (simulateTx createEmptyHost 40 renewing 0x01 0x0a 0 [] 1000000)
      (fun outcome => outcome.success) = true := by
    decide +kernel
  have removed : endsWith ((machine createEmptyHost).trace 40 (syncLegacyStateIntoFork
      (simulationVm renewing 0x01 0x0a 0 [] 1000000)))
      (fun ended => removedIn ended.1 0xf6a171f57acac30c292e223ea8adbb28abd3e14d) = true := by
    decide +kernel
  have checked : (machine createEmptyHost).visitsOnly (fun _ => removesOnlyNew renewing) 40 []
      (syncLegacyStateIntoFork (simulationVm renewing 0x01 0x0a 0 [] 1000000)) = true := by
    decide +kernel
  obtain ⟨outcome, simulated, succeeded⟩ := exists_of_endsWith ended
  obtain ⟨⟨history, last⟩, traced, removed⟩ := exists_of_endsWith removed
  refine ⟨outcome, history, last, simulated, succeeded, traced, removed, ?_⟩
  refine diff_is_complete createEmptyHost 40 renewing 0x01 0x0a 0 [] 1000000 outcome
    (fun _ _ found => by simp [renewing] at found) ?_ simulated succeeded
  exact fun visited reached reaches running =>
    removesUnknown_of_check (Machine.passes_of_visitsOnly checked reaches running)

/-- An account whose code creates another one and has it destroyed, and ether already there. -/
def endowedBefore : StateFork where
  baseState := ((∅ : HashMap Address AccountState).insert 0x0a { code := createAndDestroy }).insert
    0xf6a171f57acac30c292e223ea8adbb28abd3e14d { balance := 5 }

/--
The diff misses a removal.

The created account had five before, and they are gone in the fork of the run; the diff says nothing
about it, so they are back once it is laid over the state.
-/
theorem diff_misses_removal :
    ∃ outcome result vm,
      simulateTx createEmptyHost 60 endowedBefore 0x01 0x0a 0 [] 1000000 = .value outcome ∧
      outcome.success = true ∧
      run createEmptyHost 60 (simulationVm endowedBefore 0x01 0x0a 0 [] 1000000) =
        .value (result, vm) ∧
      vm.state.getBalance 0xf6a171f57acac30c292e223ea8adbb28abd3e14d = 0 ∧
      (insertDiff endowedBefore outcome.stateDiff.entries).getBalance
        0xf6a171f57acac30c292e223ea8adbb28abd3e14d = 5 := by
  -- The diff still shows the five that the account had before.
  have simulated : endsWith (simulateTx createEmptyHost 60 endowedBefore 0x01 0x0a 0 [] 1000000)
      (fun outcome => outcome.success && (insertDiff endowedBefore
        outcome.stateDiff.entries).getBalance 0xf6a171f57acac30c292e223ea8adbb28abd3e14d == 5) =
          true := by
    decide +kernel
  -- The run itself ends without them.
  have ran : endsWith (run createEmptyHost 60 (simulationVm endowedBefore 0x01 0x0a 0 [] 1000000))
      (fun ended =>
        ended.2.state.getBalance 0xf6a171f57acac30c292e223ea8adbb28abd3e14d == 0) = true := by
    decide +kernel
  obtain ⟨outcome, simulated, found⟩ := exists_of_endsWith simulated
  obtain ⟨⟨result, vm⟩, ran, gone⟩ := exists_of_endsWith ran
  obtain ⟨succeeded, back⟩ := Bool.and_eq_true_iff.mp found
  exact ⟨outcome, result, vm, simulated, succeeded, ran, by simpa using gone, by simpa using back⟩

end Outcomes

end MiniEvm
