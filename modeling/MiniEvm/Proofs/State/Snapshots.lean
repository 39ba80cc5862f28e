import MiniEvm.Proofs.State.Fork

/-! Nested snapshots: a revert restores the fork, whatever was done and reverted in between. -/

namespace MiniEvm

namespace StateFork

/-- An operation on the modified part of a fork. -/
inductive ForkOp where
  | setStorage (addr : Address) (slot value : Word)
  | setBalance (addr : Address) (balance : Word)
  | setCode (addr : Address) (code : Bytes)
  | setNonce (addr : Address) (nonce : Nat)
  | tstore (addr : Address) (key value : Word)
  | clearTransientStorage
  | snapshot
  | revertToSnapshot (id : Nat)

/-- What an operation makes of a fork. -/
def ForkOp.apply (fork : StateFork) : ForkOp → StateFork
  | setStorage addr slot value => fork.setStorage addr slot value
  | setBalance addr balance => fork.setBalance addr balance
  | setCode addr code => fork.setCode addr code
  | setNonce addr nonce => fork.setNonce addr nonce
  | tstore addr key value => fork.tstore addr key value
  | clearTransientStorage => fork.clearTransientStorage
  | snapshot => fork.snapshot.2
  | revertToSnapshot id => fork.revertToSnapshot id

/-- Operations one after another. -/
def applyAll (fork : StateFork) (ops : List ForkOp) : StateFork := ops.foldl ForkOp.apply fork

section Reverts

variable {fork : StateFork}

/-- The id of an indexed snapshot is found at its position, or nowhere. -/
theorem findIdx?_of_indexed (indexed : fork.SnapshotsIndexed) (id : Nat) :
    fork.snapshots.findIdx? (fun snapshot => snapshot.snapshotId == id) =
      if id < fork.snapshots.length then some id else none := by
  split
  · rename_i live
    have here := indexed id _ (List.getElem?_eq_getElem live)
    refine List.findIdx?_eq_some_iff_getElem.mpr ⟨live, by simp [here], fun position less => ?_⟩
    -- An earlier snapshot carries its own position.
    have other := indexed position _ (List.getElem?_eq_getElem (Nat.lt_trans less live))
    simp only [other, beq_iff_eq]
    omega
  · rename_i dead
    rw [List.findIdx?_eq_none_iff]
    intro snapshot member
    obtain ⟨position, inside, found⟩ := List.getElem_of_mem member
    have there := indexed position snapshot (by rw [List.getElem?_eq_getElem inside, found])
    simp only [there, beq_eq_false_iff_ne]
    omega

/-- So a revert goes back to the snapshot at the position that the id names. -/
theorem SnapshotsIndexed.revertToSnapshot (indexed : fork.SnapshotsIndexed) (id : Nat) :
    fork.revertToSnapshot id = match fork.snapshots[id]? with
      | some snapshot => { fork with
          dirtyState := snapshot.dirtyState
          transientStorage := snapshot.transientStorage
          snapshots := fork.snapshots.take id }
      | none => fork := by
  unfold StateFork.revertToSnapshot
  rw [findIdx?_of_indexed indexed]
  -- An id beyond the stack names none.
  by_cases live : id < fork.snapshots.length
  · simp only [if_pos live, List.getElem?_eq_getElem live]
  · rw [if_neg live, List.getElem?_eq_none (Nat.not_lt.mp live)]

/-- An id that no snapshot carries leaves the fork alone. -/
theorem revertToSnapshot_of_dead {id : Nat}
    (dead : ∀ snapshot ∈ fork.snapshots, snapshot.snapshotId ≠ id) :
    fork.revertToSnapshot id = fork := by
  have nowhere : fork.snapshots.findIdx? (fun snapshot => snapshot.snapshotId == id) = none := by
    rw [List.findIdx?_eq_none_iff]
    intro snapshot member
    simpa using dead snapshot member
  unfold StateFork.revertToSnapshot
  rw [nowhere]

/-- The first snapshots of an indexed fork carry their positions too. -/
theorem SnapshotsIndexed.take (indexed : fork.SnapshotsIndexed) {other : StateFork} {count : Nat}
    (same : other.snapshots = fork.snapshots.take count) : other.SnapshotsIndexed := by
  intro position snapshot found
  rw [same] at found
  rw [List.getElem?_take] at found
  split at found
  · exact indexed position snapshot found
  · cases found

end Reverts

section Runs

/-- What is kept of a fork as long as no snapshot of its own is reverted to. -/
structure Extends (fork after : StateFork) : Prop where
  base : after.baseState = fork.baseState
  indexed : after.SnapshotsIndexed
  snapshots : fork.snapshots <+: after.snapshots

variable {fork after : StateFork}

theorem Extends.refl (indexed : fork.SnapshotsIndexed) : Extends fork fork :=
  ⟨rfl, indexed, List.prefix_rfl⟩

/-- Writes change neither the base nor the snapshots. -/
theorem Extends.of_written {written : StateFork} (holds : Extends fork after)
    (base : written.baseState = after.baseState) (same : written.snapshots = after.snapshots) :
    Extends fork written where
  base := base.trans holds.base
  indexed := holds.indexed.of_snapshots same
  snapshots := same ▸ holds.snapshots

theorem Extends.snapshot (holds : Extends fork after) : Extends fork after.snapshot.2 where
  base := holds.base
  indexed := holds.indexed.snapshot
  snapshots := holds.snapshots.trans (List.prefix_append _ _)

/-- A revert to a later snapshot drops later ones only. -/
theorem Extends.revertToSnapshot (holds : Extends fork after) {id : Nat}
    (later : fork.snapshots.length ≤ id) : Extends fork (after.revertToSnapshot id) := by
  rw [holds.indexed.revertToSnapshot]
  split
  · refine ⟨holds.base, holds.indexed.take rfl, ?_⟩
    exact (List.prefix_take_iff).mpr ⟨holds.snapshots, later⟩
  · exact holds

/-- One operation keeps what is to be kept. -/
theorem Extends.apply (holds : Extends fork after) (op : ForkOp)
    (later : ∀ id, op = .revertToSnapshot id → fork.snapshots.length ≤ id) :
    Extends fork (op.apply after) := by
  cases op with
  | setStorage addr slot value => exact holds.of_written rfl rfl
  | setBalance addr balance => exact holds.of_written rfl rfl
  | setCode addr code => exact holds.of_written rfl rfl
  | setNonce addr nonce => exact holds.of_written rfl rfl
  | tstore addr key value => exact holds.of_written rfl rfl
  | clearTransientStorage => exact holds.of_written rfl rfl
  | snapshot => exact holds.snapshot
  | revertToSnapshot id => exact holds.revertToSnapshot (later id rfl)

/-- And so do any number of them. -/
theorem Extends.applyAll (holds : Extends fork after) (ops : List ForkOp)
    (later : ∀ id, .revertToSnapshot id ∈ ops → fork.snapshots.length ≤ id) :
    Extends fork (after.applyAll ops) := by
  induction ops generalizing after with
  | nil => exact holds
  | cons op rest ih =>
    -- No operation may go back before the snapshot, and the first is one of them.
    have first : Extends fork (op.apply after) := by
      refine holds.apply op fun id isRevert => later id ?_
      rw [isRevert]
      exact List.mem_cons_self
    exact ih first fun id member => later id (List.mem_cons_of_mem _ member)

/-- As long as it is there, a snapshot brings back the fork that it was taken of. -/
theorem revertToSnapshot_of_extends (holds : Extends fork.snapshot.2 after) :
    after.revertToSnapshot fork.snapshot.1 = fork := by
  obtain ⟨base, indexed, more, snapshots⟩ := holds
  have position : fork.snapshot.1 = fork.snapshots.length := rfl
  rw [indexed.revertToSnapshot, ← snapshots, position]
  -- Behind the old snapshots stands the one that was taken, and it holds the rest of the fork.
  simp [StateFork.snapshot, base]

end Runs

/--
Snapshots that carry their positions as ids restore the fork exactly.

Anything may be written in between, and later snapshots may be taken and reverted to.
-/
theorem snapshots_restore (fork : StateFork) (indexed : fork.SnapshotsIndexed) :
    (∀ ops : List ForkOp, (applyAll fork ops).SnapshotsIndexed) ∧
      (∀ ops : List ForkOp, (∀ id, .revertToSnapshot id ∈ ops → fork.snapshot.1 < id) →
        (applyAll fork.snapshot.2 ops).revertToSnapshot fork.snapshot.1 = fork) ∧
      ∀ id, (∀ snapshot ∈ fork.snapshots, snapshot.snapshotId ≠ id) →
        fork.revertToSnapshot id = fork := by
  refine ⟨fun ops => ?_, fun ops later => ?_, fun id dead => revertToSnapshot_of_dead dead⟩
  · -- Over a fork without snapshots every revert is a later one.
    have start : Extends { fork with snapshots := [] } fork := ⟨rfl, indexed, List.nil_prefix⟩
    exact (start.applyAll ops fun _ _ => Nat.zero_le _).indexed
  · apply revertToSnapshot_of_extends
    refine (Extends.refl indexed.snapshot).applyAll ops fun id member => ?_
    have above := later id member
    simp only [StateFork.snapshot, List.length_append, List.length_singleton] at above ⊢
    omega

/-- A write, a nested snapshot that is reverted to, and a write that stays until the end. -/
theorem snapshots_restore_nested :
    (applyAll (snapshot {}).2 [.setBalance 1 5, .snapshot, .tstore 1 2 3, .revertToSnapshot 1,
      .setNonce 1 7]).revertToSnapshot (snapshot {}).1 = {} :=
  (snapshots_restore {} (by intro position snapshot found; cases found)).2.1 _ (by
    intro id member
    simp only [List.mem_cons, reduceCtorEq, ForkOp.revertToSnapshot.injEq, List.not_mem_nil,
      or_false, false_or] at member
    subst member
    decide)

end StateFork

end MiniEvm
