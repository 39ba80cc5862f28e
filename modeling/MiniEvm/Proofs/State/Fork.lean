import MiniEvm.State.Fork

/-! Laws of the forked state: what a write changes to the reader, and what a revert restores. -/

namespace MiniEvm

namespace StateFork

variable (fork : StateFork) (addr other : Address)

/-- A write to one account is seen at that account only. -/
theorem getAccount_accountForWrite (write : AccountState → AccountState) :
    (fork.accountForWrite addr write).getAccount other =
      if other = addr then write (fork.getAccount addr) else fork.getAccount other := by
  -- The write starts from the account that a reader would have seen.
  unfold accountForWrite getAccount
  by_cases same : other = addr
  · subst same
    simp
  · simp [same, AList.lookup_insert_ne same]

/-- A write keeps every field that it does not write. -/
theorem getAccount_accountForWrite_field {α : Type} {write : AccountState → AccountState}
    (field : AccountState → α) (kept : ∀ account, field (write account) = field account) :
    field ((fork.accountForWrite addr write).getAccount other) = field (fork.getAccount other) := by
  rw [getAccount_accountForWrite]
  -- Only the written account could differ in it.
  split
  · rename_i same
    rw [kept, same]
  · rfl

/-- The fork without one account, in both of its layers. -/
theorem getAccount_erase :
    ({ fork with
      dirtyState := fork.dirtyState.erase addr
      baseState := fork.baseState.erase addr } : StateFork).getAccount other =
      if other = addr then {} else fork.getAccount other := by
  -- A reader of the erased account falls through both layers to the empty one.
  unfold getAccount
  by_cases same : other = addr
  · subst same
    simp
  · simp [same, AList.lookup_erase_ne same]

section Slots

variable (slot key value : Word)

/-- A slot that is written reads as written, and all others as before. -/
theorem getStorage_setStorage :
    (fork.setStorage addr slot value).getStorage other key =
      if other = addr ∧ key = slot then value else fork.getStorage other key := by
  -- Only the written slot of the written account differs.
  unfold getStorage setStorage
  rw [getAccount_accountForWrite]
  by_cases same : other = addr
  · subst same
    -- Within the account the written slot is told apart.
    by_cases hit : key = slot
    · subst hit
      simp
    · simp [hit, AList.lookup_insert_ne hit]
  · simp [same]

/-- Writing a balance leaves the slots alone. -/
@[simp] theorem getStorage_setBalance (balance : Word) :
    (fork.setBalance addr balance).getStorage other key = fork.getStorage other key := by
  unfold getStorage setBalance
  exact getAccount_accountForWrite_field fork addr other
    (fun account => (account.storage.lookup key).getD 0) fun _ => rfl

/-- Writing a nonce leaves the slots alone. -/
@[simp] theorem getStorage_setNonce (nonce : Nat) :
    (fork.setNonce addr nonce).getStorage other key = fork.getStorage other key := by
  unfold getStorage setNonce
  exact getAccount_accountForWrite_field fork addr other
    (fun account => (account.storage.lookup key).getD 0) fun _ => rfl

/-- Writing code leaves the slots alone. -/
@[simp] theorem getStorage_setCode (code : Bytes) :
    (fork.setCode addr code).getStorage other key = fork.getStorage other key := by
  unfold getStorage setCode
  exact getAccount_accountForWrite_field fork addr other
    (fun account => (account.storage.lookup key).getD 0) fun _ => rfl

/-- A snapshot changes what can be restored, and not what is read. -/
@[simp] theorem getStorage_snapshot :
    fork.snapshot.2.getStorage other key = fork.getStorage other key := rfl

end Slots

section Balances

/-- A balance that is written reads as written, and all others as before. -/
theorem getBalance_setBalance (balance : Word) :
    (fork.setBalance addr balance).getBalance other =
      if other = addr then balance else fork.getBalance other := by
  unfold getBalance setBalance
  rw [getAccount_accountForWrite]
  -- The reader asks for the written account, or for another one.
  split <;> rfl

/-- Writing a slot leaves the balances alone. -/
@[simp] theorem getBalance_setStorage (slot value : Word) :
    (fork.setStorage addr slot value).getBalance other = fork.getBalance other := by
  unfold getBalance setStorage
  exact getAccount_accountForWrite_field fork addr other AccountState.balance fun _ => rfl

/-- Writing a nonce leaves the balances alone. -/
@[simp] theorem getBalance_setNonce (nonce : Nat) :
    (fork.setNonce addr nonce).getBalance other = fork.getBalance other := by
  unfold getBalance setNonce
  exact getAccount_accountForWrite_field fork addr other AccountState.balance fun _ => rfl

/-- Writing code leaves the balances alone. -/
@[simp] theorem getBalance_setCode (code : Bytes) :
    (fork.setCode addr code).getBalance other = fork.getBalance other := by
  unfold getBalance setCode
  exact getAccount_accountForWrite_field fork addr other AccountState.balance fun _ => rfl

/-- A snapshot leaves the balances alone. -/
@[simp] theorem getBalance_snapshot : fork.snapshot.2.getBalance other = fork.getBalance other := rfl

end Balances

section Nonces

/-- The nonce of an account as a reader sees it. -/
def nonceOf (fork : StateFork) (addr : Address) : Nat := (fork.getAccount addr).nonce

/-- A nonce that is written reads as written, and all others as before. -/
theorem nonceOf_setNonce (nonce : Nat) :
    (fork.setNonce addr nonce).nonceOf other =
      if other = addr then nonce else fork.nonceOf other := by
  unfold nonceOf setNonce
  rw [getAccount_accountForWrite]
  split <;> rfl

/-- Writing a slot leaves the nonces alone. -/
@[simp] theorem nonceOf_setStorage (slot value : Word) :
    (fork.setStorage addr slot value).nonceOf other = fork.nonceOf other := by
  unfold nonceOf setStorage
  exact getAccount_accountForWrite_field fork addr other AccountState.nonce fun _ => rfl

/-- Writing a balance leaves the nonces alone. -/
@[simp] theorem nonceOf_setBalance (balance : Word) :
    (fork.setBalance addr balance).nonceOf other = fork.nonceOf other := by
  unfold nonceOf setBalance
  exact getAccount_accountForWrite_field fork addr other AccountState.nonce fun _ => rfl

/-- Writing code leaves the nonces alone. -/
@[simp] theorem nonceOf_setCode (code : Bytes) :
    (fork.setCode addr code).nonceOf other = fork.nonceOf other := by
  unfold nonceOf setCode
  exact getAccount_accountForWrite_field fork addr other AccountState.nonce fun _ => rfl

/-- Transient storage belongs to no account. -/
@[simp] theorem nonceOf_tstore (key value : Word) :
    (fork.tstore addr key value).nonceOf other = fork.nonceOf other := rfl

/-- It is cleared without a look at them. -/
@[simp] theorem nonceOf_clearTransientStorage :
    fork.clearTransientStorage.nonceOf other = fork.nonceOf other := rfl

end Nonces

section Codes

/-- Code that is written reads as written, and all other code as before. -/
theorem getCode_setCode (code : Bytes) :
    (fork.setCode addr code).getCode other = if other = addr then code else fork.getCode other := by
  unfold getCode setCode
  rw [getAccount_accountForWrite]
  split <;> rfl

/-- Writing a slot leaves the code alone. -/
@[simp] theorem getCode_setStorage (slot value : Word) :
    (fork.setStorage addr slot value).getCode other = fork.getCode other := by
  unfold getCode setStorage
  exact getAccount_accountForWrite_field fork addr other AccountState.code fun _ => rfl

/-- Writing a balance leaves the code alone. -/
@[simp] theorem getCode_setBalance (balance : Word) :
    (fork.setBalance addr balance).getCode other = fork.getCode other := by
  unfold getCode setBalance
  exact getAccount_accountForWrite_field fork addr other AccountState.code fun _ => rfl

/-- Writing a nonce leaves the code alone. -/
@[simp] theorem getCode_setNonce (nonce : Nat) :
    (fork.setNonce addr nonce).getCode other = fork.getCode other := by
  unfold getCode setNonce
  exact getAccount_accountForWrite_field fork addr other AccountState.code fun _ => rfl

end Codes

/-- Two forks that no reader can tell apart. -/
structure SameView (before after : StateFork) : Prop where
  nonce : ∀ account, (after.getAccount account).nonce = (before.getAccount account).nonce
  balance : ∀ account, after.getBalance account = before.getBalance account
  code : ∀ account, after.getCode account = before.getCode account
  storage : ∀ account key, after.getStorage account key = before.getStorage account key
  transient : ∀ account key, after.tload account key = before.tload account key

namespace SameView

/-- Every fork looks like itself. -/
theorem refl (fork : StateFork) : SameView fork fork := by
  constructor <;> intros <;> rfl

/-- Looking alike goes on along a chain of forks. -/
theorem trans {a b c : StateFork} (first : SameView a b) (second : SameView b c) : SameView a c where
  nonce := fun account => (second.nonce account).trans (first.nonce account)
  balance := fun account => (second.balance account).trans (first.balance account)
  code := fun account => (second.code account).trans (first.code account)
  storage := fun account key => (second.storage account key).trans (first.storage account key)
  transient := fun account key => (second.transient account key).trans (first.transient account key)

/-- A fork with a snapshot looks like the one without. -/
theorem snapshot (fork : StateFork) : SameView fork fork.snapshot.2 := by
  constructor <;> intros <;> rfl

/-- A write that puts into an account what was there is not seen. -/
theorem accountForWrite (fork : StateFork) (addr : Address) {write : AccountState → AccountState}
    (nonce : (write (fork.getAccount addr)).nonce = (fork.getAccount addr).nonce)
    (balance : (write (fork.getAccount addr)).balance = fork.getBalance addr)
    (code : (write (fork.getAccount addr)).code = fork.getCode addr)
    (storage : ∀ key,
      ((write (fork.getAccount addr)).storage.lookup key).getD 0 = fork.getStorage addr key) :
    SameView fork (fork.accountForWrite addr write) := by
  -- A reader of another account sees no difference, and one of this account sees the same fields.
  have reads : ∀ {α : Type} (field : AccountState → α) (account : Address),
      field (write (fork.getAccount addr)) = field (fork.getAccount addr) →
        field ((fork.accountForWrite addr write).getAccount account) =
          field (fork.getAccount account) := by
    intro α field account same
    rw [getAccount_accountForWrite]
    split
    · rename_i here
      rw [same, here]
    · rfl
  exact {
    nonce := fun account => reads AccountState.nonce account nonce
    balance := fun account => reads AccountState.balance account balance
    code := fun account => reads AccountState.code account code
    storage := fun account key =>
      reads (fun found => (found.storage.lookup key).getD 0) account (storage key)
    transient := fun _ _ => rfl }

end SameView

/-- No earlier snapshot carries the id that the next one gets. -/
def Fresh (fork : StateFork) : Prop :=
  ∀ snapshot ∈ fork.snapshots, snapshot.snapshotId ≠ fork.snapshots.length

/-- Snapshots that carry their positions leave the next position free. -/
theorem SnapshotsIndexed.fresh {fork : StateFork} (indexed : fork.SnapshotsIndexed) :
    fork.Fresh := by
  -- A snapshot with that id would sit past the end of the list.
  intro snapshot member taken
  obtain ⟨position, inside, found⟩ := List.getElem_of_mem member
  have id := indexed position snapshot (by rw [List.getElem?_eq_getElem inside, found])
  omega

/-- Only the snapshots matter to whether they carry their positions. -/
theorem SnapshotsIndexed.of_snapshots {fork other : StateFork} (indexed : fork.SnapshotsIndexed)
    (same : other.snapshots = fork.snapshots) : other.SnapshotsIndexed := by
  intro position snapshot found
  exact indexed position snapshot (same ▸ found)

/-- A new snapshot carries its position too. -/
theorem SnapshotsIndexed.snapshot {fork : StateFork} (indexed : fork.SnapshotsIndexed) :
    fork.snapshot.2.SnapshotsIndexed := by
  intro position snapshot found
  simp only [StateFork.snapshot, List.getElem?_append] at found
  split at found
  · exact indexed position snapshot found
  · -- Past the old snapshots there is only the new one.
    rw [List.getElem?_singleton] at found
    split at found
    · obtain rfl := Option.some.inj found
      simp only
      omega
    · cases found

/--
A revert restores the fork as it was when the snapshot was taken.

It does so for every change that keeps the base and the snapshots.
-/
theorem revertToSnapshot_of_fresh {fork changed : StateFork} (fresh : fork.Fresh)
    (base : changed.baseState = fork.baseState)
    (snapshots : changed.snapshots = fork.snapshot.2.snapshots) :
    changed.revertToSnapshot fork.snapshot.1 = fork := by
  -- The snapshot just taken is the first one with its id.
  have found : changed.snapshots.findIdx?
      (fun snapshot => snapshot.snapshotId == fork.snapshot.1) = some fork.snapshots.length := by
    rw [snapshots]
    simp only [snapshot]
    rw [List.findIdx?_append]
    have none : fork.snapshots.findIdx?
        (fun snapshot => snapshot.snapshotId == fork.snapshots.length) = none := by
      rw [List.findIdx?_eq_none_iff]
      intro snapshot member
      simpa using fresh snapshot member
    simp [none]
  -- What it set aside, and the snapshots before it, are those of the old fork.
  unfold revertToSnapshot
  rw [found, snapshots]
  simp [snapshot, base]

end StateFork

end MiniEvm
