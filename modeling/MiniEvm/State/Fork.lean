import MiniEvm.Data.Word

/-! The forked chain state: accounts over a base, transient storage, and snapshots. -/

namespace MiniEvm

/-- One account, which starts out empty. -/
structure AccountState where
  nonce : Nat := 0
  balance : Word := 0
  code : Bytes := []
  storage : HashMap Word Word := ∅

/-- The modified part of a fork, set aside for a later revert. -/
structure Snapshot where
  snapshotId : Nat
  dirtyState : HashMap Address AccountState
  transientStorage : HashMap (Address × Word) Word

/-- A base state with the modifications made on top of it. -/
structure StateFork where
  baseState : HashMap Address AccountState := ∅
  dirtyState : HashMap Address AccountState := ∅
  snapshots : List Snapshot := []
  transientStorage : HashMap (Address × Word) Word := ∅

namespace StateFork

/-- Sets the modified part aside under the next id. -/
def snapshot (fork : StateFork) : Nat × StateFork :=
  -- Ids are positions, so an id comes back into use after a revert.
  let snapshotId := fork.snapshots.length
  (snapshotId, { fork with
    snapshots := fork.snapshots ++
      [{ snapshotId, dirtyState := fork.dirtyState, transientStorage := fork.transientStorage }] })

/-- Goes back to the first snapshot with this id, and drops it with all later ones. -/
def revertToSnapshot (fork : StateFork) (id : Nat) : StateFork :=
  -- The base is no part of a snapshot, so a change to it stays.
  match fork.snapshots.findIdx? (fun snapshot => snapshot.snapshotId == id) with
  | some position =>
    match fork.snapshots[position]? with
    | some snapshot => { fork with
        dirtyState := snapshot.dirtyState
        transientStorage := snapshot.transientStorage
        snapshots := fork.snapshots.take position }
    -- The position was found in the list, so this branch is never taken.
    | none => fork
  | none => fork

/-- The account as modified, else as in the base, else the empty one. -/
def getAccount (fork : StateFork) (addr : Address) : AccountState :=
  match fork.dirtyState.lookup addr with
  | some account => account
  | none => (fork.baseState.lookup addr).getD {}

/-- Reads a transient slot, which is zero until written. -/
def tload (fork : StateFork) (addr : Address) (key : Word) : Word :=
  (fork.transientStorage.lookup (addr, key)).getD 0

/-- Writes a transient slot. -/
def tstore (fork : StateFork) (addr : Address) (key value : Word) : StateFork :=
  { fork with transientStorage := fork.transientStorage.insert (addr, key) value }

/-- Forgets every transient slot. -/
def clearTransientStorage (fork : StateFork) : StateFork := { fork with transientStorage := ∅ }

/-- Reads a storage slot, which is zero until written. -/
def getStorage (fork : StateFork) (addr : Address) (slot : Word) : Word :=
  ((fork.getAccount addr).storage.lookup slot).getD 0

/-- Changes an account, copying it from the base on its first modification. -/
def accountForWrite (fork : StateFork) (addr : Address)
    (write : AccountState → AccountState) : StateFork :=
  -- From its first write on, the account is read from the modified part only.
  let account := match fork.dirtyState.lookup addr with
    | some account => account
    | none => (fork.baseState.lookup addr).getD {}
  { fork with dirtyState := fork.dirtyState.insert addr (write account) }

/-- Writes a storage slot. -/
def setStorage (fork : StateFork) (addr : Address) (slot value : Word) : StateFork :=
  fork.accountForWrite addr fun account =>
    { account with storage := account.storage.insert slot value }

def getBalance (fork : StateFork) (addr : Address) : Word := (fork.getAccount addr).balance

def setBalance (fork : StateFork) (addr : Address) (balance : Word) : StateFork :=
  fork.accountForWrite addr fun account => { account with balance }

def getCode (fork : StateFork) (addr : Address) : Bytes := (fork.getAccount addr).code

def setCode (fork : StateFork) (addr : Address) (code : Bytes) : StateFork :=
  fork.accountForWrite addr fun account => { account with code }

def setNonce (fork : StateFork) (addr : Address) (nonce : Nat) : StateFork :=
  fork.accountForWrite addr fun account => { account with nonce }

/-- Every snapshot carries its own position as its id. -/
def SnapshotsIndexed (fork : StateFork) : Prop :=
  ∀ (position : Nat) (snapshot : Snapshot),
    fork.snapshots[position]? = some snapshot → snapshot.snapshotId = position

end StateFork

end MiniEvm
