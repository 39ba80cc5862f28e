import MiniEvm.State.Root

/-! The root of the state trie, computed from the old maps of a frame. -/

namespace MiniEvm

namespace Evm

/-- A stored value as the trie of a frame holds it: stripped of zeros and encoded as a string. -/
def storedValue (value : Word) : Bytes :=
  let valueBytes := (toBeBytes value).dropWhile (· = 0)
  if valueBytes.length = 1 ∧ valueBytes.all (· < 0x80) then valueBytes
  else UInt8.ofNat (0x80 + valueBytes.length) :: valueBytes

/-- The trie of the one storage map, whatever account it is asked for. -/
def storageTrie (host : Host) (iteration : StateOrder) (evm : Evm) (_account : Address) :
    MerklePatriciaTrie :=
  MerklePatriciaTrie.new.insertAll ((iteration.slots evm.storage).map fun entry =>
    (toBeBytes (host.keccak256 (toBeBytes entry.1)), storedValue entry.2))

def computeStorageRoot (host : Host) (iteration : StateOrder) (evm : Evm) (account : Address) :
    Word :=
  (evm.storageTrie host iteration account).rootHash host

/-- Every address of the three account maps, and the frame's own when there is storage, once. -/
def addresses (evm : Evm) : List Address :=
  let listed := evm.contracts.keys ++ evm.balances.keys ++ evm.nonces.keys
  (if evm.storage.entries.isEmpty then listed else listed ++ [evm.selfAddress]).dedup

/-- One account as the old maps have it. -/
def stateAccount (host : Host) (iteration : StateOrder) (evm : Evm) (address : Address) :
    StateAccount where
  nonce := (evm.nonces.lookup address).getD 0
  balance := (evm.balances.lookup address).getD 0
  -- Every account gets the root of the same storage map.
  storageRoot := evm.computeStorageRoot host iteration address
  codeHash := ((evm.contracts.lookup address).map host.keccak256).getD (host.keccak256 [])

/-- The trie of all accounts. -/
def stateTrie (host : Host) (iteration : StateOrder) (evm : Evm) : MerklePatriciaTrie :=
  MerklePatriciaTrie.new.insertAll ((iteration.addresses evm.addresses).map fun address =>
    (toBeBytes (host.keccak256 (beBytes 20 address.toNat)),
      (evm.stateAccount host iteration address).rlpEncode))

def computeStateRoot (host : Host) (iteration : StateOrder) (evm : Evm) : Word :=
  (evm.stateTrie host iteration).rootHash host

end Evm

end MiniEvm
