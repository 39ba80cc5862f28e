import MiniEvm.Mpt.Account
import MiniEvm.Mpt.Trie

/-! The root of the state trie, computed from the whole fork. -/

namespace MiniEvm

/-- The orders in which the addresses of a fork and the slots of an account are iterated. -/
structure StateOrder where
  addresses : List Address → List Address
  addresses_perm : ∀ listed, (addresses listed).Perm listed
  slots : HashMap Word Word → List (Sigma fun _ : Word => Word)
  slots_perm : ∀ storage, (slots storage).Perm storage.entries

/-- The addresses and slots as they are listed. -/
def StateOrder.listed : StateOrder where
  addresses := id
  addresses_perm _ := List.Perm.refl _
  slots storage := storage.entries
  slots_perm _ := List.Perm.refl _

namespace StateFork

/-- Every address of the base or of the modified part, once. -/
def addresses (fork : StateFork) : List Address :=
  (fork.baseState.keys ++ fork.dirtyState.keys).dedup

/-- The trie of one account's storage, with values stripped of leading zeros. -/
def storageTrie (host : Host) (iteration : StateOrder) (storage : HashMap Word Word) :
    MerklePatriciaTrie :=
  -- A slot that holds zero is entered too, with an empty value.
  MerklePatriciaTrie.new.insertAll ((iteration.slots storage).map fun entry =>
    (toBeBytes (host.keccak256 (toBeBytes entry.1)), (toBeBytes entry.2).dropWhile (· = 0)))

/-- One account as the state trie holds it. -/
def stateAccount (host : Host) (iteration : StateOrder) (account : AccountState) :
    StateAccount where
  nonce := account.nonce
  balance := account.balance
  storageRoot := (storageTrie host iteration account.storage).rootHash host
  codeHash := host.keccak256 account.code

/-- The trie of all accounts. -/
def stateTrie (host : Host) (iteration : StateOrder) (fork : StateFork) : MerklePatriciaTrie :=
  MerklePatriciaTrie.new.insertAll ((iteration.addresses fork.addresses).map fun address =>
    (toBeBytes (host.keccak256 (beBytes 20 address.toNat)),
      (stateAccount host iteration (fork.getAccount address)).rlpEncode))

def computeStateRoot (host : Host) (iteration : StateOrder) (fork : StateFork) : Word :=
  (stateTrie host iteration fork).rootHash host

end StateFork

end MiniEvm
