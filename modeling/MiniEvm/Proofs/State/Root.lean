import MiniEvm.Proofs.Data.Word
import MiniEvm.Proofs.Mpt.Canonical
import MiniEvm.Proofs.Vm.Runs
import MiniEvm.Vm.Root

/-! The roots of the state do not depend on the order in which its maps are iterated. -/

namespace MiniEvm

open MerklePatriciaTrie

variable {host : Host}

/-- The hash tells the slots of a storage map apart. -/
def SlotsApart (host : Host) (storage : HashMap Word Word) : Prop :=
  Set.InjOn (fun slot => host.keccak256 (toBeBytes slot)) {slot | slot ∈ storage.keys}

/-- The hash tells some addresses apart. -/
def AddressesApart (host : Host) (addresses : List Address) : Prop :=
  Set.InjOn (fun address => host.keccak256 (beBytes 20 address.toNat))
    {address | address ∈ addresses}

/-- Different items that the hash tells apart are entered under different keys. -/
theorem nodup_hashed {α : Type} {items : List α} {hash : α → Word} (entered : α → Bytes)
    (separate : items.Nodup) (apart : Set.InjOn hash {item | item ∈ items}) :
    ((items.map fun item => (toBeBytes (hash item), entered item)).map Prod.fst).Nodup := by
  rw [List.map_map]
  -- A word is recovered from its bytes, so equal keys come from equal hashes.
  apply separate.map_on
  intro left memberLeft right memberRight same
  exact apart memberLeft memberRight (toBeBytes_injective same)

/-- What was entered under the hash of an item is found there. -/
theorem get_hashed {α : Type} {items : List α} {hash : α → Word} (entered : α → Bytes)
    (separate : items.Nodup) (apart : Set.InjOn hash {item | item ∈ items}) {item : α}
    (member : item ∈ items) :
    (new.insertAll (items.map fun item => (toBeBytes (hash item), entered item))).get
      (toBeBytes (hash item)) = some (entered item) := by
  -- Each key is entered once, so the last value under it is the only one.
  rw [get_insertAll]
  exact (finalMap_eq_some_iff (nodup_hashed entered separate apart)).mpr
    (List.mem_map_of_mem member)

section Storage

variable {storage storage' : HashMap Word Word}

/-- The hash tells the entries of a storage map apart as it tells their slots. -/
theorem SlotsApart.entries (apart : SlotsApart host storage) :
    Set.InjOn (fun entry : Sigma fun _ : Word => Word => host.keccak256 (toBeBytes entry.1))
      {entry | entry ∈ storage.entries} := by
  intro left memberLeft right memberRight same
  have slots := apart (List.mem_map_of_mem memberLeft) (List.mem_map_of_mem memberRight) same
  -- A slot is listed once.
  exact storage.nodupKeys.eq_of_fst_eq memberLeft memberRight slots

/-- So it does in whatever order they are iterated. -/
theorem SlotsApart.slots (apart : SlotsApart host storage) (iteration : StateOrder) :
    Set.InjOn (fun entry : Sigma fun _ : Word => Word => host.keccak256 (toBeBytes entry.1))
      {entry | entry ∈ iteration.slots storage} :=
  apart.entries.mono fun _ member => (iteration.slots_perm storage).mem_iff.mp member

theorem StateOrder.nodup_slots (iteration : StateOrder) (storage : HashMap Word Word) :
    (iteration.slots storage).Nodup :=
  (iteration.slots_perm storage).nodup_iff.mpr (List.Nodup.of_map Sigma.fst storage.keys_nodup)

/-- Equal storage maps have equal tries for every order, however their values are encoded. -/
theorem slots_trie_eq (encode : Word → Bytes) (apart : SlotsApart host storage)
    (same : storage.entries.Perm storage'.entries) (iteration iteration' : StateOrder) :
    new.insertAll ((iteration.slots storage).map fun entry =>
        (toBeBytes (host.keccak256 (toBeBytes entry.1)), encode entry.2)) =
      new.insertAll ((iteration'.slots storage').map fun entry =>
        (toBeBytes (host.keccak256 (toBeBytes entry.1)), encode entry.2)) := by
  have listed := iteration.slots_perm storage
  have listed' := same.trans (iteration'.slots_perm storage').symm
  apply insertAll_perm
  · exact nodup_hashed _ (iteration.nodup_slots storage) (apart.slots iteration)
  · exact (listed.trans listed').map _

theorem storageTrie_eq (apart : SlotsApart host storage)
    (same : storage.entries.Perm storage'.entries) (iteration iteration' : StateOrder) :
    StateFork.storageTrie host iteration storage =
      StateFork.storageTrie host iteration' storage' :=
  slots_trie_eq (fun value => (toBeBytes value).dropWhile (· = 0)) apart same iteration iteration'

end Storage

/-- Equal accounts have equal tries for every order in which they are entered. -/
theorem accounts_trie_eq {addresses addresses' : List Address} (separate : addresses.Nodup)
    (apart : AddressesApart host addresses) (listing : addresses.Perm addresses')
    {encode encode' : Address → Bytes}
    (same : ∀ address ∈ addresses, encode address = encode' address)
    (iteration iteration' : StateOrder) :
    new.insertAll ((iteration.addresses addresses).map fun address =>
        (toBeBytes (host.keccak256 (beBytes 20 address.toNat)), encode address)) =
      new.insertAll ((iteration'.addresses addresses').map fun address =>
        (toBeBytes (host.keccak256 (beBytes 20 address.toNat)), encode' address)) := by
  have listed := iteration.addresses_perm addresses
  have listed' := listing.trans (iteration'.addresses_perm addresses').symm
  -- The same accounts are entered, so the first list may as well encode as the second one does.
  have encoded : ((iteration.addresses addresses).map fun address =>
        (toBeBytes (host.keccak256 (beBytes 20 address.toNat)), encode address)) =
      (iteration.addresses addresses).map fun address =>
        (toBeBytes (host.keccak256 (beBytes 20 address.toNat)), encode' address) := by
    apply List.map_congr_left
    intro address member
    rw [same address (listed.mem_iff.mp member)]
  rw [encoded]
  apply insertAll_perm
  · apply nodup_hashed
    · exact listed.nodup_iff.mpr separate
    · intro left memberLeft right memberRight hashes
      exact apart (listed.mem_iff.mp memberLeft) (listed.mem_iff.mp memberRight) hashes
  · exact (listed.trans listed').map _

/-- The state trie of a fork is the same for every order. -/
theorem StateFork.stateTrie_eq {fork : StateFork} (apart : AddressesApart host fork.addresses)
    (slots : ∀ address ∈ fork.addresses, SlotsApart host (fork.getAccount address).storage)
    (iteration iteration' : StateOrder) :
    fork.stateTrie host iteration = fork.stateTrie host iteration' := by
  apply accounts_trie_eq (List.nodup_dedup _) apart (List.Perm.refl _)
  -- The accounts are the same, and the tries of their storage do not depend on the order.
  intro address member
  simp only [stateAccount, storageTrie_eq (slots address member) (List.Perm.refl _) iteration iteration']

/-- So is the one that a frame computes from its old maps. -/
theorem Evm.stateTrie_eq {evm : Evm} (apart : AddressesApart host evm.addresses)
    (slots : SlotsApart host evm.storage) (iteration iteration' : StateOrder) :
    evm.stateTrie host iteration = evm.stateTrie host iteration' := by
  apply accounts_trie_eq (List.nodup_dedup _) apart (List.Perm.refl _)
  intro address _
  simp only [stateAccount, computeStorageRoot, Evm.storageTrie,
    slots_trie_eq storedValue slots (List.Perm.refl _) iteration iteration']

/--
The trie has one shape for each map.

Insertions that come to the same map lead to the same root, every trie that insertions lead to has
the canonical shape, and so the roots of a storage, of a fork and of a frame are the same for every
order of iteration, as long as the hash tells the keys apart.
-/
theorem trie_is_canonical (host : Host) :
    (∀ inserts inserts', (∀ key, finalMap inserts key = finalMap inserts' key) →
      (new.insertAll inserts).root = (new.insertAll inserts').root ∧
      (new.insertAll inserts).rootHash host = (new.insertAll inserts').rootHash host) ∧
    (∀ inserts, Canonical (new.insertAll inserts).root) ∧
    (∀ (iteration iteration' : StateOrder) (storage : HashMap Word Word),
      SlotsApart host storage →
        StateFork.storageTrie host iteration storage =
          StateFork.storageTrie host iteration' storage) ∧
    (∀ (iteration iteration' : StateOrder) (fork : StateFork),
      AddressesApart host fork.addresses →
      (∀ address ∈ fork.addresses, SlotsApart host (fork.getAccount address).storage) →
        fork.computeStateRoot host iteration = fork.computeStateRoot host iteration') ∧
    ∀ (iteration iteration' : StateOrder) (evm : Evm),
      AddressesApart host evm.addresses → SlotsApart host evm.storage →
        evm.computeStateRoot host iteration = evm.computeStateRoot host iteration' := by
  refine ⟨?_, canonical_insertAll, ?_, ?_, ?_⟩
  · intro inserts inserts' same
    rw [insertAll_eq_of_finalMap same]
    exact ⟨rfl, rfl⟩
  · intro iteration iteration' storage slots
    exact storageTrie_eq slots (List.Perm.refl _) iteration iteration'
  · intro iteration iteration' fork apart slots
    rw [StateFork.computeStateRoot, StateFork.computeStateRoot,
      StateFork.stateTrie_eq apart slots iteration iteration']
  · intro iteration iteration' evm apart slots
    rw [Evm.computeStateRoot, Evm.computeStateRoot,
      Evm.stateTrie_eq apart slots iteration iteration']

/-- Two orders of two keys, one of them overwritten on the way, lead to one root. -/
theorem trie_is_canonical_overwriting :
    (new.insertAll [([1], [5]), ([2], [6])]).root =
      (new.insertAll [([2], [9]), ([1], [5]), ([2], [6])]).root := by
  apply ((trie_is_canonical (tableHost [])).1 _ _ _).1
  intro key
  -- Only the two keys that were entered can tell the maps apart.
  by_cases one : key = [1]
  · subst one
    rfl
  · by_cases two : key = [2]
    · subst two
      rfl
    · simp [finalMap, Ne.symm one, Ne.symm two]

end MiniEvm
