import MiniEvm.Proofs.State.Fork
import MiniEvm.Proofs.State.Root

/-! When the root depends on what can be observed only: listed zeros and empty accounts count. -/

namespace MiniEvm

open MerklePatriciaTrie

variable {host : Host} {iteration iteration' : StateOrder} {fork fork' : StateFork}

/-- Two forks whose accounts and slots read the same everywhere. -/
structure SameAccounts (fork fork' : StateFork) : Prop where
  nonce : ∀ address, (fork.getAccount address).nonce = (fork'.getAccount address).nonce
  balance : ∀ address, fork.getBalance address = fork'.getBalance address
  code : ∀ address, fork.getCode address = fork'.getCode address
  storage : ∀ address slot, fork.getStorage address slot = fork'.getStorage address slot

/-- The same tries are built for two forks, those of the storages and the one of the state. -/
def SameTries (host : Host) (iteration iteration' : StateOrder) (fork fork' : StateFork) : Prop :=
  (∀ address, StateFork.storageTrie host iteration (fork.getAccount address).storage =
    StateFork.storageTrie host iteration' (fork'.getAccount address).storage) ∧
  fork.stateTrie host iteration = fork'.stateTrie host iteration'

/-- Two forks list the same accounts, and the same slots under each. -/
def SameListing (fork fork' : StateFork) : Prop :=
  (∀ address, address ∈ fork.addresses ↔ address ∈ fork'.addresses) ∧
  ∀ address slot, slot ∈ (fork.getAccount address).storage.keys ↔
    slot ∈ (fork'.getAccount address).storage.keys

/-- The hash tells apart all that two forks list. -/
structure KeysApart (host : Host) (fork fork' : StateFork) : Prop where
  addresses : AddressesApart host (fork.addresses ++ fork'.addresses)
  slots : ∀ address, Set.InjOn (fun slot => host.keccak256 (toBeBytes slot))
    {slot | slot ∈ (fork.getAccount address).storage.keys ++
      (fork'.getAccount address).storage.keys}

/-- The addresses of one fork are told apart, if all are. -/
theorem KeysApart.left (apart : KeysApart host fork fork') :
    AddressesApart host fork.addresses :=
  apart.addresses.mono fun _ member => List.mem_append_left _ member

/-- The slots of each account of one fork are told apart, if all are. -/
theorem KeysApart.leftSlots (apart : KeysApart host fork fork') (address : Address) :
    SlotsApart host (fork.getAccount address).storage :=
  (apart.slots address).mono fun _ member => List.mem_append_left _ member

section Enough

/-- Where the same slots are listed, the same entries are. -/
theorem mem_entries_of_listed {storage storage' : HashMap Word Word}
    (listed : ∀ slot, slot ∈ storage.keys ↔ slot ∈ storage'.keys)
    (same : ∀ slot, (storage.lookup slot).getD 0 = (storage'.lookup slot).getD 0)
    {entry : Sigma fun _ : Word => Word} (member : entry ∈ storage.entries) :
    entry ∈ storage'.entries := by
  obtain ⟨slot, value⟩ := entry
  have found : storage.lookup slot = some value := AList.mem_lookup_iff.mpr member
  -- The other map lists the slot too, and a listed slot reads as it is stored.
  have there : slot ∈ storage'.keys := (listed slot).mp (List.mem_map_of_mem member)
  obtain ⟨other, found'⟩ := Option.isSome_iff_exists.mp (AList.lookup_isSome.mpr there)
  have values := same slot
  rw [found, found', Option.getD_some, Option.getD_some] at values
  rw [values]
  exact AList.mem_lookup_iff.mp found'

/-- Storages that list and hold the same are permutations. -/
theorem entries_perm_of_listed {storage storage' : HashMap Word Word}
    (listed : ∀ slot, slot ∈ storage.keys ↔ slot ∈ storage'.keys)
    (same : ∀ slot, (storage.lookup slot).getD 0 = (storage'.lookup slot).getD 0) :
    storage.entries.Perm storage'.entries := by
  rw [List.perm_ext_iff_of_nodup (List.Nodup.of_map Sigma.fst storage.keys_nodup)
    (List.Nodup.of_map Sigma.fst storage'.keys_nodup)]
  -- Both maps list each slot once, so it is enough that they have the same entries.
  intro entry
  constructor
  · exact mem_entries_of_listed listed same
  · exact mem_entries_of_listed (fun slot => (listed slot).symm) (fun slot => (same slot).symm)

/-- Forks that read the same and list the same have the same tries. -/
theorem sameTries_of_listing (same : SameAccounts fork fork') (apart : KeysApart host fork fork')
    (listing : SameListing fork fork') : SameTries host iteration iteration' fork fork' := by
  -- The storage of an account first, because its root is part of the account.
  have storages : ∀ address, StateFork.storageTrie host iteration
        (fork.getAccount address).storage =
      StateFork.storageTrie host iteration' (fork'.getAccount address).storage := by
    intro address
    apply storageTrie_eq (apart.leftSlots address)
    exact entries_perm_of_listed (listing.2 address) (same.storage address)
  refine ⟨storages, ?_⟩
  apply accounts_trie_eq (List.nodup_dedup _) apart.left
  · exact (List.perm_ext_iff_of_nodup (List.nodup_dedup _) (List.nodup_dedup _)).mpr listing.1
  · -- Nonce, balance and code read the same, and the storage roots are of the same trie.
    intro address _
    have nonce := same.nonce address
    have balance : (fork.getAccount address).balance = (fork'.getAccount address).balance :=
      same.balance address
    have code : (fork.getAccount address).code = (fork'.getAccount address).code :=
      same.code address
    simp only [StateFork.stateAccount, nonce, balance, code, storages address]

end Enough

section Needed

/-- Of equal tries, what was entered into one under a hash was entered into the other. -/
theorem exists_of_trie_eq {α : Type} {items items' : List α} {hash : α → Word}
    {entered entered' : α → Bytes}
    (same : new.insertAll (items.map fun item => (toBeBytes (hash item), entered item)) =
      new.insertAll (items'.map fun item => (toBeBytes (hash item), entered' item)))
    {item : α} (member : item ∈ items) : ∃ other ∈ items', hash other = hash item := by
  have found := get_insertAll (items.map fun item => (toBeBytes (hash item), entered item))
    (toBeBytes (hash item))
  rw [same, get_insertAll] at found
  -- Something is found under the key of the item, so it was entered.
  have entry : ((items.map fun item => (toBeBytes (hash item), entered item)).reverse.find?
      fun entry => entry.1 = toBeBytes (hash item)).isSome := by
    rw [List.find?_isSome]
    exact ⟨_, List.mem_reverse.mpr (List.mem_map_of_mem member), by simp⟩
  -- Equal tries find the same, so something was entered under it in the other one as well.
  have entry' : ((items'.map fun item => (toBeBytes (hash item), entered' item)).reverse.find?
      fun entry => entry.1 = toBeBytes (hash item)).isSome := by
    have mapped := congrArg Option.isSome found
    rw [Option.isSome_map, Option.isSome_map, entry] at mapped
    exact mapped
  rw [List.find?_isSome] at entry'
  obtain ⟨pair, listed, key⟩ := entry'
  obtain ⟨other, there, rfl⟩ := List.mem_map.mp (List.mem_reverse.mp listed)
  exact ⟨other, there, toBeBytes_injective (by simpa using key)⟩

/-- Of equal storage tries, the slots of one are listed in the other. -/
theorem mem_keys_of_storageTrie {storage storage' : HashMap Word Word}
    (apart : Set.InjOn (fun slot => host.keccak256 (toBeBytes slot))
      {slot | slot ∈ storage.keys ++ storage'.keys})
    (same : StateFork.storageTrie host iteration storage =
      StateFork.storageTrie host iteration' storage')
    {slot : Word} (member : slot ∈ storage.keys) : slot ∈ storage'.keys := by
  obtain ⟨entry, listed, rfl⟩ := List.mem_map.mp member
  obtain ⟨other, there, hashes⟩ := exists_of_trie_eq same
    ((iteration.slots_perm storage).mem_iff.mpr listed)
  have member' : other.1 ∈ storage'.keys :=
    List.mem_map_of_mem ((iteration'.slots_perm storage').mem_iff.mp there)
  -- The two slots have one hash, and the hash tells the slots of both maps apart.
  have slots : other.1 = entry.1 :=
    apart (List.mem_append_right _ member') (List.mem_append_left _ member) hashes
  rwa [← slots]

/-- Of equal state tries, the addresses of one are listed in the other. -/
theorem mem_addresses_of_stateTrie
    (apart : AddressesApart host (fork.addresses ++ fork'.addresses))
    (same : fork.stateTrie host iteration = fork'.stateTrie host iteration')
    {address : Address} (member : address ∈ fork.addresses) : address ∈ fork'.addresses := by
  obtain ⟨other, there, hashes⟩ := exists_of_trie_eq same
    ((iteration.addresses_perm fork.addresses).mem_iff.mpr member)
  have member' := (iteration'.addresses_perm fork'.addresses).mem_iff.mp there
  have addresses : other = address :=
    apart (List.mem_append_right _ member') (List.mem_append_left _ member) hashes
  rwa [← addresses]

/-- Telling apart goes both ways. -/
theorem KeysApart.symm (apart : KeysApart host fork fork') : KeysApart host fork' fork where
  addresses := apart.addresses.mono fun _ member => by
    rcases List.mem_append.mp member with right | left
    · exact List.mem_append_right _ right
    · exact List.mem_append_left _ left
  slots := fun address => (apart.slots address).mono fun _ member => by
    rcases List.mem_append.mp member with right | left
    · exact List.mem_append_right _ right
    · exact List.mem_append_left _ left

end Needed

/--
The tries depend on what can be observed, unless one fork lists more than the other.

A slot that is listed with a zero is entered, and so is an account that is listed with nothing in
it, although neither can be told from one that is not listed.
-/
theorem same_tries_iff_same_listing (host : Host) (iteration iteration' : StateOrder)
    (fork fork' : StateFork) (same : SameAccounts fork fork')
    (apart : KeysApart host fork fork') :
    SameTries host iteration iteration' fork fork' ↔ SameListing fork fork' := by
  constructor
  · -- Whatever one fork lists was entered under its hash, and is found in the trie of the other.
    rintro ⟨storages, state⟩
    constructor
    · intro address
      exact ⟨mem_addresses_of_stateTrie apart.addresses state,
        mem_addresses_of_stateTrie apart.symm.addresses state.symm⟩
    · intro address slot
      exact ⟨mem_keys_of_storageTrie (apart.slots address) (storages address),
        mem_keys_of_storageTrie (apart.symm.slots address) (storages address).symm⟩
  · exact sameTries_of_listing same apart

/-- An account with one slot. -/
def storedAccount : AccountState := { storage := (∅ : HashMap Word Word).insert 0 5 }

/-- A fork with one account in its base, and one with the same account in its modified part. -/
def storingBelow : StateFork := { baseState := (∅ : HashMap Address AccountState).insert 1 storedAccount }

def storingAbove : StateFork := ({} : StateFork).setStorage 1 0 5

/-- One of the two forks stores above its base. -/
theorem getAccount_storingAbove (address : Address) :
    storingAbove.getAccount address = if address = 1 then storedAccount else {} :=
  StateFork.getAccount_accountForWrite {} 1 address _

/-- The other one reads the same. -/
theorem getAccount_storingBelow (address : Address) :
    storingBelow.getAccount address = storingAbove.getAccount address := by
  rw [getAccount_storingAbove]
  by_cases here : address = 1
  · subst here
    rfl
  · have absent : storingBelow.baseState.lookup address = none := AList.lookup_insert_ne here
    simp only [StateFork.getAccount, storingBelow] at absent ⊢
    rw [absent, if_neg here]
    rfl

/-- Where an account lives does not matter. -/
theorem same_tries_iff_same_listing_storing :
    SameTries (tableHost []) .listed .listed storingBelow storingAbove := by
  have below : storingBelow.addresses = [1] := by decide +kernel
  have above : storingAbove.addresses = [1] := by decide +kernel
  have slots : ∀ address slot, slot ∈ (storingAbove.getAccount address).storage.keys →
      slot = 0 := by
    intro address slot member
    rw [getAccount_storingAbove] at member
    split at member
    · exact List.mem_singleton.mp member
    · cases member
  apply (same_tries_iff_same_listing _ _ _ _ _ _ _).mpr
  · refine ⟨fun address => by rw [below, above], fun address slot => ?_⟩
    rw [getAccount_storingBelow]
  · constructor <;> intro address <;>
      simp only [StateFork.getBalance, StateFork.getCode, StateFork.getStorage,
        getAccount_storingBelow, implies_true]
  · constructor
    · -- There is one address, and one slot.
      intro left memberLeft right memberRight _
      rw [Set.mem_ofPred_eq, below, above] at memberLeft memberRight
      have one : ∀ address : Address, address ∈ [1] ++ [1] → address = 1 := by simp
      rw [one left memberLeft, one right memberRight]
    · intro address left memberLeft right memberRight _
      rw [Set.mem_ofPred_eq, getAccount_storingBelow, List.mem_append, or_self]
        at memberLeft memberRight
      rw [slots address left memberLeft, slots address right memberRight]

/-- An account whose only slot was written back to zero, and the same account without it. -/
def cleared : StateFork := ((({} : StateFork).setBalance 1 7).setStorage 1 0 5).setStorage 1 0 0

def untouched : StateFork := ({} : StateFork).setBalance 1 7

/-- The hashes that the roots of these two ask for. -/
def clearedHost : Host := tableHost [
  (beBytes 32 0, 0x290decd9548b62a8d60345a988386fc84ba6bc95484008f6362f93160ef3e563),
  ([0xe3, 0xa1, 0x20, 0x29, 0x0d, 0xec, 0xd9, 0x54, 0x8b, 0x62, 0xa8, 0xd6, 0x03, 0x45, 0xa9, 0x88,
    0x38, 0x6f, 0xc8, 0x4b, 0xa6, 0xbc, 0x95, 0x48, 0x40, 0x08, 0xf6, 0x36, 0x2f, 0x93, 0x16, 0x0e,
    0xf3, 0xe5, 0x63, 0x80], 0x01fd9cade5c7734d577035a954adf305cf726c6746e14a81b33690906e5c63a1),
  ([0x80], 0x56e81f171bcc55a6ff8345e692c0f86e5b48e01b996cadc001622fb5e363b421),
  (beBytes 20 1, 0x1468288056310c82aa4c01a7e12a10f8111a0560e72b700555479031b86c357d),
  ([], 0xc5d2460186f7233c927e7db2dcc703c0e500b653ca82273b7bfad8045d85a470)]

/--
Zero slots and empty accounts are seen in the root.

A slot that was written back to zero changes the account in the state trie, and a balance of zero
that was written to an unknown account enters it.
-/
theorem unobservable_entries_count :
    (SameAccounts cleared untouched ∧
      cleared.stateTrie clearedHost .listed ≠ untouched.stateTrie clearedHost .listed) ∧
    SameAccounts (({} : StateFork).setBalance 1 0) {} ∧
      (({} : StateFork).setBalance 1 0).stateTrie clearedHost .listed ≠
        ({} : StateFork).stateTrie clearedHost .listed := by
  refine ⟨⟨?_, ?_⟩, ?_, ?_⟩
  · constructor <;> intro address
    · have nonces : cleared.nonceOf address = untouched.nonceOf address := by
        simp [cleared, untouched]
      exact nonces
    · simp [cleared, untouched]
    · simp [cleared, untouched]
    · -- The slot reads zero again, as every other one does all along.
      intro slot
      simp only [cleared, untouched, StateFork.getStorage_setStorage,
        StateFork.getStorage_setBalance]
      split
      · rfl
      · rfl
  · intro same
    have values := congrArg (fun trie =>
      trie.get (toBeBytes (clearedHost.keccak256 (beBytes 20 1)))) same
    revert values
    decide +kernel
  · constructor <;> intro address
    · exact StateFork.nonceOf_setBalance {} 1 address 0
    · rw [StateFork.getBalance_setBalance]
      split <;> rfl
    · simp
    · simp
  · intro same
    have values := congrArg (fun trie => trie.root.isNull) same
    revert values
    decide +kernel

end MiniEvm
