import MiniEvm.Proofs.State.Root
import MiniEvm.Proofs.Vm.Maps
import MiniEvm.Proofs.Vm.SoleFrames

/-! When the two roots of a frame agree: the one of its old maps and the one of its fork. -/

namespace MiniEvm

open BigEndian Frames MerklePatriciaTrie

variable {host : Host} {account : Address}

/-- A map that reads as a default everywhere still does when the default is entered. -/
theorem lookup_insert_default {ν : Type} {map : HashMap Address ν} {default : ν}
    (everywhere : ∀ address, (map.lookup address).getD default = default)
    (key address : Address) : ((map.insert key default).lookup address).getD default = default := by
  by_cases here : address = key
  · subst here
    rw [AList.lookup_insert]
    rfl
  · rw [AList.lookup_insert_ne here]
    exact everywhere address

section ReadBack

variable {entries : List (Sigma fun _ : Address => AccountState)} {evm : Evm}

/-- The accounts that are read back are listed, and no others come in. -/
theorem mem_foldl_readBackAccount (address : Address) :
    (address ∈ (entries.foldl readBackAccount evm).balances ↔
      address ∈ evm.balances ∨ address ∈ entries.map Sigma.fst) ∧
    (address ∈ (entries.foldl readBackAccount evm).nonces ↔
      address ∈ evm.nonces ∨ address ∈ entries.map Sigma.fst) := by
  -- Each entry writes its own account into both maps.
  induction entries generalizing evm with
  | nil => simp
  | cons entry rest ih =>
    obtain ⟨balances, nonces⟩ := @ih (readBackAccount evm entry)
    rw [List.foldl_cons, balances, nonces]
    simp only [readBackAccount, AList.mem_insert, List.map_cons, List.mem_cons, or_assoc,
      or_left_comm, and_self]

/-- Accounts without nonce, balance and code read back as such. -/
theorem foldl_readBackAccount_plain (plain : ∀ entry ∈ entries, entry.2.OnlyStores) :
    ((∀ address, (evm.balances.lookup address).getD 0 = 0) →
      ∀ address, ((entries.foldl readBackAccount evm).balances.lookup address).getD 0 = 0) ∧
    ((∀ address, (evm.nonces.lookup address).getD 0 = 0) →
      ∀ address, ((entries.foldl readBackAccount evm).nonces.lookup address).getD 0 = 0) ∧
    (entries.foldl readBackAccount evm).contracts = evm.contracts := by
  induction entries generalizing evm with
  | nil => exact ⟨fun zero => zero, fun zero => zero, rfl⟩
  | cons entry rest ih =>
    have here := plain entry List.mem_cons_self
    obtain ⟨balances, nonces, contracts⟩ := @ih (readBackAccount evm entry) fun other member =>
      plain other (List.mem_cons_of_mem _ member)
    rw [List.foldl_cons]
    -- A plain account writes zeros, which is what the maps read without it.
    refine ⟨fun zero => balances fun address => ?_, fun zero => nonces fun address => ?_, ?_⟩
    · simp only [readBackAccount, here.balance]
      exact lookup_insert_default zero entry.1 address
    · simp only [readBackAccount, here.nonce]
      exact lookup_insert_default zero entry.1 address
    · rw [contracts]
      simp [readBackAccount, here.code]

end ReadBack

/-- The addresses that the old maps list, and the frame's own if it has storage. -/
theorem Evm.mem_addresses (evm : Evm) (address : Address) :
    address ∈ evm.addresses ↔ address ∈ evm.contracts ∨ address ∈ evm.balances ∨
      address ∈ evm.nonces ∨ evm.storage.entries ≠ [] ∧ address = evm.selfAddress := by
  have listed : ∀ {ν : Type} (map : HashMap Address ν), address ∈ map.keys ↔ address ∈ map :=
    fun _ => Iff.rfl
  simp only [Evm.addresses, List.mem_dedup]
  -- The frame's own account is only looked at if it has a slot.
  split
  · rename_i empty
    have none_ : evm.storage.entries = [] := List.isEmpty_iff.mp empty
    simp only [List.mem_append, listed, none_, ne_eq, not_true_eq_false, false_and, or_false,
      or_assoc]
  · rename_i stores
    have some_ : evm.storage.entries ≠ [] := fun none_ => stores (List.isEmpty_iff.mpr none_)
    simp only [List.mem_append, listed, List.mem_singleton, some_, ne_eq, not_false_eq_true,
      true_and, or_assoc]

/--
What a run leaves that was alone with its storage.

The old maps have been read back from the fork: they list the same accounts, all of them without
nonce, balance and code, and the storage map is that of the one account.
-/
structure ReadBack (account : Address) (vm : Evm) : Prop where
  bare : Bare account vm.state
  storage : vm.storage = (vm.state.getAccount account).storage
  addresses : ∀ address, address ∈ vm.addresses ↔ address ∈ vm.state.addresses
  balances : ∀ address, (vm.balances.lookup address).getD 0 = 0
  nonces : ∀ address, (vm.nonces.lookup address).getD 0 = 0
  contracts : vm.contracts = ∅

/-- Over an empty base the listed accounts are the modified ones. -/
theorem Bare.mem_addresses {fork : StateFork} (bare : Bare account fork) (address : Address) :
    address ∈ fork.addresses ↔ address ∈ fork.dirtyState := by
  simp only [StateFork.addresses, bare.base, List.mem_dedup, List.mem_append]
  constructor
  · rintro (none_ | listed)
    · cases none_
    · exact listed
  · exact Or.inr

/-- An account with storage is listed. -/
theorem Bare.listed {fork : StateFork} (bare : Bare account fork) {address : Address}
    (stores : (fork.getAccount address).storage.entries ≠ []) : address ∈ fork.dirtyState := by
  by_contra unlisted
  have none_ := AList.lookup_eq_none.mpr unlisted
  apply stores
  simp only [StateFork.getAccount, none_, bare.base]
  rfl

/-- The storage map that is read back is the storage of the one account. -/
theorem Sole.storage_closed {last : Evm} (sole : Sole account last) :
    (syncForkIntoLegacyState host last).storage = (last.state.getAccount account).storage := by
  -- No other account has storage.
  have only : ∀ entry ∈ host.order last, entry.2.storage.entries = [] ∨
      entry.2.storage = (last.state.getAccount account).storage := by
    intro entry member
    by_cases own : entry.1 = account
    · rw [← own, getAccount_of_mem_order member]
      exact .inr rfl
    · rw [← getAccount_of_mem_order member]
      exact .inl (sole.bare.others entry.1 own)
  rcases foldl_readBackAccount_storage (host.order last) last with
    ⟨entry, member, stores, left⟩ | ⟨same, empty⟩
  · exact left.trans ((only entry member).resolve_left stores)
  · -- No account had storage, and the map was empty.
    refine same.trans (sole.storage.trans (AList.ext ?_))
    symm
    by_contra stores
    have modified := ((host.order_perm last).map Sigma.fst).mem_iff.mpr (sole.bare.listed stores)
    obtain ⟨entry, member, own⟩ := List.mem_map.mp modified
    rw [← own, getAccount_of_mem_order member] at stores
    exact stores (empty entry member)

/-- The copy out of the fork at the end of such a run. -/
theorem Sole.readBack {last : Evm} (sole : Sole account last) :
    ReadBack account { syncForkIntoLegacyState host last with
      state := last.state.clearTransientStorage } := by
  have listed := host.order_perm last
  -- No account has a nonce, a balance or code, so neither have the maps read from it.
  have plain : ∀ entry ∈ host.order last, entry.2.OnlyStores := by
    intro entry member
    rw [← getAccount_of_mem_order member]
    exact sole.bare.plain entry.1
  have keys : ∀ address, address ∈ (host.order last).map Sigma.fst ↔
      address ∈ last.state.dirtyState := fun address => (listed.map Sigma.fst).mem_iff
  obtain ⟨balances, nonces, contracts⟩ := @foldl_readBackAccount_plain _ last plain
  have storage := @Sole.storage_closed host account last sole
  have self : (syncForkIntoLegacyState host last).selfAddress = account := by
    obtain ⟨_, _, _, _, same⟩ := syncForkIntoLegacyState_eq host last
    rw [same]
    exact sole.self
  refine ⟨⟨sole.bare.base, sole.bare.plain, sole.bare.others⟩, storage, fun address => ?_, ?_, ?_,
    contracts.trans sole.contracts⟩
  · -- Both lists come to the modified accounts.
    rw [show address ∈ last.state.clearTransientStorage.addresses ↔ _ from
      sole.bare.mem_addresses address]
    have balanced := (@mem_foldl_readBackAccount (host.order last) last address).1
    have counted := (@mem_foldl_readBackAccount (host.order last) last address).2
    rw [Evm.mem_addresses]
    constructor
    · rintro (coded | held | numbered | ⟨stores, rfl⟩)
      · rw [show (syncForkIntoLegacyState host last).contracts = ∅ from
          contracts.trans sole.contracts] at coded
        cases coded
      · rw [sole.balances, keys] at balanced
        exact (balanced.mp held).resolve_left (AList.notMem_empty _)
      · rw [sole.nonces, keys] at counted
        exact (counted.mp numbered).resolve_left (AList.notMem_empty _)
      · rw [show (Evm.selfAddress { syncForkIntoLegacyState host last with
          state := last.state.clearTransientStorage }) = account from self]
        rw [show (syncForkIntoLegacyState host last).storage = _ from storage] at stores
        exact sole.bare.listed stores
    · intro modified
      exact .inr (.inl (balanced.mpr (.inr ((keys address).mpr modified))))
  · exact balances fun address => by rw [sole.balances]; rfl
  · exact nonces fun address => by rw [sole.nonces]; rfl

/-- A run from the empty state that opens no frame leaves its maps read back. -/
theorem readBack_of_run {fuel : Nat} {code : Bytes} {gasLimit : Nat} {context : TxContext}
    {result : ExecutionResult} {vm : Evm}
    (closed : NeverOpens host { Evm.newWithGas code gasLimit with context })
    (ran : run host fuel { Evm.newWithGas code gasLimit with context } = .value (result, vm)) :
    ReadBack context.address vm := by
  obtain ⟨history, last, looped, rfl⟩ := run_eq_value ran
  have start : Sole context.address { Evm.newWithGas code gasLimit with context } :=
    ⟨rfl, rfl, rfl, rfl, rfl, rfl, .empty⟩
  exact (start.runs closed ⟨fuel, looped⟩).readBack

/-- The bytes of a word without leading zeros, as the trie of a fork holds a stored value. -/
def strippedBytes (value : Word) : Bytes := (toBeBytes value).dropWhile (· = 0)

theorem value_strippedBytes (word : Word) : value (strippedBytes word) = word.toNat := by
  rw [strippedBytes, value_dropWhile, toBeBytes, value_beBytes]
  exact Nat.mod_eq_of_lt word.isLt

/-- The two encodings of a stored value agree on single small bytes only. -/
theorem storedValue_eq_iff (word : Word) :
    Evm.storedValue word = strippedBytes word ↔ 0 < word.toNat ∧ word.toNat < 128 := by
  have number := value_strippedBytes word
  have shortest : Shortest (strippedBytes word) := shortest_dropWhile _
  have unfolded : Evm.storedValue word =
      if (strippedBytes word).length = 1 ∧ (strippedBytes word).all (· < 0x80)
      then strippedBytes word
      else UInt8.ofNat (0x80 + (strippedBytes word).length) :: strippedBytes word := rfl
  rw [unfolded]
  constructor
  · intro same
    split at same
    · rename_i single
      obtain ⟨byte, alone⟩ := List.length_eq_one_iff.mp single.1
      -- A single byte without a zero in front is the number itself.
      rw [alone] at number shortest
      have small : byte.toNat < 128 := by simpa [alone, UInt8.lt_iff_toNat_lt] using single.2
      have positive := shortest.pow_le_value
      simp only [List.length_nil, Nat.pow_zero] at positive
      rw [number] at positive
      simp only [value, List.foldl_cons, List.foldl_nil, Nat.zero_mul, Nat.zero_add] at number
      omega
    · -- With a length byte in front it is longer.
      have lengths := congrArg List.length same
      simp at lengths
  · rintro ⟨positive, small⟩
    -- A number below 0x80 is one byte, and stands for itself.
    have byte : (UInt8.ofNat word.toNat).toNat = word.toNat := by
      rw [UInt8.toNat_ofNat']
      omega
    have alone : strippedBytes word = [UInt8.ofNat word.toNat] := by
      apply shortest.eq_of_value_eq
      · intro zero
        have nothing := congrArg UInt8.toNat (Option.some.inj zero)
        rw [byte] at nothing
        simp only [UInt8.toNat_zero] at nothing
        omega
      · rw [number]
        simp [value, byte]
    rw [if_pos]
    rw [alone]
    simpa [UInt8.lt_iff_toNat_lt, byte] using small

/--
The two computations build the same tries.

The storage tries of every listed account have the same keys and values, and so has the state trie.
-/
def RootsAgree (host : Host) (iteration iteration' : StateOrder) (vm : Evm) : Prop :=
  (∀ address ∈ vm.state.addresses, vm.storageTrie host iteration address =
    StateFork.storageTrie host iteration' (vm.state.getAccount address).storage) ∧
  vm.stateTrie host iteration = vm.state.stateTrie host iteration'

/--
What a run has to leave for the two to agree.

Every value in the account's storage is a single byte below 0x80 and not zero, and if there is any
then no other account was touched.
-/
structure Comparable (account : Address) (fork : StateFork) : Prop where
  small : ∀ entry ∈ (fork.getAccount account).storage.entries,
    0 < entry.2.toNat ∧ entry.2.toNat < 128
  alone : (fork.getAccount account).storage.entries ≠ [] →
    ∀ address ∈ fork.addresses, address = account

section Agreement

variable {iteration iteration' : StateOrder} {vm : Evm}

/-- An empty storage map has an empty trie. -/
theorem slots_trie_of_empty {storage : HashMap Word Word} (empty : storage.entries = [])
    (entered : (Sigma fun _ : Word => Word) → Bytes × Bytes) :
    new.insertAll ((iteration.slots storage).map entered) = new := by
  have none_ : iteration.slots storage = [] :=
    List.Perm.eq_nil (empty ▸ iteration.slots_perm storage)
  rw [none_]
  rfl

/-- Small values are entered alike into both storage tries. -/
theorem ReadBack.storageTrie_eq (back : ReadBack account vm) (comparable : Comparable account vm.state)
    (apart : SlotsApart host (vm.state.getAccount account).storage) {address : Address}
    (listed : address ∈ vm.state.addresses) :
    vm.storageTrie host iteration address =
      StateFork.storageTrie host iteration' (vm.state.getAccount address).storage := by
  simp only [Evm.storageTrie, StateFork.storageTrie, back.storage]
  by_cases empty : (vm.state.getAccount account).storage.entries = []
  · -- Nothing is stored anywhere.
    have none_ : (vm.state.getAccount address).storage.entries = [] := by
      by_cases own : address = account
      · rw [own, empty]
      · exact back.bare.others address own
    rw [slots_trie_of_empty empty, slots_trie_of_empty none_]
  · -- There is storage, so no other account was touched.
    obtain rfl := comparable.alone empty address listed
    have encoded : ((iteration.slots (vm.state.getAccount address).storage).map fun entry =>
          (toBeBytes (host.keccak256 (toBeBytes entry.1)), Evm.storedValue entry.2)) =
        (iteration.slots (vm.state.getAccount address).storage).map fun entry =>
          (toBeBytes (host.keccak256 (toBeBytes entry.1)), strippedBytes entry.2) := by
      apply List.map_congr_left
      intro entry member
      rw [(storedValue_eq_iff entry.2).mpr
        (comparable.small entry ((iteration.slots_perm _).mem_iff.mp member))]
    rw [encoded]
    exact slots_trie_eq strippedBytes apart (List.Perm.refl _) iteration iteration'

/-- Where the storage tries agree, so do the accounts. -/
theorem ReadBack.stateTrie_eq (back : ReadBack account vm)
    (apart : AddressesApart host vm.state.addresses)
    (storages : ∀ address ∈ vm.state.addresses, vm.storageTrie host iteration address =
      StateFork.storageTrie host iteration' (vm.state.getAccount address).storage) :
    vm.stateTrie host iteration = vm.state.stateTrie host iteration' := by
  have listing : vm.addresses.Perm vm.state.addresses :=
    (List.perm_ext_iff_of_nodup (List.nodup_dedup _) (List.nodup_dedup _)).mpr back.addresses
  apply accounts_trie_eq (List.nodup_dedup _) _ listing
  · intro address member
    -- Only the storage root could tell the accounts apart.
    have plain := back.bare.plain address
    simp only [Evm.stateAccount, StateFork.stateAccount, Evm.computeStorageRoot,
      storages address ((back.addresses address).mp member), back.nonces, back.balances,
      back.contracts, plain.nonce, plain.balance, plain.code]
    rfl
  · intro left memberLeft right memberRight hashes
    exact apart ((back.addresses left).mp memberLeft) ((back.addresses right).mp memberRight) hashes

/-- Of equal storage tries, each slot was entered with the same bytes. -/
theorem storedValue_of_trie_eq {storage : HashMap Word Word} (apart : SlotsApart host storage)
    (same : new.insertAll ((iteration.slots storage).map fun entry =>
        (toBeBytes (host.keccak256 (toBeBytes entry.1)), Evm.storedValue entry.2)) =
      StateFork.storageTrie host iteration' storage)
    {entry : Sigma fun _ : Word => Word} (member : entry ∈ storage.entries) :
    Evm.storedValue entry.2 = strippedBytes entry.2 := by
  -- Each trie gives back what was entered for the slot.
  have first := get_hashed (fun entry => Evm.storedValue entry.2) (iteration.nodup_slots storage)
    (apart.slots iteration) ((iteration.slots_perm storage).mem_iff.mpr member)
  have second := get_hashed (fun entry => strippedBytes entry.2) (iteration'.nodup_slots storage)
    (apart.slots iteration') ((iteration'.slots_perm storage).mem_iff.mpr member)
  rw [same] at first
  exact Option.some.inj (first.symm.trans second)

/-- If the tries agree, the run left nothing that they treat differently. -/
theorem ReadBack.comparable (back : ReadBack account vm)
    (apart : SlotsApart host (vm.state.getAccount account).storage)
    (agree : RootsAgree host iteration iteration' vm) : Comparable account vm.state := by
  have storages := agree.1
  simp only [Evm.storageTrie, back.storage] at storages
  constructor
  · intro entry member
    -- An account with storage is listed, so its tries are among those that agree.
    have listed : account ∈ vm.state.addresses :=
      (back.bare.mem_addresses account).mpr (back.bare.listed (List.ne_nil_of_mem member))
    exact (storedValue_eq_iff entry.2).mp
      (storedValue_of_trie_eq apart (storages account listed) member)
  · intro stores address listed
    by_contra other
    -- Another account got the storage of this one, although it has none.
    have empty := back.bare.others address other
    have tries := storages address listed
    rw [StateFork.storageTrie, slots_trie_of_empty empty] at tries
    obtain ⟨entry, member⟩ := List.exists_mem_of_ne_nil _ stores
    have found := get_hashed (fun entry => Evm.storedValue entry.2)
      (iteration.nodup_slots _) (apart.slots iteration)
      ((iteration.slots_perm _).mem_iff.mpr member)
    rw [tries] at found
    cases found

end Agreement

/--
The two state roots agree exactly on what they encode alike.

After a run from the empty state that executes no opcode of the call or create family, the old maps
and the fork give the same tries just when every stored value is a single byte below 0x80 and not
zero, and no account without storage stands beside one that has some.
-/
theorem roots_agree_iff (host : Host) (iteration iteration' : StateOrder) (fuel : Nat)
    (code : Bytes) (gasLimit : Nat) (context : TxContext) (result : ExecutionResult) (vm : Evm)
    (closed : NeverOpens host { Evm.newWithGas code gasLimit with context })
    (ran : run host fuel { Evm.newWithGas code gasLimit with context } = .value (result, vm))
    (addresses : AddressesApart host vm.state.addresses)
    (slots : SlotsApart host (vm.state.getAccount context.address).storage) :
    RootsAgree host iteration iteration' vm ↔ Comparable context.address vm.state := by
  have back := readBack_of_run closed ran
  constructor
  · exact back.comparable slots
  · intro comparable
    -- The storage tries come first, since the accounts hold their roots.
    have storages : ∀ address ∈ vm.state.addresses, vm.storageTrie host iteration address =
        StateFork.storageTrie host iteration' (vm.state.getAccount address).storage :=
      fun address listed => back.storageTrie_eq comparable slots listed
    exact ⟨storages, back.stateTrie_eq addresses storages⟩

/-- Code that stores a byte in slot one. -/
def storeByte (byte : UInt8) : Bytes := [0x60, byte, 0x60, 1, 0x55]

/-- A small value is entered alike. -/
theorem roots_agree_iff_small_value : ∃ result vm,
    run (tableHost []) 5 { Evm.newWithGas (storeByte 42) 100000 with
      context := { address := 0x0a } } = .value (result, vm) ∧
    RootsAgree (tableHost []) .listed .listed vm := by
  have ended : endsWith (run (tableHost []) 5 { Evm.newWithGas (storeByte 42) 100000 with
      context := { address := 0x0a } }) (fun ended => ended.2.state.addresses = [0x0a] ∧
        (ended.2.state.getAccount 0x0a).storage.entries = [⟨1, 42⟩]) = true := by
    decide +kernel
  obtain ⟨⟨result, vm⟩, ran, noted⟩ := exists_of_endsWith ended
  obtain ⟨addresses, slots⟩ := of_decide_eq_true noted
  refine ⟨result, vm, ran, (roots_agree_iff _ _ _ _ _ _ _ _ _
    (neverOpens_of_opensNothing (by decide)) ran ?_ ?_).mpr ⟨?_, ?_⟩⟩
  · -- There is one address, and one slot.
    intro left memberLeft right memberRight _
    rw [Set.mem_ofPred_eq, addresses] at memberLeft memberRight
    rw [List.mem_singleton.mp memberLeft, List.mem_singleton.mp memberRight]
  · intro left memberLeft right memberRight _
    rw [Set.mem_ofPred_eq, AList.keys, slots] at memberLeft memberRight
    exact (List.mem_singleton.mp memberLeft).trans (List.mem_singleton.mp memberRight).symm
  · intro entry member
    rw [slots, List.mem_singleton] at member
    subst member
    decide
  · intro _ address listed
    rw [addresses] at listed
    exact List.mem_singleton.mp listed

/-- The hashes that the roots ask for when slot one holds 200. -/
def storeByteHost : Host := tableHost [
  (beBytes 32 1, 0xb10e2d527612073b26eecdfd717e6a320cf44b4afac2b0732d9fcbe2b7fa0cf6),
  (beBytes 20 0x0a, 0xd9ed35852650f28d7a8f73c7ba49bcd72d97edf8d731797e5a2728559b865552),
  ([], 0xc5d2460186f7233c927e7db2dcc703c0e500b653ca82273b7bfad8045d85a470),
  -- The leaf with the bare byte, and the one with the byte as an encoded string.
  ([0xe4, 0xa1, 0x20, 0xb1, 0x0e, 0x2d, 0x52, 0x76, 0x12, 0x07, 0x3b, 0x26, 0xee, 0xcd, 0xfd, 0x71,
    0x7e, 0x6a, 0x32, 0x0c, 0xf4, 0x4b, 0x4a, 0xfa, 0xc2, 0xb0, 0x73, 0x2d, 0x9f, 0xcb, 0xe2, 0xb7,
    0xfa, 0x0c, 0xf6, 0x81, 0xc8],
    0xf37367da09063230e3ee1b31edd7afd6120b76296401be6bca88a7fa95c941f0),
  ([0xe5, 0xa1, 0x20, 0xb1, 0x0e, 0x2d, 0x52, 0x76, 0x12, 0x07, 0x3b, 0x26, 0xee, 0xcd, 0xfd, 0x71,
    0x7e, 0x6a, 0x32, 0x0c, 0xf4, 0x4b, 0x4a, 0xfa, 0xc2, 0xb0, 0x73, 0x2d, 0x9f, 0xcb, 0xe2, 0xb7,
    0xfa, 0x0c, 0xf6, 0x82, 0x81, 0xc8],
    0x4e05e0192d92867cde657332e4d893cf4d1fbbfca597067a7a385b876efe0a21)]

/--
A value of two hundred is entered in two ways.

The frame's trie holds it as an encoded string and the fork's trie as the bare byte, so the account
has two storage roots and the state has two.
-/
theorem roots_of_a_larger_value_differ : ∃ result vm,
    opensNothing (storeByte 200) = true ∧
    run storeByteHost 5 { Evm.newWithGas (storeByte 200) 100000 with
      context := { address := 0x0a } } = .value (result, vm) ∧
    vm.stateTrie storeByteHost .listed ≠ vm.state.stateTrie storeByteHost .listed := by
  -- The two tries differ already at the frame's own account.
  have ended : endsWith (run storeByteHost 5 { Evm.newWithGas (storeByte 200) 100000 with
      context := { address := 0x0a } }) (fun ended =>
        (ended.2.stateTrie storeByteHost .listed).get
            (toBeBytes (storeByteHost.keccak256 (beBytes 20 0x0a))) ≠
          (ended.2.state.stateTrie storeByteHost .listed).get
            (toBeBytes (storeByteHost.keccak256 (beBytes 20 0x0a)))) = true := by
    decide +kernel
  obtain ⟨⟨result, vm⟩, ran, noted⟩ := exists_of_endsWith ended
  refine ⟨result, vm, by decide, ran, fun same => ?_⟩
  have differ := of_decide_eq_true noted
  simp only [same] at differ
  exact differ rfl

end MiniEvm
