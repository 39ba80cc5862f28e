import MiniEvm.Proofs.Vm.Runs

/-! What the old maps of a frame hold when its run is over. -/

namespace MiniEvm

open Frames

section ReadBack

variable {entries : List (Sigma fun _ : Address => AccountState)} {evm : Evm}

/-- Reading accounts back enters the balance and the nonce of each of them, and no others. -/
theorem foldl_readBackAccount_lookup (nodup : entries.NodupKeys) (address : Address) :
    (entries.foldl readBackAccount evm).balances.lookup address =
        ((entries.dlookup address).map AccountState.balance).or (evm.balances.lookup address) ∧
      (entries.foldl readBackAccount evm).nonces.lookup address =
        ((entries.dlookup address).map AccountState.nonce).or (evm.nonces.lookup address) := by
  -- Each address comes up once, so whatever order they come in, none overwrites another.
  induction entries generalizing evm with
  | nil => exact ⟨rfl, rfl⟩
  | cons entry rest ih =>
    obtain ⟨fresh, nodup⟩ := List.nodupKeys_cons.mp nodup
    obtain ⟨balances, nonces⟩ := @ih (readBackAccount evm entry) nodup
    rw [List.foldl_cons, balances, nonces]
    simp only [readBackAccount]
    by_cases here : address = entry.1
    · subst here
      rw [List.dlookup_eq_none.mpr fresh, List.dlookup_cons_eq, AList.lookup_insert,
        AList.lookup_insert]
      simp
    · rw [List.dlookup_cons_ne _ _ here, AList.lookup_insert_ne here, AList.lookup_insert_ne here]
      exact ⟨rfl, rfl⟩

/-- The one storage map is that of some account that has storage, or what it was if none has. -/
theorem foldl_readBackAccount_storage (entries : List (Sigma fun _ : Address => AccountState))
    (evm : Evm) :
    (∃ entry ∈ entries, entry.2.storage.entries ≠ [] ∧
      (entries.foldl readBackAccount evm).storage = entry.2.storage) ∨
    (entries.foldl readBackAccount evm).storage = evm.storage ∧
      ∀ entry ∈ entries, entry.2.storage.entries = [] := by
  induction entries generalizing evm with
  | nil => exact .inr ⟨rfl, by simp⟩
  | cons entry rest ih =>
    rw [List.foldl_cons]
    rcases ih (readBackAccount evm entry) with ⟨later, member, stores, left⟩ | ⟨same, empty⟩
    · exact .inl ⟨later, List.mem_cons_of_mem _ member, stores, left⟩
    · -- Nothing with storage came after this entry, so it decides.
      rw [same]
      by_cases none_ : entry.2.storage.entries = []
      · refine .inr ⟨by simp [readBackAccount, none_], ?_⟩
        intro other member
        rcases List.mem_cons.mp member with rfl | later
        · exact none_
        · exact empty other later
      · exact .inl ⟨entry, List.mem_cons_self, none_, by simp [readBackAccount, none_]⟩

/-- An account with storage that is read back last decides what the storage map holds. -/
theorem foldl_readBackAccount_last {entry : Sigma fun _ : Address => AccountState}
    (stores : entry.2.storage.entries ≠ []) :
    ((entries ++ [entry]).foldl readBackAccount evm).storage = entry.2.storage := by
  rw [List.foldl_append]
  simp [readBackAccount, stores]

end ReadBack

/-- What a run leaves that stopped in a state, if the modified accounts are iterated in an order. -/
def leftBy (entries : List (Sigma fun _ : Address => AccountState)) (last : Evm) : Evm :=
  { entries.foldl readBackAccount last with state := last.state.clearTransientStorage }

/-- The old maps hold the balance and the nonce of every modified account. -/
def HoldsAccounts (evm : Evm) : Prop :=
  ∀ address account, evm.state.dirtyState.lookup address = some account →
    evm.balances.lookup address = some account.balance ∧
      evm.nonces.lookup address = some account.nonce

/-- The storage map is the storage of the executing account, if that is modified. -/
def HoldsStorage (evm : Evm) : Prop :=
  ∀ account, evm.state.dirtyState.lookup evm.selfAddress = some account →
    ∀ slot, evm.storage.lookup slot = account.storage.lookup slot

/--
The modified accounts have one storage among them, that of the executing account.

If none has any at all, then nothing is left in the storage map either.
-/
def SharesStorage (evm : Evm) : Prop :=
  ∀ account, evm.state.dirtyState.lookup evm.selfAddress = some account →
    (∀ entry ∈ evm.state.dirtyState.entries, entry.2.storage.entries = [] ∨
      ∀ slot, entry.2.storage.lookup slot = account.storage.lookup slot) ∧
    ((∀ entry ∈ evm.state.dirtyState.entries, entry.2.storage.entries = []) →
      evm.storage.entries = [])

section Orders

variable {entries : List (Sigma fun _ : Address => AccountState)} {last : Evm}

@[simp] theorem leftBy_selfAddress : (leftBy entries last).selfAddress = last.selfAddress := by
  obtain ⟨storage, balances, nonces, contracts, same⟩ := foldl_readBackAccount_eq entries last
  rw [leftBy, same]
  rfl

/-- Balances and nonces do not depend on the order. -/
theorem holdsAccounts_leftBy (perm : entries.Perm last.state.dirtyState.entries) :
    HoldsAccounts (leftBy entries last) := by
  intro address account found
  -- The fork has one account for an address, whatever order it is listed in.
  have nodup : entries.NodupKeys :=
    (List.perm_nodupKeys perm).mpr last.state.dirtyState.nodupKeys
  have listed : entries.dlookup address = some account :=
    (List.perm_dlookup address nodup perm).trans found
  -- So every address is written once, or not at all.
  obtain ⟨balances, nonces⟩ := @foldl_readBackAccount_lookup entries last nodup address
  rw [listed] at balances nonces
  exact ⟨balances, nonces⟩

/-- The storage map does not either, where only one storage can be left in it. -/
theorem holdsStorage_leftBy (shares : SharesStorage last)
    (perm : entries.Perm last.state.dirtyState.entries) : HoldsStorage (leftBy entries last) := by
  intro account found slot
  rw [leftBy_selfAddress] at found
  obtain ⟨one, nothing⟩ := shares account found
  rcases foldl_readBackAccount_storage entries last with ⟨entry, member, stores, left⟩ |
    ⟨same, empty⟩
  · -- Some account decided, and its storage is that of the executing one.
    have alike := (one entry (perm.mem_iff.mp member)).resolve_left stores
    exact (congrArg (AList.lookup slot) left).trans (alike slot)
  · -- No account decided, so the map is as it was and the account has nothing stored.
    have empty : ∀ entry ∈ last.state.dirtyState.entries, entry.2.storage.entries = [] :=
      fun entry member => empty entry (perm.mem_iff.mpr member)
    have own : account.storage.entries = [] :=
      empty ⟨last.selfAddress, account⟩ (AList.mem_lookup_iff.mp found)
    have left : (leftBy entries last).storage.entries = [] :=
      (congrArg AList.entries same).trans (nothing empty)
    simp only [AList.lookup, left, own]

/-- And if it does not, whatever the order, then only one storage could be left. -/
theorem sharesStorage_of_holds (holds : ∀ entries, entries.Perm last.state.dirtyState.entries →
    HoldsStorage (leftBy entries last)) : SharesStorage last := by
  intro account found
  have left : ∀ entries : List _, entries.Perm last.state.dirtyState.entries →
      ∀ slot, (entries.foldl readBackAccount last).storage.lookup slot =
        account.storage.lookup slot := by
    intro entries perm
    refine holds entries perm account ?_
    rw [leftBy_selfAddress]
    exact found
  constructor
  · intro entry member
    by_cases stores : entry.2.storage.entries = []
    · exact .inl stores
    · -- In some order this account comes last.
      right
      intro slot
      obtain ⟨front, back, split_⟩ := List.append_of_mem member
      have perm : ((front ++ back) ++ [entry]).Perm last.state.dirtyState.entries := by
        rw [split_]
        exact (List.perm_append_singleton _ _).trans List.perm_middle.symm
      rw [← left _ perm slot, foldl_readBackAccount_last stores]
  · intro empty
    have own : account.storage.entries = [] :=
      empty ⟨last.selfAddress, account⟩ (AList.mem_lookup_iff.mp found)
    rcases foldl_readBackAccount_storage last.state.dirtyState.entries last with
      ⟨entry, member, stores, _⟩ | ⟨same, _⟩
    · exact absurd (empty entry member) stores
    · -- A key of the map would have to be a key of the empty storage.
      by_contra stored
      obtain ⟨entry, member⟩ := List.exists_mem_of_ne_nil _ stored
      have read : last.storage.lookup entry.1 = some entry.2 := AList.mem_lookup_iff.mpr member
      have unread := left _ (List.Perm.refl _) entry.1
      rw [same, read] at unread
      simp only [AList.lookup, own, List.dlookup_nil] at unread
      cases unread

end Orders

/--
Which runs leave the storage of the executing account in the storage map.

Balances and nonces are always those of the fork. The storage is so, whatever the order in which the
modified accounts are iterated, if and only if there is only one storage among them when the loop
stops.
-/
theorem storage_read_back_iff (host : Host) (fuel : Nat) (evm final : Evm)
    (result : ExecutionResult) (ran : run host fuel evm = .value (result, final)) :
    ∃ history last, (machine host).Runs (syncLegacyStateIntoFork evm) history result last ∧
      final = leftBy (host.order last) last ∧
      (∀ entries, entries.Perm last.state.dirtyState.entries →
        HoldsAccounts (leftBy entries last)) ∧
      ((∀ entries, entries.Perm last.state.dirtyState.entries →
        HoldsStorage (leftBy entries last)) ↔ SharesStorage last) := by
  -- What is written back starts from the state in which the loop stopped.
  obtain ⟨history, last, looped, rfl⟩ := run_eq_value ran
  refine ⟨history, last, ⟨fuel, looped⟩, rfl, ?_, ?_, ?_⟩
  · exact fun entries perm => holdsAccounts_leftBy perm
  · exact sharesStorage_of_holds
  · exact fun shares entries perm => holdsStorage_leftBy shares perm

/-- Whether no account is modified but the executing one, and that one has storage. -/
def storesAlone (evm : Evm) : Bool :=
  evm.state.dirtyState.entries.all fun entry =>
    entry.1 = evm.selfAddress && !entry.2.storage.entries.isEmpty

theorem sharesStorage_of_storesAlone {evm : Evm} (alone : storesAlone evm = true) :
    SharesStorage evm := by
  have own : ∀ entry ∈ evm.state.dirtyState.entries,
      entry.1 = evm.selfAddress ∧ entry.2.storage.entries ≠ [] := by
    simpa [storesAlone] using alone
  intro account found
  constructor
  · rintro ⟨address, other⟩ member
    obtain ⟨rfl, _⟩ := own _ member
    -- One address holds one account.
    have same : evm.state.dirtyState.lookup evm.selfAddress = some other :=
      AList.mem_lookup_iff.mpr member
    obtain rfl := Option.some.inj (same.symm.trans found)
    exact .inr fun _ => rfl
  · intro empty
    -- The executing account is modified, so it has storage.
    have member : (⟨evm.selfAddress, account⟩ : Sigma fun _ : Address => AccountState) ∈
        evm.state.dirtyState.entries := AList.mem_lookup_iff.mp found
    exact absurd (empty _ member) (own _ member).2

/-- Code that stores a value in the fourth slot. -/
def storeAt (value : UInt8) : Bytes := [0x60, value, 0x60, 3, 0x55]

/-- Code that calls the account with the storing code. -/
def callStorer : Bytes :=
  [0x60, 0, 0x60, 0, 0x60, 0, 0x60, 0, 0x60, 0, 0x60, 0x0b, 0x61, 0xff, 0xff, 0xf1]

/-- A frame beside an account that stores a value of its own. -/
def storingFrame (code : Bytes) : Evm :=
  { Evm.newWithGas code 1000000 with
    context := { address := 0x0a }
    state := { baseState := (∅ : HashMap Address AccountState).insert 0x0b { code := storeAt 9 } } }

theorem storage_read_back_storing :
    ∃ final, run (tableHost []) 10 (storingFrame (storeAt 7)) = .value (.halt, final) ∧
      HoldsAccounts final ∧ HoldsStorage final := by
  have ran : endsWith (run (tableHost []) 10 (storingFrame (storeAt 7)))
      (fun ended => ended.1 = .halt) = true := by
    decide +kernel
  -- Where the loop stops, the storing account is the only modified one.
  have alone : endsWith ((machine (tableHost [])).trace 10
      (syncLegacyStateIntoFork (storingFrame (storeAt 7))))
      (fun ended => storesAlone ended.2.2) = true := by
    decide +kernel
  obtain ⟨⟨result, final⟩, ran, halted⟩ := exists_of_endsWith ran
  obtain rfl : result = .halt := of_decide_eq_true halted
  obtain ⟨⟨past, outcome, stop⟩, traced, alone⟩ := exists_of_endsWith alone
  obtain ⟨history, last, looped, rfl, accounts, storage⟩ :=
    storage_read_back_iff (tableHost []) 10 (storingFrame (storeAt 7)) final .halt ran
  -- The loop has one end, which was computed.
  obtain ⟨_, _, rfl⟩ := looped.unique ⟨10, traced⟩
  exact ⟨_, ran, accounts _ (List.Perm.refl _),
    storage.mpr (sharesStorage_of_storesAlone alone) _ (List.Perm.refl _)⟩

/-- After a call the storage map holds what the callee has stored. -/
theorem storage_map_taken_by_callee :
    ∃ result final account,
      run (tableHost []) 30 (storingFrame (callStorer ++ storeAt 7)) = .value (result, final) ∧
      final.state.dirtyState.lookup final.selfAddress = some account ∧
      account.storage.lookup 3 = some 7 ∧ final.storage.lookup 3 = some 9 ∧
      ¬ HoldsStorage final := by
  -- The callee stores nine before the caller stores seven in the same slot.
  have ran : endsWith (run (tableHost []) 30 (storingFrame (callStorer ++ storeAt 7)))
      (fun ended => ended.2.storage.lookup 3 = some 9 &&
        (ended.2.state.dirtyState.lookup ended.2.selfAddress).any fun account =>
          account.storage.lookup 3 = some 7) = true := by
    decide +kernel
  obtain ⟨⟨result, final⟩, ran, checked⟩ := exists_of_endsWith ran
  obtain ⟨taken, own⟩ := Bool.and_eq_true_iff.mp checked
  have taken : final.storage.lookup 3 = some 9 := of_decide_eq_true taken
  cases found : final.state.dirtyState.lookup final.selfAddress with
  | none => simp [found] at own
  | some account =>
    rw [found] at own
    have stored : account.storage.lookup 3 = some 7 := of_decide_eq_true own
    refine ⟨result, final, account, ran, found, stored, taken, fun holds => ?_⟩
    -- The map would have to hold both.
    have same := holds account found 3
    rw [taken, stored] at same
    exact absurd same (by decide)

end MiniEvm
