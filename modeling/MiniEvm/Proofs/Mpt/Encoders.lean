import MiniEvm.Mpt.Account
import MiniEvm.Proofs.Mpt.Encoding
import MiniEvm.Rlp.Strings
import MiniEvm.Vm.Precompiles

/-! The three encoders write the same lists of strings, which read back and are the shortest
ones. -/

namespace MiniEvm

open BigEndian RlpFormat

section Strings

variable {strings : List Bytes}

/-- Short strings are all encoded as the standard asks for. -/
theorem map_rlpBytes (small : ∀ bytes ∈ strings, bytes.length < 2 ^ 64) :
    strings.map rlpBytes = strings.map encodeString :=
  List.map_congr_left fun bytes member => rlpBytes_eq (small bytes member)

/-- A list of strings that fits into memory is encoded as the format asks. -/
theorem rlpList_strings (small : (strings.map rlpBytes).flatten.length < 2 ^ 64) :
    rlpList (strings.map rlpBytes) = encodeList (strings.map encodeString) ∧
      (strings.map encodeString).flatten.length < 2 ^ 64 := by
  have each : ∀ bytes ∈ strings, bytes.length < 2 ^ 64 := by
    intro bytes member
    have inside : rlpBytes bytes ∈ strings.map rlpBytes := List.mem_map_of_mem member
    -- Each string is part of the whole, and so is no longer than that.
    have part := (List.sublist_flatten_of_mem inside).length_le
    exact Nat.lt_of_le_of_lt ((length_le_rlpBytes bytes).trans part) small
  rw [map_rlpBytes each] at small ⊢
  exact ⟨rlpList_eq small, small⟩

/-- The encoding of a list of strings: it reads back whole, and nothing shorter or else does. -/
structure StringsExact (strings : List Bytes) : Prop where
  decodes : readStrings (rlpList (strings.map rlpBytes)) = some (strings, [])
  written : StringsForm strings (rlpList (strings.map rlpBytes))
  shortest : ∀ form, StringsForm strings form →
    (rlpList (strings.map rlpBytes)).length ≤ form.length
  only : ∀ bytes, readStrings bytes = some (strings, []) → bytes = rlpList (strings.map rlpBytes)

/-- A list of strings is as well, if it is not too long. -/
theorem stringsExact (small : (strings.map rlpBytes).flatten.length < 2 ^ 64) :
    StringsExact strings := by
  obtain ⟨same, small'⟩ := rlpList_strings small
  constructor
  · rw [same]
    exact readStrings_encodeList small'
  · rw [same]
    exact stringsForm_encodeList small'
  · intro form written
    rw [same]
    exact length_encodeList_le written
  · intro bytes read
    rw [same]
    exact encodeList_of_readStrings read

/-- Lists of strings are told apart by their encodings. -/
theorem strings_inj {strings' : List Bytes}
    (small : (strings.map rlpBytes).flatten.length < 2 ^ 64)
    (small' : (strings'.map rlpBytes).flatten.length < 2 ^ 64)
    (same : rlpList (strings.map rlpBytes) = rlpList (strings'.map rlpBytes)) :
    strings = strings' := by
  -- One encoding is decoded in two ways.
  have one := (stringsExact small).decodes
  rw [same, (stringsExact small').decodes] at one
  exact (Prod.mk.inj (Option.some.inj one)).1.symm

/-- Numbers are told apart by their digits. -/
theorem digits_inj {number number' : Nat} (same : digits number = digits number') :
    number = number' := by
  rw [← value_digits number, same, value_digits]

/-- A string of at most 55 bytes takes one byte more at most. -/
theorem length_rlpBytes_le (bytes : Bytes) (short : bytes.length ≤ 55) :
    (rlpBytes bytes).length ≤ bytes.length + 1 := by
  unfold rlpBytes
  rw [if_pos short]
  split
  · omega
  · simp

end Strings

section Accounts

/-- The four fields of an account as strings, the numbers without zeros in front. -/
def StateAccount.strings (account : StateAccount) : List Bytes :=
  [digits account.nonce, digits account.balance.toNat, toBeBytes account.storageRoot,
    toBeBytes account.codeHash]

/-- The encoder of accounts treats short strings as that of nodes does. -/
theorem rlpEncode_bytes_eq {bytes : Bytes} (short : bytes.length ≤ 55) :
    StateAccount.rlpEncode.bytes bytes = rlpBytes bytes := by
  unfold StateAccount.rlpEncode.bytes rlpBytes
  rw [if_pos short]

/-- Integers are encoded by their digits. -/
theorem rlpEncode_integer_eq {number : Nat} (small : number < 2 ^ 64) :
    StateAccount.rlpEncode.integer number = rlpBytes (digits number) := by
  have few : (digits number).length ≤ 8 := length_digits_le small
  have written : (beBytes 8 number).dropWhile (· = 0) = digits number := dropWhile_beBytes small
  unfold StateAccount.rlpEncode.integer
  rw [written, rlpEncode_bytes_eq (Nat.zero_le _),
    rlpEncode_bytes_eq (few.trans (by decide))]
  -- Zero has no digits, so it is the empty string on both sides.
  split
  · rename_i zero
    rw [zero]
    rfl
  · rfl

/-- A word has 32 bytes. -/
theorem length_toBeBytes (word : Word) : (toBeBytes word).length = 32 := length_beBytes 32 _

/-- A word has 32 digits at most. -/
theorem length_digits_word (word : Word) : (digits word.toNat).length ≤ 32 :=
  length_digits_le word.isLt

/-- The encoder of accounts is the one of nodes, applied to the four fields. -/
theorem rlpEncode_account {account : StateAccount} (small : account.nonce < 2 ^ 64) :
    account.rlpEncode = rlpList (account.strings.map rlpBytes) := by
  have balance : (toBeBytes account.balance).dropWhile (· = 0) = digits account.balance.toNat :=
    dropWhile_beBytes account.balance.isLt
  -- The other three are strings of less than 56 bytes.
  have few := length_digits_word account.balance
  have root := length_toBeBytes account.storageRoot
  have code := length_toBeBytes account.codeHash
  unfold StateAccount.rlpEncode rlpList StateAccount.strings
  rw [rlpEncode_integer_eq small, balance, rlpEncode_bytes_eq (by omega),
    rlpEncode_bytes_eq (by omega), rlpEncode_bytes_eq (by omega)]
  rfl

/-- An account is encoded in few bytes. -/
theorem length_accountStrings {account : StateAccount} (small : account.nonce < 2 ^ 64) :
    (account.strings.map rlpBytes).flatten.length < 2 ^ 64 := by
  -- Eight bytes for the nonce, and 32 for each of the others, beside their prefixes.
  have nonce : (digits account.nonce).length ≤ 8 := length_digits_le small
  have balance := length_digits_word account.balance
  have root := length_toBeBytes account.storageRoot
  have code := length_toBeBytes account.codeHash
  have first := length_rlpBytes_le _ (nonce.trans (by decide))
  have second := length_rlpBytes_le _ (balance.trans (by decide))
  have third := length_rlpBytes_le (toBeBytes account.storageRoot) (by omega)
  have fourth := length_rlpBytes_le (toBeBytes account.codeHash) (by omega)
  simp only [StateAccount.strings, List.map_cons, List.map_nil, List.flatten_cons,
    List.flatten_nil, List.length_append, List.length_nil]
  omega

/-- Accounts with the same encoding are the same. -/
theorem rlpEncode_account_inj {account account' : StateAccount} (small : account.nonce < 2 ^ 64)
    (small' : account'.nonce < 2 ^ 64) (same : account.rlpEncode = account'.rlpEncode) :
    account = account' := by
  rw [rlpEncode_account small, rlpEncode_account small'] at same
  have fields := strings_inj (length_accountStrings small) (length_accountStrings small') same
  obtain ⟨nonce, balance, root, code⟩ := account
  obtain ⟨nonce', balance', root', code'⟩ := account'
  -- Each of the four strings gives its field back.
  simp only [StateAccount.strings, List.cons.injEq, and_true] at fields
  obtain ⟨nonces, balances, roots, codes⟩ := fields
  rw [digits_inj nonces, BitVec.eq_of_toNat_eq (digits_inj balances), toBeBytes_injective roots,
    toBeBytes_injective codes]

end Accounts

section Creations

/-- What the address of a creation is derived from, as strings. -/
def creationStrings (sender : Address) (nonce : Nat) : List Bytes :=
  [beBytes 20 sender.toNat, digits nonce]

/-- A nonce is encoded by its digits. -/
theorem encodeNonce_eq {nonce : Nat} (small : nonce < 2 ^ 64) :
    encodeNonce nonce = rlpBytes (digits nonce) := by
  have few : (digits nonce).length ≤ 8 := length_digits_le small
  have written : (beBytes 8 nonce).dropWhile (· = 0) = digits nonce := dropWhile_beBytes small
  unfold encodeNonce rlpBytes
  -- Zero has no digits, and is encoded as the empty string.
  split
  · rename_i zero
    rw [zero]
    rfl
  · simp only [written]
    split
    · rfl
    · rw [if_pos (few.trans (by decide))]

/-- The encoder of creations is the one of nodes, applied to the sender and its nonce. -/
theorem rlpEncodeCreate_eq (sender : Address) {nonce : Nat} (small : nonce < 2 ^ 64) :
    rlpEncodeCreate sender nonce = rlpList ((creationStrings sender nonce).map rlpBytes) := by
  have length := length_beBytes 20 sender.toNat
  have few : (digits nonce).length ≤ 8 := length_digits_le small
  have written := length_rlpBytes_le _ (few.trans (by decide : 8 ≤ 55))
  -- Twenty bytes are a short string, whose prefix is 0x94.
  have address : rlpBytes (beBytes 20 sender.toNat) = 0x94 :: beBytes 20 sender.toNat := by
    unfold rlpBytes
    rw [if_neg (by omega), if_pos (by omega), length]
    rfl
  unfold rlpEncodeCreate rlpList creationStrings
  simp only [encodeNonce_eq small, List.map_cons, List.map_nil, address, List.flatten_cons,
    List.flatten_nil, List.append_nil, List.cons_append]
  rw [if_pos]
  simp only [List.length_cons, List.length_append]
  omega

/-- What a created address is made of is short. -/
theorem length_creationStrings (sender : Address) {nonce : Nat} (small : nonce < 2 ^ 64) :
    ((creationStrings sender nonce).map rlpBytes).flatten.length < 2 ^ 64 := by
  have length := length_beBytes 20 sender.toNat
  have few : (digits nonce).length ≤ 8 := length_digits_le small
  have first := length_rlpBytes_le (beBytes 20 sender.toNat) (by omega)
  have second := length_rlpBytes_le _ (few.trans (by decide))
  simp only [creationStrings, List.map_cons, List.map_nil, List.flatten_cons,
    List.flatten_nil, List.length_append, List.length_nil]
  omega

/-- The encoding tells the creator and the nonce. -/
theorem rlpEncodeCreate_inj {sender sender' : Address} {nonce nonce' : Nat}
    (small : nonce < 2 ^ 64) (small' : nonce' < 2 ^ 64)
    (same : rlpEncodeCreate sender nonce = rlpEncodeCreate sender' nonce') :
    sender = sender' ∧ nonce = nonce' := by
  rw [rlpEncodeCreate_eq sender small, rlpEncodeCreate_eq sender' small'] at same
  have strings := strings_inj (length_creationStrings sender small)
    (length_creationStrings sender' small') same
  simp only [creationStrings, List.cons.injEq, and_true] at strings
  obtain ⟨senders, nonces⟩ := strings
  refine ⟨?_, digits_inj nonces⟩
  -- The sender is told by the number that its twenty bytes write.
  have numbers := congrArg value senders
  rw [value_beBytes, value_beBytes] at numbers
  apply BitVec.eq_of_toNat_eq
  have few := sender.isLt
  have few' := sender'.isLt
  omega

end Creations

/--
Nodes, accounts and creation addresses share one encoding of lists of strings.

It is read back by a decoder of the format, and is the shortest form of what it encodes.
-/
theorem rlp_encoders_agree :
    (∀ strings : List Bytes, (strings.map rlpBytes).flatten.length < 2 ^ 64 →
        StringsExact strings) ∧
      (∀ account : StateAccount, account.nonce < 2 ^ 64 →
        account.rlpEncode = rlpList (account.strings.map rlpBytes)) ∧
      Set.InjOn StateAccount.rlpEncode (fun account => account.nonce < 2 ^ 64) ∧
      (∀ (sender : Address) (nonce : Nat), nonce < 2 ^ 64 →
        rlpEncodeCreate sender nonce = rlpList ((creationStrings sender nonce).map rlpBytes)) ∧
      Set.InjOn (fun creation : Address × Nat => rlpEncodeCreate creation.1 creation.2)
        (fun creation => creation.2 < 2 ^ 64) := by
  -- All three encoders come down to a list of strings, whose decoder tells them apart.
  refine ⟨fun _ small => stringsExact small, fun _ small => rlpEncode_account small, ?_,
    fun sender _ small => rlpEncodeCreate_eq sender small, ?_⟩
  · intro account small account' small' same
    exact rlpEncode_account_inj small small' same
  · intro creation small creation' small' same
    obtain ⟨senders, nonces⟩ := rlpEncodeCreate_inj small small' same
    exact Prod.ext senders nonces

end MiniEvm
