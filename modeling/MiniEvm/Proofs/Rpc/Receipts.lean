import MiniEvm.Proofs.Rpc.Replays
import MiniEvm.Proofs.Tx.Canonical

/-! Receipts are final: what the node tells under a hash is what its one execution came to. -/

namespace MiniEvm

open Frames RpcState RlpFormat

section Requests

variable {host : Host} {curve : Secp256k1} {iteration : NodeOrder} {fuel : Nat} {stateFree : Bool}
  {node node' : RpcState} {phase : Phase} {progress : Progress} {journal : Journal}
  {allowed : RpcState → List Phase → Phase → Prop} {state : StateFork} {server : Server}

/-- Something is true of the transaction that a request sends, and of its bytes. -/
def Sends (holds : SignedTransaction → Bytes → Prop) : Phase → Prop
  | .checking tx raw => holds tx raw
  | _ => True

/-- It is true of all that is waiting for the pool, and of all that the pool has taken. -/
structure AllSent (holds : SignedTransaction → Bytes → Prop) (requests : List Phase)
    (journal : Journal) : Prop where
  waiting : ∀ tx raw, .inserting tx raw ∈ requests → holds tx raw
  accepted : ∀ entry ∈ journal.accepted, holds entry.1 entry.2

/-- Only what was checked goes on to the pool. -/
theorem checked_of_advance {tx : SignedTransaction} {raw : Bytes}
    (advanced : advance host iteration fuel stateFree node phase = some (node', progress))
    (waiting : .inserting tx raw ∈ progress.remaining) : phase = .checking tx raw := by
  -- Only a phase that checks leads to one that inserts.
  cases phase with
  | checking tx' raw' =>
    simp only [MiniEvm.advance] at advanced
    split at advanced
    · split at advanced
      · cases advanced
        cases waiting
      · cases advanced
        cases List.mem_singleton.mp waiting
        rfl
    · cases advanced
  | inserting tx' raw' =>
    simp only [MiniEvm.advance] at advanced
    split at advanced <;> cases advanced
    · cases waiting
    · cases List.mem_singleton.mp waiting
  | announcing tx' =>
    cases advanced
    by_cases auto : node.autoMine = true
    · rw [if_pos auto] at waiting
      cases List.mem_singleton.mp waiting
    · rw [if_neg auto] at waiting
      cases waiting
  | locking reply senders =>
    simp only [MiniEvm.advance] at advanced
    split at advanced
    · cases advanced
      cases List.mem_singleton.mp waiting
    · cases advanced
  | executing reply batch =>
    cases batch with
    | nil =>
      cases advanced
      cases List.mem_singleton.mp waiting
    | cons transaction rest =>
      simp only [MiniEvm.advance] at advanced
      split at advanced
      · cases advanced
        cases List.mem_singleton.mp waiting
      · cases advanced
        cases waiting
      · cases advanced
        cases waiting
      · cases advanced
  | listing reply | selecting reply senders =>
    cases advanced
    cases List.mem_singleton.mp waiting
  | publishing reply =>
    cases advanced
    cases waiting

/-- The journal accepts what was waiting. -/
theorem accepted_of_enter {entry : SignedTransaction × Bytes}
    (member : entry ∈ (journal.enter host fuel node phase).accepted) :
    entry ∈ journal.accepted ∨ phase = .inserting entry.1 entry.2 := by
  -- The journal takes up a transaction where it is inserted, and nowhere else.
  cases phase with
  | inserting tx raw =>
    simp only [Journal.enter] at member
    split at member
    · exact .inl member
    · refine (List.mem_append.mp member).imp_right fun own => ?_
      rw [List.mem_singleton.mp own]
  | executing reply batch =>
    left
    cases batch with
    | nil => exact member
    | cons transaction rest =>
      simp only [Journal.enter] at member
      split at member <;> exact member
  | _ => exact .inl member

/-- What is true of all that is sent is true of all that is accepted. -/
theorem allSent_of_audited {holds : SignedTransaction → Bytes → Prop}
    (sends : ∀ node others phase, allowed node others phase → Sends holds phase)
    (audited : Server.Audited host iteration allowed state server journal) :
    AllSent holds server.requests journal := by
  induction audited with
  | new => exact ⟨fun _ _ never => (nomatch never), fun _ never => nomatch never⟩
  | sendRawTransaction tx raw _ ih =>
    refine ⟨fun tx' raw' member => ?_, ih.accepted⟩
    rcases List.mem_append.mp member with old | new
    · exact ih.waiting tx' raw' old
    · cases List.mem_singleton.mp new
  | mine _ ih =>
    refine ⟨fun tx' raw' member => ?_, ih.accepted⟩
    rcases List.mem_append.mp member with old | new
    · exact ih.waiting tx' raw' old
    · cases List.mem_singleton.mp new
  | setAutoMine enabled _ ih => exact ⟨ih.waiting, ih.accepted⟩
  | request before phase after fuel _ permitted advanced ih =>
    constructor
    · intro tx raw member
      rw [List.append_assoc, List.mem_append, List.mem_append] at member
      rcases member with front | own | back
      · exact ih.waiting tx raw (List.mem_append_left _ front)
      · -- A request that waits for the pool has just been checked.
        obtain rfl := checked_of_advance advanced own
        exact sends _ _ _ permitted
      · exact ih.waiting tx raw (List.mem_append_right _ (List.mem_cons_of_mem _ back))
    · intro entry member
      rcases accepted_of_enter member with old | rfl
      · exact ih.accepted entry old
      · exact ih.waiting _ _ (List.mem_append_right _ List.mem_cons_self)

/-- Nothing is executed that was not accepted. -/
theorem mem_accepted_of_executed {entry : SignedTransaction × Bytes}
    (audited : Server.Audited host iteration allowed state server journal)
    (member : entry ∈ journal.executed) : entry ∈ journal.accepted :=
  (balanced_of_audited audited).mem_iff.mpr
    (List.mem_append_right _ (List.mem_append_left _ member))

/-- A decoded transaction carries the hash of its bytes. -/
theorem hash_of_decoded {tx : SignedTransaction} {raw : Bytes}
    (decoded : decodeRawTx host curve raw = .ok tx) : tx.hash = host.keccak256 raw := by
  obtain ⟨fields, _, same⟩ := readFrom_of_accepted decoded
  rw [same]
  rfl

end Requests

section Lookups

variable {host : Host} {iteration : NodeOrder} {fuel : Nat} {stateFree : Bool}
  {node node' : RpcState} {phase : Phase} {progress : Progress} {journal : Journal}

/-- The last receipt that was told under a hash. -/
def Journal.lastReceipt (journal : Journal) (hash : Word) : Option TxExecutionReceipt :=
  ((journal.executed.zip journal.receipts).reverse.find? fun entry => entry.1.1.hash = hash).map
    Prod.snd

/-- The node has the last receipt under every hash, and each one carries its hash. -/
structure LastTold (node : RpcState) (journal : Journal) : Prop where
  receipted : journal.executed.length = journal.receipts.length
  last : ∀ hash, node.receipts.lookup hash = journal.lastReceipt hash
  named : ∀ entry ∈ journal.executed.zip journal.receipts, entry.2.txHash = entry.1.1.hash

/-- The receipt of an applied transaction carries its hash. -/
theorem txHash_of_applied {state after : StateFork} {tx : SignedTransaction}
    {receipt : TxExecutionReceipt}
    (applied : applySignedTransaction host fuel state tx = .value (.ok receipt, after)) :
    receipt.txHash = tx.hash := by
  -- A rejected transaction has no receipt.
  rcases applySignedTransaction_cases applied with ⟨_, _, error, _⟩ | ⟨_, _, _, _, _, _, answer, _⟩
  · cases error
  · cases answer
    rfl

theorem LastTold.advance (told : LastTold node journal)
    (advanced : advance host iteration fuel stateFree node phase = some (node', progress)) :
    LastTold node' (journal.enter host fuel node phase) := by
  cases chainMove_of_advance journal advanced with
  | still _ same entered =>
    rw [entered]
    refine ⟨told.receipted, fun hash => ?_, told.named⟩
    rw [same]
    exact told.last hash
  | aborted _ entered =>
    rw [entered]
    exact ⟨told.receipted, told.last, told.named⟩
  | @executed reply transaction rest receipt state applied entered =>
    rw [entered]
    have longer : (journal.executed ++ [transaction.sent]).zip (journal.receipts ++ [receipt]) =
        journal.executed.zip journal.receipts ++ [(transaction.sent, receipt)] := by
      rw [List.zip_append told.receipted]
      rfl
    constructor
    · simp only [List.length_append, List.length_singleton, told.receipted]
    · -- The new receipt is the last one under its hash, and no other changes.
      intro hash
      show (node.receipts.insert transaction.tx.hash receipt).lookup hash = _
      rw [Journal.lastReceipt, longer, List.reverse_concat]
      by_cases own : transaction.tx.hash = hash
      · subst own
        rw [AList.lookup_insert, List.find?_cons_of_pos (by simp [PendingTx.sent])]
        rfl
      · rw [AList.lookup_insert_ne (Ne.symm own),
          List.find?_cons_of_neg (by simp [PendingTx.sent, own])]
        exact told.last hash
    · rw [longer]
      intro entry member
      rcases List.mem_append.mp member with old | new
      · exact told.named entry old
      · rw [List.mem_singleton.mp new]
        exact txHash_of_applied applied

/-- In every run the node tells the last of the executions under a hash. -/
theorem lastTold_of_audited {allowed : RpcState → List Phase → Phase → Prop} {state : StateFork}
    {server : Server} (audited : Server.Audited host iteration allowed state server journal) :
    LastTold server.node journal := by
  -- Only a move of a request executes anything.
  induction audited with
  | new => exact ⟨rfl, fun _ => rfl, fun _ never => nomatch never⟩
  | sendRawTransaction tx raw _ ih => exact ih
  | mine _ ih => exact ih
  | setAutoMine enabled _ ih => exact ⟨ih.receipted, ih.last, ih.named⟩
  | request before phase after fuel _ _ advanced ih => exact ih.advance advanced

end Lookups

section Finality

/-- A move that leaves the account alone, and that sends only what was decoded from its bytes. -/
def MoveGenuine (host : Host) (curve : Secp256k1) (account : Address) (node : RpcState)
    (others : List Phase) (phase : Phase) : Prop :=
  LeavesAlone host account node others phase ∧
    Sends (fun tx raw => decodeRawTx host curve raw = .ok tx) phase

/--
Receipts are final.

However requests are interleaved, and however often a transaction is sent, the node tells under the
hash of each executed transaction of an account without code what that execution came to, and not
what any other did, as long as nothing that is created is put at the account, no two executed
transactions have different bytes with one hash, and the account has used up no more than 2^64 nonces.
-/
theorem receipts_are_final (host : Host) (curve : Secp256k1) (iteration : NodeOrder)
    (state : StateFork) (account : Address) (server : Server) (journal : Journal)
    (indexed : state.SnapshotsIndexed) (bare : state.getCode account = [])
    (small : (state.getAccount account).nonce ≤ u64Max)
    (audited : Server.Audited host iteration (MoveGenuine host curve account) state server journal)
    (apart : ∀ entry ∈ journal.executed, ∀ other ∈ journal.executed,
      host.keccak256 entry.2 = host.keccak256 other.2 → entry.2 = other.2) :
    journal.executed.length = journal.receipts.length ∧
    ((journal.spentFor account).length ≤ 2 ^ 64 → ∀ tx raw receipt,
      ((tx, raw), receipt) ∈ journal.executed.zip journal.receipts → tx.sender = account →
      server.node.receipts.lookup (host.keccak256 raw) = some receipt ∧
        receipt.txHash = host.keccak256 raw) := by
  have told := lastTold_of_audited audited
  have decoded := (allSent_of_audited (fun _ _ _ both => both.2) audited).accepted
  have inOrder := inOrder_of_audited indexed bare small (audited.mono fun _ _ _ both => both.1)
  refine ⟨told.receipted, fun few tx raw receipt member own => ?_⟩
  have taken := mem_accepted_of_executed audited (List.of_mem_zip member).1
  have hash : tx.hash = host.keccak256 raw := hash_of_decoded (decoded _ taken)
  refine ⟨?_, (told.named _ member).trans hash⟩
  obtain ⟨earlier, later, split⟩ := List.append_of_mem member
  have whole : journal.executed = earlier.map Prod.fst ++ (tx, raw) :: later.map Prod.fst := by
    have fronts := congrArg (List.map Prod.fst) split
    rwa [List.map_fst_zip (Nat.le_of_eq told.receipted), List.map_append, List.map_cons] at fronts
  -- No later transaction has the same hash: it would be the same transaction.
  have latest : ∀ entry ∈ later, entry.1.1.hash ≠ tx.hash := by
    intro entry follows same
    have listed : entry.1 ∈ later.map Prod.fst := List.mem_map_of_mem follows
    have executed : entry.1 ∈ journal.executed := by
      rw [whole]
      exact List.mem_append_right _ (List.mem_cons_of_mem _ listed)
    have genuine := decoded _ (mem_accepted_of_executed audited executed)
    have bytes : raw = entry.1.2 := by
      apply apart _ (List.of_mem_zip member).1 _ executed
      rw [← hash, ← same, hash_of_decoded genuine]
    have equal : tx = entry.1.1 := by
      have original := decoded _ taken
      simp only [bytes, genuine, Except.ok.injEq] at original
      exact original.symm
    -- But each of its executions takes a nonce of its own.
    have different : ((journal.executed.filter fun entry => entry.1.sender = account).map
        Prod.fst).Nodup :=
      (inOrder.nodup few).sublist (((executed_sublist_spent audited).filter _).map _)
    rw [List.Nodup, List.pairwise_map, List.pairwise_filter, whole, List.pairwise_append]
      at different
    refine List.rel_of_pairwise_cons different.2.1 listed ?_ ?_ equal
    · simpa using own
    · simpa [← equal] using own
  have none_ : (later.reverse.find? fun entry => entry.1.1.hash = tx.hash) = none := by
    rw [List.find?_eq_none]
    intro entry follows
    simpa using latest entry (List.mem_reverse.mp follows)
  rw [← hash, told.last, Journal.lastReceipt, split, List.reverse_append, List.reverse_cons,
    List.append_assoc, List.find?_append, none_, Option.none_or, List.singleton_append,
    List.find?_cons_of_pos (by simp)]
  rfl

/-- An account with what the transfer costs, and with the nonces before it used up. -/
def transferrer : StateFork where
  baseState := (∅ : HashMap Address AccountState).insert (accountAddress signerHash)
    { nonce := 9, balance := 2000000000000000000 }

def transferHash : Word := 0x33469b22e9f636356c4160a87eb19df52b7412e8eac32a4a55ffe88ea8350788

/-- Whether a move sends nothing but the transfer, and executes only what runs no code. -/
def sendsTransfer (node : RpcState) (others : List Phase) (phase : Phase) : Bool :=
  leavesAlone node others phase && match phase with
    | .checking tx raw => tx = transferTx transferHash && raw = encodeList transferItems
    | _ => true

/-- A move that passes the check sends the transfer, if it sends anything. -/
theorem sends_of_check {node : RpcState} {others : List Phase} {phase : Phase}
    (checked : sendsTransfer node others phase = true) :
    Sends (fun tx raw => tx = transferTx transferHash ∧ raw = encodeList transferItems) phase := by
  unfold sendsTransfer at checked
  rw [Bool.and_eq_true] at checked
  cases phase with
  | checking tx raw =>
    rw [Bool.and_eq_true, decide_eq_true_eq, decide_eq_true_eq] at checked
    exact checked.2
  | _ => trivial

/-- Such a move is genuine. -/
theorem moveGenuine_of_check {node : RpcState} {others : List Phase} {phase : Phase}
    (checked : sendsTransfer node others phase = true) :
    MoveGenuine transferHost transferCurve (accountAddress signerHash) node others phase := by
  have sends := sends_of_check checked
  unfold sendsTransfer at checked
  rw [Bool.and_eq_true] at checked
  refine ⟨leavesAlone_of_check _ _ _ _ _ checked.1, ?_⟩
  -- What is checked before it is inserted was decoded from its bytes.
  cases phase with
  | checking tx raw =>
    obtain ⟨rfl, rfl⟩ := sends
    exact transfer_accepted
  | _ => trivial

/-- The transfer is sent twice, and its receipt is that of its only execution. -/
theorem receipts_are_final_transfer :
    ∃ (server : Server) (journal : Journal), server.node.blockNumber = 2 ∧
      server.node.txPool.len = 1 ∧
      (server.node.receipts.lookup transferHash).isSome = true ∧
      journal.executed.length = journal.receipts.length ∧
      ((journal.spentFor (accountAddress signerHash)).length ≤ 2 ^ 64 → ∀ tx raw receipt,
        ((tx, raw), receipt) ∈ journal.executed.zip journal.receipts →
        tx.sender = accountAddress signerHash →
        server.node.receipts.lookup (transferHost.keccak256 raw) = some receipt ∧
          receipt.txHash = transferHost.keccak256 raw) := by
  have played : (Server.play transferHost .listed 1 sendsTransfer
      ([.sendRawTransaction (transferTx transferHash) (encodeList transferItems),
        .sendRawTransaction (transferTx transferHash) (encodeList transferItems),
        .request 1] ++ List.replicate 16 (.request 0)) ⟨RpcState.new transferrer, []⟩).any
        (fun server => server.node.blockNumber = 2 && server.node.txPool.len = 1 &&
          (server.node.receipts.lookup transferHash).isSome) = true := by
    decide +kernel
  obtain ⟨server, played, noted⟩ := (Option.any_eq_true _ _).mp played
  simp only [Bool.and_eq_true, decide_eq_true_eq] at noted
  obtain ⟨⟨mined, waiting⟩, found⟩ := noted
  have run := @runs_of_play transferHost .listed 1 sendsTransfer (fun node others phase =>
    sendsTransfer node others phase = true) _ _ _ (fun _ _ _ passes => passes) played
  obtain ⟨journal, audited⟩ := exists_audited run
  -- Only one transaction is ever sent.
  have sent := (allSent_of_audited (fun _ _ _ => sends_of_check) audited).accepted
  refine ⟨server, journal, mined, waiting, found, ?_⟩
  refine receipts_are_final transferHost transferCurve .listed transferrer
    (accountAddress signerHash) server journal (fun _ _ found => by simp [transferrer] at found)
    (by decide +kernel) (by decide +kernel) (audited.mono fun _ _ _ => moveGenuine_of_check) ?_
  intro entry member other member' _
  rw [(sent _ (mem_accepted_of_executed audited member)).2,
    (sent _ (mem_accepted_of_executed audited member')).2]

end Finality

end MiniEvm
