import MiniEvm.Proofs.Rpc.Journal
import MiniEvm.Proofs.Vm.Bystanders

/-! No transaction of an account without code is executed twice, however often it is sent. -/

namespace MiniEvm

open Frames RpcState

section Order

variable {host : Host} {iteration : NodeOrder} {fuel : Nat} {stateFree : Bool}
  {node node' : RpcState} {phase : Phase} {progress : Progress} {journal : Journal}
  {start : StateFork} {account : Address}

/-- A move after which nothing that was created is at the account. -/
def LeavesAlone (host : Host) (account : Address) (node : RpcState) (_ : List Phase) :
    Phase → Prop
  | .executing _ (transaction :: _) =>
    CreatesElsewhere host node.state transaction.tx account
  | _ => True

/-- The nonce after so many transactions, which starts over at the end of its width. -/
def nonceAfter (start : StateFork) (account : Address) (count : Nat) : Nat :=
  (start.nonceOf account + count) % 2 ^ 64

/-- The account has no code, and its transactions have used up its nonces in order. -/
structure InOrder (start : StateFork) (account : Address) (node : RpcState) (journal : Journal) :
    Prop where
  indexed : node.state.SnapshotsIndexed
  bare : node.state.getCode account = []
  used : (journal.spentFor account).map (fun entry => entry.1.nonce) =
    (List.range (journal.spentFor account).length).map (nonceAfter start account)
  next : node.state.nonceOf account = nonceAfter start account (journal.spentFor account).length

theorem nonceAfter_succ (count : Nat) :
    nonceAfter start account (count + 1) = (nonceAfter start account count + 1) % 2 ^ 64 := by
  unfold nonceAfter
  omega

/-- A transaction that is begun takes the next nonce of its sender, and nobody else's. -/
theorem InOrder.spend {transaction : PendingTx} {journal' : Journal}
    (inOrder : InOrder start account node journal) (indexed : node'.state.SnapshotsIndexed)
    (bare : node'.state.getCode account = [])
    (accepted : rejection node.state transaction.tx = none)
    (counted : node'.state.nonceOf account =
      if account = transaction.tx.sender then (node.state.nonceOf account + 1) % 2 ^ 64
      else node.state.nonceOf account)
    (spent : journal'.spent = journal.spent ++ [transaction.sent]) :
    InOrder start account node' journal' := by
  by_cases own : account = transaction.tx.sender
  · -- The transaction had the nonce of its sender, which is the next one.
    have longer : journal'.spentFor account = journal.spentFor account ++ [transaction.sent] := by
      simp [Journal.spentFor, spent, PendingTx.sent, own]
    have nonce : transaction.tx.nonce =
        nonceAfter start account (journal.spentFor account).length := by
      rw [← inOrder.next, own]
      exact nonce_of_accepted accepted
    refine ⟨indexed, bare, ?_, ?_⟩
    · rw [longer, List.map_append, inOrder.used, List.length_append, List.length_singleton,
        List.range_succ, List.map_append]
      simp only [List.map_singleton, PendingTx.sent, nonce]
    · rw [longer, List.length_append, List.length_singleton, nonceAfter_succ, ← inOrder.next,
        counted, if_pos own]
  · have same : journal'.spentFor account = journal.spentFor account := by
      simp [Journal.spentFor, spent, PendingTx.sent, Ne.symm own]
    refine ⟨indexed, bare, ?_, ?_⟩
    · rw [same]
      exact inOrder.used
    · rw [same, ← inOrder.next, counted, if_neg own]

/-- Nothing changes for the account. -/
theorem InOrder.of_same {journal' : Journal} (inOrder : InOrder start account node journal)
    (indexed : node'.state.SnapshotsIndexed)
    (code : node'.state.getCode account = node.state.getCode account)
    (nonce : node'.state.nonceOf account = node.state.nonceOf account)
    (spent : journal'.spent = journal.spent) : InOrder start account node' journal' := by
  -- What the account has spent is read from the list of all that was spent.
  have same : journal'.spentFor account = journal.spentFor account := by
    rw [Journal.spentFor, spent, Journal.spentFor]
  refine ⟨indexed, code.trans inOrder.bare, ?_, ?_⟩
  · rw [same]
    exact inOrder.used
  · rw [same, nonce]
    exact inOrder.next

/-- An executed transaction takes its nonce. -/
theorem InOrder.execute {transaction : PendingTx} {receipt : TxExecutionReceipt}
    {state : StateFork} {journal' : Journal} (inOrder : InOrder start account node journal)
    (elsewhere : CreatesElsewhere host node.state transaction.tx account)
    (applied : applySignedTransaction host fuel node.state transaction.tx =
      .value (.ok receipt, state))
    (spent : journal'.spent = journal.spent ++ [transaction.sent]) :
    InOrder start account (node.record transaction.tx receipt state) journal' := by
  have counted := nonceOf_applied inOrder.indexed inOrder.bare elsewhere applied
  have accepted : rejection node.state transaction.tx = none := by
    rcases applySignedTransaction_cases applied with ⟨_, _, error, _⟩ | ⟨accepted, _⟩
    · cases error
    · exact accepted
  simp only [accepted, and_true] at counted
  have bare := getCode_applied_of_bare inOrder.indexed inOrder.bare elsewhere applied
  -- Dropping the transient slots changes neither code nor nonces.
  exact inOrder.spend ((indexed_of_applied inOrder.indexed applied).of_snapshots rfl) bare accepted
    counted spent

/-- So does one that aborts, unless raising the nonce is what aborts. -/
theorem InOrder.abort {transaction : PendingTx} {cause : Fault} {journal' : Journal}
    (inOrder : InOrder start account node journal)
    (aborted : applySignedTransaction host fuel node.state transaction.tx = .fault cause)
    (spent : journal'.spent = journal.spent ++ Journal.spentByAbort host node transaction) :
    InOrder start account { node with state := abortedState host node.state transaction.tx }
      journal' := by
  have indexed : (abortedState host node.state transaction.tx).SnapshotsIndexed :=
    indexed_abortedState inOrder.indexed
  have code := getCode_abortedState host node.state transaction.tx account
  have accepted := accepted_of_fault aborted
  unfold Journal.spentByAbort at spent
  -- Either the nonce was raised before the abort, or raising it is what aborted.
  rcases abortedState_cases host node.state transaction.tx with
    ⟨bumped, bumps, same⟩ | ⟨cause', aborts, same⟩
  · rw [bumps] at spent
    rw [← nonce_of_accepted accepted] at bumps
    refine inOrder.spend indexed (code.trans inOrder.bare) accepted ?_ spent
    show (abortedState host node.state transaction.tx).nonceOf account = _
    rw [same]
    exact nonceOf_charged accepted bumps account
  · rw [aborts, List.append_nil] at spent
    refine inOrder.of_same indexed code ?_ spent
    show (abortedState host node.state transaction.tx).nonceOf account = _
    rw [same, StateFork.nonceOf_setBalance]

/-- Every move keeps the order. -/
theorem InOrder.advance {others : List Phase} (inOrder : InOrder start account node journal)
    (alone : LeavesAlone host account node others phase)
    (advanced : advance host iteration fuel stateFree node phase = some (node', progress)) :
    InOrder start account node' (journal.enter host fuel node phase) := by
  -- Three kinds of moves matter to the chain, and only two of them to a nonce.
  cases chainMove_of_advance journal advanced with
  | still state _ entered =>
    refine inOrder.of_same ?_ ?_ ?_ (by rw [entered])
    · rw [state]
      exact inOrder.indexed
    · rw [state]
    · rw [state]
  | executed applied entered => exact inOrder.execute alone applied (by rw [entered])
  | aborted aborted entered => exact inOrder.abort aborted (by rw [entered])

end Order

section Runs

/-- So many successive nonces are different ones. -/
theorem nodup_nonces (start : StateFork) (account : Address) {count : Nat}
    (few : count ≤ 2 ^ 64) : ((List.range count).map (nonceAfter start account)).Nodup := by
  -- Two of them differ by less than 2^64.
  refine List.Nodup.map_on ?_ List.nodup_range
  intro one member other member' same
  rw [List.mem_range] at member member'
  unfold nonceAfter at same
  omega

/-- Transactions with different nonces are different. -/
theorem InOrder.nodup {start : StateFork} {account : Address} {node : RpcState}
    {journal : Journal} (inOrder : InOrder start account node journal)
    (few : (journal.spentFor account).length ≤ 2 ^ 64) :
    ((journal.spentFor account).map Prod.fst).Nodup := by
  -- The nonces are those of the list of transactions, in its order.
  have different := nodup_nonces start account few
  rw [← inOrder.used, ← Function.comp_def, ← List.map_map] at different
  exact List.Nodup.of_map _ different

/-- The order holds in every run that leaves the account alone. -/
theorem inOrder_of_audited {host : Host} {iteration : NodeOrder} {state : StateFork}
    {account : Address} {server : Server} {journal : Journal} (indexed : state.SnapshotsIndexed)
    (bare : state.getCode account = []) (small : (state.getAccount account).nonce ≤ u64Max)
    (audited : Server.Audited host iteration (LeavesAlone host account) state server journal) :
    InOrder state account server.node journal := by
  -- Whatever is not a move of a request leaves state and journal alone.
  induction audited with
  | new =>
    refine ⟨indexed, bare, rfl, ?_⟩
    show (state.getAccount account).nonce = ((state.getAccount account).nonce + 0) % 2 ^ 64
    rw [u64Max] at small
    omega
  | sendRawTransaction tx raw _ ih => exact ih
  | mine _ ih => exact ih
  | setAutoMine enabled _ ih => exact ⟨ih.indexed, ih.bare, ih.used, ih.next⟩
  | request before phase after fuel _ alone advanced ih => exact ih.advance alone advanced

/-- What has been executed has used up a nonce. -/
theorem executed_sublist_spent {host : Host} {iteration : NodeOrder} {state : StateFork}
    {server : Server} {journal : Journal} {allowed : RpcState → List Phase → Phase → Prop}
    (audited : Server.Audited host iteration allowed state server journal) :
    journal.executed.Sublist journal.spent := by
  induction audited with
  | new => exact .slnil
  | sendRawTransaction tx raw _ ih => exact ih
  | mine _ ih => exact ih
  | setAutoMine enabled _ ih => exact ih
  | @request node node' progress journal before phase after fuel _ _ advanced ih =>
    -- An executed transaction is appended to both lists, an aborted one to the second.
    cases chainMove_of_advance journal advanced with
    | still _ _ entered =>
      rw [entered]
      exact ih
    | executed _ entered =>
      rw [entered]
      exact ih.append (List.Sublist.refl _)
    | aborted _ entered =>
      rw [entered]
      exact ih.trans (List.sublist_append_left _ _)

/--
No transaction is replayed.

However requests are interleaved, and however often a transaction is sent, those transactions of an
account without code that have used up a nonce, the executed ones among them, have the nonces from
its first one on, one after the other, and no two of the first 2^64 are the same, as long as nothing
that is created is put at the account.
-/
theorem no_transaction_is_replayed (host : Host) (iteration : NodeOrder) (state : StateFork)
    (account : Address) (server : Server) (journal : Journal) (indexed : state.SnapshotsIndexed)
    (bare : state.getCode account = []) (small : (state.getAccount account).nonce ≤ u64Max)
    (audited : Server.Audited host iteration (LeavesAlone host account) state server journal) :
    journal.executed.Sublist journal.spent ∧
    (journal.spentFor account).map (fun entry => entry.1.nonce) =
      (List.range (journal.spentFor account).length).map (fun count =>
        ((state.getAccount account).nonce + count) % 2 ^ 64) ∧
    (server.node.state.getAccount account).nonce =
      ((state.getAccount account).nonce + (journal.spentFor account).length) % 2 ^ 64 ∧
    ((journal.spentFor account).length ≤ 2 ^ 64 →
      ((journal.spentFor account).map Prod.fst).Nodup) := by
  have inOrder := inOrder_of_audited indexed bare small audited
  exact ⟨executed_sublist_spent audited, inOrder.used, inOrder.next, inOrder.nodup⟩

/-- Whether a move executes nothing but a transaction to an account without code. -/
def leavesAlone (node : RpcState) (_ : List Phase) : Phase → Bool
  | .executing _ (transaction :: _) =>
    transaction.tx.to_.all fun target => (node.state.getCode target).isEmpty
  | _ => true

/-- A frame without code visits nothing but its start. -/
theorem not_running_of_bare {host : Host} {start evm : Evm} {history : History Evm ExecutionResult}
    (bare : start.code = []) (reaches : (machine host).Reaches start history evm) :
    (machine host).running evm = false := by
  -- There is no step to take where there is no code.
  induction reaches with
  | refl => simp [machine, bare]
  | step _ steps ih => exact absurd steps.1 (by simp [ih])
  | enter _ opens ih => exact absurd opens.1 (by simp [ih])

theorem leavesAlone_of_check (host : Host) (account : Address) (node : RpcState)
    (others : List Phase) (phase : Phase) (checked : leavesAlone node others phase = true) :
    LeavesAlone host account node others phase := by
  unfold LeavesAlone
  split
  · rename_i reply transaction rest
    intro vm executed visited reached reaches running
    -- The frame of the transaction has no code.
    obtain ⟨bumped, rfl⟩ := executedFrame_eq_some executed
    have bare : (transactionVm (chargeSender node.state transaction.tx bumped)
        transaction.tx).code = [] := by
      show (transaction.tx.to_.map (chargeSender node.state transaction.tx bumped).getCode).getD [] =
        []
      simp only [leavesAlone] at checked
      cases named : transaction.tx.to_ with
      | none => rfl
      | some target =>
        rw [named] at checked
        exact (getCode_chargeSender node.state transaction.tx bumped target).trans
          (List.isEmpty_iff.mp checked)
    rw [not_running_of_bare bare reaches] at running
    cases running
  · trivial

/-- A transaction that is sent twice is accepted twice, and executed once. -/
theorem no_transaction_is_replayed_twice :
    ∃ (server : Server) (journal : Journal), server.node.blockNumber = 2 ∧
      server.node.txPool.len = 1 ∧ (server.node.state.getAccount 0x01).nonce = 1 ∧
      journal.executed.Sublist journal.spent ∧
      (journal.spentFor 0x01).map (fun entry => entry.1.nonce) =
        (List.range (journal.spentFor 0x01).length).map (fun count => (0 + count) % 2 ^ 64) ∧
      (server.node.state.getAccount 0x01).nonce =
        (0 + (journal.spentFor 0x01).length) % 2 ^ 64 ∧
      ((journal.spentFor 0x01).length ≤ 2 ^ 64 →
        ((journal.spentFor 0x01).map Prod.fst).Nodup) := by
  -- Both requests read the nonce before either of them inserts.
  have played : (Server.play (tableHost []) .listed 1 leavesAlone
      ([.sendRawTransaction callTransaction [], .sendRawTransaction callTransaction [],
        .request 1] ++ List.replicate 16 (.request 0)) ⟨RpcState.new {}, []⟩).any
        (fun server => server.node.blockNumber = 2 && server.node.txPool.len = 1 &&
          (server.node.state.getAccount 0x01).nonce = 1) = true := by
    decide +kernel
  obtain ⟨server, played, noted⟩ := (Option.any_eq_true _ _).mp played
  simp only [Bool.and_eq_true, decide_eq_true_eq] at noted
  obtain ⟨⟨mined, waiting⟩, nonce⟩ := noted
  have run := runs_of_play (leavesAlone_of_check (tableHost []) 0x01) played
  obtain ⟨journal, audited⟩ := exists_audited run
  refine ⟨server, journal, mined, waiting, nonce, ?_⟩
  exact no_transaction_is_replayed (tableHost []) .listed {} 0x01 server journal
    (fun _ _ found => by simp at found) rfl (by decide) audited

end Runs

end MiniEvm
