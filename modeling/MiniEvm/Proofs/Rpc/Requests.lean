import MiniEvm.Proofs.Mempool.Pool
import MiniEvm.Proofs.Vm.Nonces
import MiniEvm.Rpc.Requests

/-! Concurrent requests against the pool: when a stale transaction can enter it, and when not. -/

namespace MiniEvm

open Frames RpcState

/-- What all requests together have taken out of the pool and not executed yet. -/
def batches (requests : List Phase) : List PendingTx := requests.flatMap Phase.batch

/--
A move of a request that brings no stale transaction about.

A transaction is inserted while the nonce that was read still stands and no block is executing for
its sender, and no executed code acts for an account with transactions in the pool.
-/
def MoveSound (host : Host) (node : RpcState) (others : List Phase) : Phase → Prop
  | .inserting tx _ =>
    (node.state.getAccount tx.sender).nonce ≤ tx.nonce ∧
      ∀ transaction ∈ batches others, transaction.sender ≠ tx.sender
  | .executing _ (transaction :: _) => ∀ pending ∈ node.txPool.pending,
    ActsForOthers host node.state transaction.tx pending.sender
  | _ => True

/-- No pending transaction is lower than the nonce its sender has, or will have after the blocks. -/
structure Server.Current (server : Server) : Prop where
  indexed : server.node.state.SnapshotsIndexed
  pooled : ∀ pending ∈ server.node.txPool.pending, pending.sender = pending.tx.sender
  taken : ∀ transaction ∈ batches server.requests, transaction.sender = transaction.tx.sender
  above : Above (fun sender => server.node.state.nonceOf sender) (batches server.requests)
    server.node.txPool

section Moves

variable {host : Host} {iteration : NodeOrder} {fuel : Nat} {stateFree : Bool}
  {node node' : RpcState} {before after : List Phase} {phase : Phase} {progress : Progress}

/-- How many transactions a sender has in the batches does not depend on their order. -/
theorem countFrom_batches (sender : Address) (before middle after : List Phase) :
    countFrom sender (batches (before ++ middle ++ after)) =
      countFrom sender (batches middle) + countFrom sender (batches (before ++ after)) := by
  simp only [batches, List.flatMap_append, countFrom_append]
  omega

/-- A node that is current with the batches of one request and of all others. -/
structure CurrentWith (node : RpcState) (own others : List PendingTx) : Prop where
  indexed : node.state.SnapshotsIndexed
  pooled : ∀ pending ∈ node.txPool.pending, pending.sender = pending.tx.sender
  taken : ∀ transaction ∈ own ++ others, transaction.sender = transaction.tx.sender
  above : ∀ pending ∈ node.txPool.pending, node.state.nonceOf pending.sender +
    (countFrom pending.sender own + countFrom pending.sender others) ≤ pending.nonce

/-- The server is current exactly when its node is, seen from any one request. -/
theorem current_iff (before middle after : List Phase) :
    Server.Current ⟨node, before ++ middle ++ after⟩ ↔
      CurrentWith node (batches middle) (batches (before ++ after)) := by
  -- Batches are looked at as a multiset, so that it does not matter where a request stands.
  have members : ∀ transaction : PendingTx,
      transaction ∈ batches (before ++ middle ++ after) ↔
        transaction ∈ batches middle ++ batches (before ++ after) := by
    intro transaction
    simp only [batches, List.flatMap_append, List.mem_append]
    tauto
  constructor
  · intro current
    refine ⟨current.indexed, current.pooled, ?_, ?_⟩
    · exact fun transaction member => current.taken transaction ((members transaction).mpr member)
    · intro pending member
      rw [← countFrom_batches]
      exact current.above pending member
  · intro current
    refine ⟨current.indexed, current.pooled, ?_, ?_⟩
    · exact fun transaction member => current.taken transaction ((members transaction).mp member)
    · intro pending member
      rw [countFrom_batches]
      exact current.above pending member

section Kept

variable {own others : List PendingTx}

/-- Whatever leaves the state and the pool alone keeps the node current. -/
theorem CurrentWith.of_same (current : CurrentWith node own others)
    (state : node'.state = node.state) (pool : node'.txPool = node.txPool) :
    CurrentWith node' own others := by
  refine ⟨state ▸ current.indexed, pool ▸ current.pooled, current.taken, ?_⟩
  rw [state, pool]
  exact current.above

/-- Giving up a batch keeps the node current. -/
theorem CurrentWith.drop (current : CurrentWith node own others) : CurrentWith node [] others where
  indexed := current.indexed
  pooled := current.pooled
  taken := fun transaction member => current.taken transaction (List.mem_append_right _ member)
  above := by
    intro pending member
    have above := current.above pending member
    simp only [countFrom, List.countP_nil] at above ⊢
    omega

/-- A transaction whose nonce still stands, and of whose sender nothing is executing, may enter. -/
theorem CurrentWith.insert {pool : TxPool} {tx : SignedTransaction} {raw : Bytes}
    (current : CurrentWith node [] others)
    (stands : (node.state.getAccount tx.sender).nonce ≤ tx.nonce)
    (idle : ∀ transaction ∈ others, transaction.sender ≠ tx.sender)
    (inserted : node.txPool.insert tx.sender tx raw = .ok pool) :
    CurrentWith { node with txPool := pool } [] others where
  indexed := current.indexed
  pooled := by
    intro pending member
    rcases mem_pending_of_insert inserted member with ⟨sender, rfl, _⟩ | old
    · exact sender
    · exact current.pooled pending old
  taken := current.taken
  above := by
    intro pending member
    rcases mem_pending_of_insert inserted member with ⟨sender, _, nonce⟩ | old
    · -- No batch has anything of this sender.
      have none_ : countFrom tx.sender others = 0 := by
        rw [countFrom, List.countP_eq_zero]
        intro transaction taken
        simpa using idle transaction taken
      have stands : node.state.nonceOf tx.sender ≤ tx.nonce := stands
      rw [sender, nonce, none_]
      simp only [countFrom, List.countP_nil]
      omega
    · exact current.above pending old

/-- The next block leaves behind only what lies above it. -/
theorem CurrentWith.select (current : CurrentWith node [] others) (senders : List Address) :
    CurrentWith (mineBlock.select iteration.pool senders node).2
      (mineBlock.select iteration.pool senders node).1 others := by
  have perm : node.txPool.pending.Perm ((mineBlock.select iteration.pool senders node).1 ++
      (mineBlock.select iteration.pool senders node).2.txPool.pending) :=
    popExecutable_perm node.txPool (readNonces node.state senders)
  -- The floor under a sender is its nonce once the other batches are executed.
  have above : Above (fun sender => node.state.nonceOf sender + countFrom sender others)
      (mineBlock.select iteration.pool senders node).1
      (mineBlock.select iteration.pool senders node).2.txPool := by
    apply above_popExecutable
    intro pending member
    have before := current.above pending member
    simp only [countFrom, List.countP_nil] at before ⊢
    omega
  refine ⟨current.indexed, ?_, ?_, ?_⟩
  · -- What is left in the pool was in it before.
    intro pending member
    exact current.pooled pending (perm.mem_iff.mpr (List.mem_append_right _ member))
  · intro transaction member
    -- A transaction that is taken now was in the pool, and the others were taken earlier.
    rcases List.mem_append.mp member with own | other
    · exact current.pooled transaction (perm.mem_iff.mpr (List.mem_append_left _ own))
    · exact current.taken transaction other
  · intro pending member
    have higher := above pending member
    simp only at higher
    show node.state.nonceOf pending.sender + _ ≤ _
    omega

/-- A nonce that is raised by what the batch loses keeps the node current. -/
theorem CurrentWith.raise {transaction : PendingTx} {rest : List PendingTx} {state : StateFork}
    (current : CurrentWith node (transaction :: rest) others) (indexed : state.SnapshotsIndexed)
    (raises : ∀ pending ∈ node.txPool.pending, state.nonceOf pending.sender ≤
      node.state.nonceOf pending.sender +
        if pending.sender = transaction.tx.sender then 1 else 0) :
    CurrentWith { node with state } rest others where
  indexed := indexed
  pooled := current.pooled
  taken := fun other member => current.taken other (List.mem_cons_of_mem _ member)
  above := by
    intro pending member
    have above := current.above pending member
    -- The nonce of a sender is raised by its own transaction only, and by one.
    have raised := raises pending member
    have sender := current.taken transaction List.mem_cons_self
    rw [countFrom_cons, sender] at above
    show state.nonceOf pending.sender + _ ≤ _
    split at raised
    · -- The batch has one transaction less of this sender, which makes up for it.
      rename_i own
      rw [if_pos own.symm] at above
      omega
    · omega

/-- Executing the next transaction of a batch raises one nonce, by what the batch loses. -/
theorem CurrentWith.execute {transaction : PendingTx} {rest : List PendingTx}
    {answer : Except ExecutionError TxExecutionReceipt} {state : StateFork}
    (current : CurrentWith node (transaction :: rest) others)
    (sound : ∀ pending ∈ node.txPool.pending,
      ActsForOthers host node.state transaction.tx pending.sender)
    (applied : applySignedTransaction host fuel node.state transaction.tx =
      .value (answer, state)) :
    CurrentWith { node with state } rest others :=
  current.raise (indexed_of_applied current.indexed applied) fun pending member =>
    nonceOf_applied_le current.indexed (sound pending member) applied

/-- So does a transaction that aborts. -/
theorem CurrentWith.abort {transaction : PendingTx} {rest : List PendingTx}
    (current : CurrentWith node (transaction :: rest) others) :
    CurrentWith { node with state := abortedState host node.state transaction.tx } rest others :=
  current.raise (indexed_abortedState current.indexed) fun _ _ =>
    nonceOf_abortedState_le host node.state transaction.tx _

/-- Recording a receipt and dropping the transient slots changes no nonce. -/
theorem CurrentWith.record {state : StateFork} (current : CurrentWith { node with state } own others)
    (tx : SignedTransaction) (receipt : TxExecutionReceipt) :
    CurrentWith (node.record tx receipt state) own others where
  indexed := current.indexed.of_snapshots rfl
  pooled := current.pooled
  taken := current.taken
  above := current.above

end Kept

/-- A sound move keeps the node current. -/
theorem CurrentWith.advance {others : List Phase}
    (current : CurrentWith node phase.batch (batches others))
    (sound : MoveSound host node others phase)
    (advanced : advance host iteration fuel stateFree node phase = some (node', progress)) :
    CurrentWith node' (batches progress.remaining) (batches others) := by
  cases phase with
  | checking tx raw =>
    simp only [MiniEvm.advance] at advanced
    split at advanced
    · split at advanced
      · cases advanced
        exact current
      · cases advanced
        exact current
    · cases advanced
  | inserting tx raw =>
    simp only [MiniEvm.advance] at advanced
    split at advanced
    · cases advanced
      exact current
    · rename_i inserted
      cases advanced
      -- What a sound insertion finds is what its check had read.
      exact current.insert sound.1 sound.2 inserted
  | announcing tx =>
    cases advanced
    cases node.autoMine
    · exact current.of_same rfl rfl
    · exact current.of_same rfl rfl
  | listing reply =>
    cases advanced
    exact current
  | locking reply senders =>
    simp only [MiniEvm.advance] at advanced
    split at advanced
    · cases advanced
      exact current
    · cases advanced
  | selecting reply senders =>
    cases advanced
    simp only [Progress.remaining, batches, List.flatMap_singleton, Phase.batch]
    exact current.select senders
  | executing reply batch =>
    cases batch with
    | nil =>
      cases advanced
      exact current
    | cons transaction rest =>
      simp only [MiniEvm.advance] at advanced
      split at advanced
      · rename_i applied
        cases advanced
        simp only [Progress.remaining, batches, List.flatMap_singleton, Phase.batch]
        exact (current.execute sound applied).record _ _
      · rename_i applied
        cases advanced
        -- The rest of a batch is lost when one of its transactions cannot be executed.
        exact (current.execute sound applied).drop
      · cases advanced
        exact current.abort.drop
      · cases advanced
  | publishing reply =>
    cases advanced
    exact current.of_same rfl rfl

/-- Every sound move keeps the server current, and so do new requests. -/
theorem Server.Current.moves {server server' : Server} (current : server.Current)
    (moves : Server.Moves host iteration (MoveSound host) server server') : server'.Current := by
  cases moves with
  | sendRawTransaction tx raw =>
    refine ⟨current.indexed, current.pooled, ?_, ?_⟩
    · simpa [batches, Phase.batch] using current.taken
    · simpa [batches, Phase.batch] using current.above
  | mine =>
    refine ⟨current.indexed, current.pooled, ?_, ?_⟩
    · simpa [batches, Phase.batch] using current.taken
    · simpa [batches, Phase.batch] using current.above
  | setAutoMine enabled => exact ⟨current.indexed, current.pooled, current.taken, current.above⟩
  -- The request that moves is brought to the front, where its own batch can be told apart.
  | request before phase after fuel sound advanced =>
    rw [List.append_cons] at current
    have one := (current_iff before [phase] after).mp current
    simp only [batches, List.flatMap_singleton] at one
    exact (current_iff before _ after).mpr (CurrentWith.advance one sound advanced)

/-- A server that starts with an empty pool is current. -/
theorem Server.Current.new {state : StateFork} (indexed : state.SnapshotsIndexed) :
    Server.Current ⟨RpcState.new state, []⟩ := by
  refine ⟨indexed, ?_, ?_, ?_⟩
  · intro pending member
    cases member
  · intro transaction member
    cases member
  · intro pending member
    cases member

end Moves

/--
No stale transaction is left in the pool.

This holds for every interleaving of requests, as long as a transaction is inserted while the nonce
that was read for it still stands and no block is executing for its sender, and no executed code acts
for an account with transactions in the pool.
-/
theorem no_stale_transaction (host : Host) (iteration : NodeOrder) (state : StateFork)
    (server : Server) (indexed : state.SnapshotsIndexed)
    (run : Relation.ReflTransGen (Server.Moves host iteration (MoveSound host))
      ⟨RpcState.new state, []⟩ server) (idle : server.requests = []) :
    ∀ pending ∈ server.node.txPool.pending,
      (server.node.state.getAccount pending.sender).nonce ≤ pending.nonce := by
  have current : server.Current := by
    clear idle
    induction run with
    | refl => exact .new indexed
    | tail _ moves ih => exact ih.moves moves
  intro pending member
  -- With no request in progress there is no batch left to execute.
  have above := current.above pending member
  rw [idle] at above
  exact above

section Interleavings

/-- One thing that can happen to a server, with the request that moves given by its position. -/
inductive Call where
  | sendRawTransaction (tx : SignedTransaction) (raw : Bytes)
  | mine
  | setAutoMine (enabled : Bool)
  | request (position : Nat)

/-- The server after one thing has happened, if it can. -/
def Server.call (host : Host) (iteration : NodeOrder) (fuel : Nat)
    (test : RpcState → List Phase → Phase → Bool) (server : Server) : Call → Option Server
  | .sendRawTransaction tx raw => some ⟨server.node, server.requests ++ [.checking tx raw]⟩
  | .mine => some ⟨server.node, server.requests ++ [.listing none]⟩
  | .setAutoMine enabled => some ⟨{ server.node with autoMine := enabled }, server.requests⟩
  | .request position =>
    let before := server.requests.take position
    match server.requests.drop position with
    | [] => none
    | phase :: after =>
      if test server.node (before ++ after) phase then
        match advance host iteration fuel (!(before ++ after).any Phase.holdsState) server.node
            phase with
        | some (node, progress) => some ⟨node, before ++ progress.remaining ++ after⟩
        | none => none
      else none

/-- The server after a whole schedule. -/
def Server.play (host : Host) (iteration : NodeOrder) (fuel : Nat)
    (test : RpcState → List Phase → Phase → Bool) : List Call → Server → Option Server
  | [], server => some server
  | call :: rest, server => (server.call host iteration fuel test call).bind
      (play host iteration fuel test rest)

variable {host : Host} {iteration : NodeOrder} {fuel : Nat}
  {test : RpcState → List Phase → Phase → Bool} {allowed : RpcState → List Phase → Phase → Prop}

/-- What a call does is a move of the server. -/
theorem moves_of_call {server server' : Server} {call : Call}
    (passes : ∀ node others phase, test node others phase = true → allowed node others phase)
    (called : server.call host iteration fuel test call = some server') :
    Server.Moves host iteration allowed server server' := by
  cases call with
  | sendRawTransaction tx raw =>
    cases called
    exact .sendRawTransaction tx raw
  | mine =>
    cases called
    exact .mine
  | setAutoMine enabled =>
    cases called
    exact .setAutoMine enabled
  | request position =>
    simp only [Server.call] at called
    split at called
    · cases called
    · rename_i phase after dropped
      -- The requests before and after the position are those that do not move.
      have split := List.take_append_drop position server.requests
      split at called
      · rename_i tested
        split at called
        · rename_i advanced
          cases called
          obtain ⟨node, requests⟩ := server
          simp only at split dropped advanced tested
          rw [dropped] at split
          generalize before : requests.take position = front at split advanced tested
          subst split
          exact .request front phase after fuel (passes _ _ _ tested) advanced
        · cases called
      · cases called

/-- A schedule that can be played is a run of the server. -/
theorem runs_of_play {server server' : Server} {calls : List Call}
    (passes : ∀ node others phase, test node others phase = true → allowed node others phase)
    (played : Server.play host iteration fuel test calls server = some server') :
    Relation.ReflTransGen (Server.Moves host iteration allowed) server server' := by
  -- A schedule is played one call at a time.
  induction calls generalizing server with
  | nil =>
    cases played
    exact .refl
  | cons call rest ih =>
    obtain ⟨middle, called, played⟩ := Option.bind_eq_some_iff.mp played
    exact .head (moves_of_call passes called) (ih played)

/-- Whether a move is sound, for moves that execute nothing. -/
def moveSound (node : RpcState) (others : List Phase) : Phase → Bool
  | .inserting tx _ => decide ((node.state.getAccount tx.sender).nonce ≤ tx.nonce) &&
    (batches others).all fun transaction => transaction.sender ≠ tx.sender
  | .executing _ (_ :: _) => node.txPool.pending.isEmpty
  | _ => true

theorem moveSound_of_check (host : Host) (node : RpcState) (others : List Phase) (phase : Phase)
    (checked : moveSound node others phase = true) : MoveSound host node others phase := by
  unfold MoveSound
  split
  · simpa [moveSound] using checked
  · -- With an empty pool there is no account to act for.
    simp only [moveSound, List.isEmpty_iff] at checked
    intro pending member
    rw [checked] at member
    cases member
  · trivial

/-- A transaction that has to wait for the one before it. -/
def secondTransaction : SignedTransaction := { callTransaction with nonce := 1 }

theorem no_stale_transaction_waiting :
    ∃ server, Relation.ReflTransGen (Server.Moves (tableHost []) .listed (MoveSound (tableHost [])))
        ⟨RpcState.new {}, []⟩ server ∧ server.requests = [] ∧ server.node.txPool.len = 1 ∧
      ∀ pending ∈ server.node.txPool.pending,
        (server.node.state.getAccount pending.sender).nonce ≤ pending.nonce := by
  -- One request inserts it, mines a block that leaves it waiting, and ends.
  have played : (Server.play (tableHost []) .listed 1 moveSound
      (.sendRawTransaction secondTransaction [] :: List.replicate 8 (.request 0)) ⟨RpcState.new {}, []⟩).any
        (fun server => server.requests.isEmpty && server.node.txPool.len = 1) = true := by
    decide +kernel
  obtain ⟨server, played, noted⟩ := (Option.any_eq_true _ _).mp played
  simp only [Bool.and_eq_true, List.isEmpty_iff, decide_eq_true_eq] at noted
  have run := runs_of_play (moveSound_of_check (tableHost [])) played
  exact ⟨server, run, noted.1, noted.2,
    no_stale_transaction (tableHost []) .listed {} server (by
      intro position snapshot found
      simp at found) run noted.1⟩

/--
A stale transaction enters the pool and stays there.

It is sent twice, both requests read the nonce before either inserts, and the second one inserts when
the block of the first one is done.
-/
theorem stale_transaction_enters :
    ∃ server, Relation.ReflTransGen (Server.Moves (tableHost []) .listed fun _ _ _ => True)
        ⟨RpcState.new {}, []⟩ server ∧ server.requests = [] ∧
      ∃ pending ∈ server.node.txPool.pending,
        pending.nonce < (server.node.state.getAccount pending.sender).nonce := by
  -- The second request reads the nonce first, and inserts after the block of the first one.
  have played : (Server.play (tableHost []) .listed 1 (fun _ _ _ => true)
      ([.sendRawTransaction callTransaction [], .sendRawTransaction callTransaction [],
        .request 1] ++ List.replicate 16 (.request 0)) ⟨RpcState.new {}, []⟩).any
        (fun server => server.requests.isEmpty && server.node.txPool.pending.any fun pending =>
          decide (pending.nonce < (server.node.state.getAccount pending.sender).nonce)) = true := by
    decide +kernel
  obtain ⟨server, played, noted⟩ := (Option.any_eq_true _ _).mp played
  simp only [Bool.and_eq_true, List.isEmpty_iff, List.any_eq_true, decide_eq_true_eq] at noted
  exact ⟨server, runs_of_play (fun _ _ _ _ => trivial) played, noted.1, noted.2⟩

end Interleavings

end MiniEvm
