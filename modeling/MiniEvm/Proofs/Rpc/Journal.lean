import MiniEvm.Proofs.Mempool.Accounting
import MiniEvm.Proofs.Rpc.Ledger
import MiniEvm.Rpc.Journal

/-! No transaction is lost or executed twice, however requests are interleaved. -/

namespace MiniEvm

open Frames RpcState

section Accounts

variable {host : Host} {iteration : NodeOrder} {fuel : Nat} {stateFree : Bool}
  {node node' : RpcState} {phase : Phase} {progress : Progress} {journal : Journal}

/-- Where the transactions are that the pool has taken. -/
def whereabouts (node : RpcState) (taken : List PendingTx) (journal : Journal) :
    List (SignedTransaction × Bytes) :=
  (node.txPool.pending ++ taken).map PendingTx.sent ++
    (journal.executed ++ (journal.aborted ++ journal.dropped))

/-- The books balance: whatever was taken is in one place. -/
def Balanced (node : RpcState) (taken : List PendingTx) (journal : Journal) : Prop :=
  journal.accepted.Perm (whereabouts node taken journal)

/-- The books do not depend on the order in which transactions are listed. -/
theorem Balanced.of_perm {taken taken' : List PendingTx} (balanced : Balanced node taken journal)
    (perm : (node.txPool.pending ++ taken).Perm (node'.txPool.pending ++ taken')) :
    Balanced node' taken' journal :=
  balanced.trans ((perm.map _).append_right _)

/-- What one insertion adds to the pool it adds to the books. -/
theorem Balanced.insert {pool : TxPool} {tx : SignedTransaction} {raw : Bytes}
    {taken : List PendingTx} (balanced : Balanced node taken journal)
    (inserted : node.txPool.insert tx.sender tx raw = .ok pool) :
    Balanced { node with txPool := pool } taken
      { journal with accepted := journal.accepted ++ [(tx, raw)] } := by
  obtain ⟨pending, rfl, _, rfl, perm⟩ := pending_insert_perm inserted
  have front : (journal.accepted ++ [pending.sent]).Perm (pending.sent :: journal.accepted) :=
    List.perm_append_comm
  refine front.trans ((balanced.cons pending.sent).trans ?_)
  -- The new transaction stands at the front of the pool.
  exact ((perm.symm.append_right taken).map PendingTx.sent).append_right _

/-- An executed transaction leaves its batch for the books. -/
theorem Balanced.execute {taken : List PendingTx} {transaction : PendingTx}
    (balanced : Balanced node (transaction :: taken) journal)
    (same : node'.txPool = node.txPool) (receipts : List TxExecutionReceipt)
    (spent : List (SignedTransaction × Bytes)) :
    Balanced node' taken
      { journal with executed := journal.executed ++ [transaction.sent], receipts, spent } := by
  refine balanced.trans ?_
  unfold whereabouts
  rw [same]
  simp only [List.map_append, List.map_cons, List.append_assoc]
  refine List.Perm.append_left _ ?_
  -- It moves behind the rest of the batch and behind what was executed before it.
  have moved : (transaction.sent :: ((taken.map PendingTx.sent ++ journal.executed) ++
      (journal.aborted ++ journal.dropped))).Perm ((taken.map PendingTx.sent ++ journal.executed) ++
        transaction.sent :: (journal.aborted ++ journal.dropped)) := List.perm_middle.symm
  simpa only [List.append_assoc, List.cons_append, List.nil_append] using moved

/-- A block that is given up leaves its whole batch for the books. -/
theorem Balanced.drop {taken others : List PendingTx}
    (balanced : Balanced node (taken ++ others) journal) (same : node'.txPool = node.txPool) :
    Balanced node' others
      { journal with dropped := journal.dropped ++ taken.map PendingTx.sent } := by
  -- The batch moves from one end of the list to the other.
  refine balanced.trans ?_
  unfold whereabouts
  rw [same]
  simp only [List.map_append, List.append_assoc]
  refine List.Perm.append_left _ ?_
  rw [← List.append_assoc journal.aborted, ← List.append_assoc journal.executed,
    ← List.append_assoc (others.map _)]
  refine List.perm_append_comm.trans ?_
  simp only [List.append_assoc]
  exact List.Perm.refl _

/-- A transaction that aborts leaves its batch for the books, with the rest of the batch. -/
theorem Balanced.abort {taken others : List PendingTx} {transaction : PendingTx}
    (balanced : Balanced node ((transaction :: taken) ++ others) journal)
    (same : node'.txPool = node.txPool) (spent : List (SignedTransaction × Bytes)) :
    Balanced node' others
      { journal with
        aborted := journal.aborted ++ [transaction.sent]
        spent
        dropped := journal.dropped ++ taken.map PendingTx.sent } := by
  refine (balanced.drop same).trans ?_
  unfold whereabouts
  simp only [List.map_cons, List.append_assoc, List.singleton_append]
  -- It only changes places with what was dropped before.
  refine (List.Perm.append_left _ (List.Perm.append_left _ (List.Perm.append_left _ ?_)))
  exact List.perm_middle

/-- Every move of a request keeps the books balanced. -/
theorem Balanced.advance {others : List PendingTx}
    (balanced : Balanced node (phase.batch ++ others) journal)
    (advanced : advance host iteration fuel stateFree node phase = some (node', progress)) :
    Balanced node' (batches progress.remaining ++ others)
      (journal.enter host fuel node phase) := by
  cases phase with
  | checking tx raw =>
    simp only [MiniEvm.advance] at advanced
    split at advanced
    · split at advanced <;> cases advanced <;> exact balanced
    · cases advanced
  | inserting tx raw =>
    cases inserted : node.txPool.insert tx.sender tx raw with
    | error message =>
      simp only [MiniEvm.advance, inserted] at advanced
      cases advanced
      simp only [Journal.enter, inserted]
      exact balanced
    | ok txPool =>
      simp only [MiniEvm.advance, inserted] at advanced
      cases advanced
      simp only [Journal.enter, inserted]
      exact balanced.insert inserted
  | announcing tx =>
    cases advanced
    cases node.autoMine <;> exact balanced
  | listing reply =>
    cases advanced
    exact balanced
  | locking reply senders =>
    simp only [MiniEvm.advance] at advanced
    split at advanced
    · cases advanced
      exact balanced
    · cases advanced
  | selecting reply senders =>
    cases advanced
    -- What is taken out of the pool is in the batch.
    have perm : node.txPool.pending.Perm ((mineBlock.select iteration.pool senders node).1 ++
        (mineBlock.select iteration.pool senders node).2.txPool.pending) :=
      popExecutable_perm node.txPool (readNonces node.state senders)
    refine balanced.of_perm ?_
    simp only [Progress.remaining, batches, List.flatMap_singleton, Phase.batch, List.nil_append]
    rw [← List.append_assoc]
    exact (perm.trans List.perm_append_comm).append_right _
  | executing reply batch =>
    cases batch with
    | nil =>
      cases advanced
      exact balanced
    | cons transaction rest =>
      simp only [MiniEvm.advance] at advanced
      simp only [Journal.enter]
      split at advanced
      · rename_i applied
        cases advanced
        rw [applied]
        simp only [Progress.remaining, batches, List.flatMap_singleton, Phase.batch]
        exact balanced.execute rfl _ _
      · rename_i applied
        cases advanced
        rw [applied]
        exact balanced.drop rfl
      · rename_i aborted
        cases advanced
        rw [aborted]
        exact balanced.abort rfl _
      · cases advanced
  | publishing reply =>
    cases advanced
    exact balanced

/-- What a move does to the chain and to the journal: nothing, or a transaction is begun. -/
inductive ChainMove (host : Host) (fuel : Nat) (node : RpcState) (journal : Journal) :
    Phase → RpcState → Prop
  | still {phase : Phase} {node' : RpcState} {accepted dropped : List (SignedTransaction × Bytes)} :
      node'.state = node.state → node'.receipts = node.receipts →
      journal.enter host fuel node phase = { journal with accepted, dropped } →
      ChainMove host fuel node journal phase node'
  | executed {reply transaction rest receipt state} :
      applySignedTransaction host fuel node.state transaction.tx = .value (.ok receipt, state) →
      journal.enter host fuel node (.executing reply (transaction :: rest)) = { journal with
        executed := journal.executed ++ [transaction.sent]
        receipts := journal.receipts ++ [receipt]
        spent := journal.spent ++ [transaction.sent] } →
      ChainMove host fuel node journal (.executing reply (transaction :: rest))
        (node.record transaction.tx receipt state)
  | aborted {reply transaction rest cause} :
      applySignedTransaction host fuel node.state transaction.tx = .fault cause →
      journal.enter host fuel node (.executing reply (transaction :: rest)) = { journal with
        aborted := journal.aborted ++ [transaction.sent]
        spent := journal.spent ++ Journal.spentByAbort host node transaction
        dropped := journal.dropped ++ rest.map PendingTx.sent } →
      ChainMove host fuel node journal (.executing reply (transaction :: rest))
        { node with state := abortedState host node.state transaction.tx }

theorem chainMove_of_advance (journal : Journal)
    (advanced : advance host iteration fuel stateFree node phase = some (node', progress)) :
    ChainMove host fuel node journal phase node' := by
  cases phase with
  | checking tx raw =>
    simp only [MiniEvm.advance] at advanced
    split at advanced
    · split at advanced <;> cases advanced <;> exact .still rfl rfl rfl
    · cases advanced
  | inserting tx raw =>
    cases inserted : node.txPool.insert tx.sender tx raw with
    | error message =>
      simp only [MiniEvm.advance, inserted] at advanced
      cases advanced
      exact .still rfl rfl (by simp only [Journal.enter, inserted]; rfl)
    | ok txPool =>
      simp only [MiniEvm.advance, inserted] at advanced
      cases advanced
      exact .still rfl rfl (by simp only [Journal.enter, inserted]; rfl)
  | announcing tx =>
    cases advanced
    exact .still rfl rfl rfl
  | listing reply =>
    cases advanced
    exact .still rfl rfl rfl
  | locking reply senders =>
    simp only [MiniEvm.advance] at advanced
    split at advanced
    · cases advanced
      exact .still rfl rfl rfl
    · cases advanced
  | selecting reply senders =>
    cases advanced
    exact .still rfl rfl rfl
  | executing reply batch =>
    cases batch with
    | nil =>
      cases advanced
      exact .still rfl rfl rfl
    | cons transaction rest =>
      simp only [MiniEvm.advance] at advanced
      split at advanced
      · rename_i applied
        cases advanced
        exact .executed applied (by simp only [Journal.enter, applied])
      · rename_i applied
        cases advanced
        -- A transaction that is turned down leaves the state as it was.
        refine .still ?_ rfl (by simp only [Journal.enter, applied]; rfl)
        rcases applySignedTransaction_cases applied with ⟨_, _, _, same⟩ | ⟨_, _, _, _, _, _, ok, _⟩
        · exact same
        · cases ok
      · rename_i aborted
        cases advanced
        exact .aborted aborted (by simp only [Journal.enter, aborted])
      · cases advanced
  | publishing reply =>
    cases advanced
    exact .still rfl rfl rfl

/-- Whatever has been executed has a receipt, which may be that of a later one with its hash. -/
def Receipted (node : RpcState) (journal : Journal) : Prop :=
  ∀ entry ∈ journal.executed, (node.receipts.lookup entry.1.hash).isSome

theorem Receipted.advance (receipted : Receipted node journal)
    (advanced : advance host iteration fuel stateFree node phase = some (node', progress)) :
    Receipted node' (journal.enter host fuel node phase) := by
  unfold Receipted
  cases chainMove_of_advance journal advanced with
  | still _ receipts entered =>
    rw [receipts, entered]
    exact receipted
  | aborted _ entered =>
    rw [entered]
    exact receipted
  | @executed _ transaction _ receipt state _ entered =>
    rw [entered]
    intro entry member
    show ((node.receipts.insert transaction.tx.hash receipt).lookup entry.1.hash).isSome
    -- A receipt may be replaced by the one of the same hash.
    by_cases same : entry.1.hash = transaction.tx.hash
    · rw [same, AList.lookup_insert]
      rfl
    · rw [AList.lookup_insert_ne same]
      rcases List.mem_append.mp member with old | new
      · exact receipted entry old
      · obtain rfl := List.mem_singleton.mp new
        exact absurd rfl same

/-- The batch of one request among those of all. -/
theorem batches_perm (before middle after : List Phase) :
    (batches (before ++ middle ++ after)).Perm (batches middle ++ batches (before ++ after)) := by
  simp only [batches, List.flatMap_append]
  rw [← List.append_assoc]
  exact List.perm_append_comm.append_right _

end Accounts

section Audits

variable {host : Host} {iteration : NodeOrder} {state : StateFork} {server : Server}
  {journal : Journal} {allowed : RpcState → List Phase → Phase → Prop}

/-- Every run has a journal. -/
theorem exists_audited
    (run : Relation.ReflTransGen (Server.Moves host iteration allowed)
      ⟨RpcState.new state, []⟩ server) :
    ∃ journal, Server.Audited host iteration allowed state server journal := by
  induction run with
  | refl => exact ⟨_, .new⟩
  | tail _ moves ih =>
    obtain ⟨journal, audited⟩ := ih
    -- Every move of the server has its entry, even if that is none.
    cases moves with
    | sendRawTransaction tx raw => exact ⟨_, audited.sendRawTransaction tx raw⟩
    | mine => exact ⟨_, audited.mine⟩
    | setAutoMine enabled => exact ⟨_, audited.setAutoMine enabled⟩
    | request before phase after fuel sound advanced =>
      exact ⟨_, audited.request before phase after fuel sound advanced⟩

/-- A run stays one if more moves are allowed. -/
theorem Server.Audited.mono {allowed' : RpcState → List Phase → Phase → Prop}
    (audited : Server.Audited host iteration allowed state server journal)
    (implies : ∀ node others phase, allowed node others phase → allowed' node others phase) :
    Server.Audited host iteration allowed' state server journal := by
  -- Only the moves of requests can be excluded.
  induction audited with
  | new => exact .new
  | sendRawTransaction tx raw _ ih => exact ih.sendRawTransaction tx raw
  | mine _ ih => exact ih.mine
  | setAutoMine enabled _ ih => exact ih.setAutoMine enabled
  | request before phase after fuel _ permitted advanced ih =>
    exact ih.request before phase after fuel (implies _ _ _ permitted) advanced

/-- The books balance in every run. -/
theorem balanced_of_audited (audited : Server.Audited host iteration allowed state server journal) :
    Balanced server.node (batches server.requests) journal := by
  induction audited with
  | new => exact List.Perm.refl _
  | sendRawTransaction tx raw _ ih =>
    refine ih.of_perm (List.Perm.of_eq ?_)
    simp [batches, Phase.batch]
  | mine _ ih =>
    refine ih.of_perm (List.Perm.of_eq ?_)
    simp [batches, Phase.batch]
  | setAutoMine enabled _ ih => exact ih
  | @request node node' progress journal before phase after fuel _ _ advanced ih =>
    rw [List.append_cons] at ih
    -- The batch of the request that moves is brought to the front, and put back after it.
    have front := ih.of_perm ((batches_perm before [phase] after).append_left _)
    have own : batches [phase] = phase.batch := List.flatMap_singleton ..
    rw [own] at front
    exact (front.advance advanced).of_perm
      ((batches_perm before progress.remaining after).symm.append_left _)

end Audits

end MiniEvm
