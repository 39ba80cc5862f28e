import MiniEvm.Proofs.Mempool.Pool
import MiniEvm.Proofs.Vm.Transactions
import MiniEvm.Rpc.Node

/-! Mining against its errors: what becomes of the transactions that a block takes up. -/

namespace MiniEvm

open Frames RpcState

variable {host : Host} {iteration : NodeOrder} {fuel : Nat} {node : RpcState}
  {transactions : List PendingTx}

/-- Every transaction passes both checks in the state that those before it have left. -/
def Passes (host : Host) (fuel : Nat) : List PendingTx → StateFork → Prop
  | [], _ => True
  | transaction :: rest, state => rejection state transaction.tx = none ∧
    ∀ receipt after, applySignedTransaction host fuel state transaction.tx =
      .value (.ok receipt, after) → Passes host fuel rest after.clearTransientStorage

/-- The transactions that the next block takes up, the first one first. -/
def nextBlock (iteration : PoolOrder) (node : RpcState) : List PendingTx :=
  (node.txPool.popExecutable iteration
    (readNonces node.state (node.txPool.senders iteration)) blockGasLimit).1

/-- A transaction that is no longer in the pool has a receipt. -/
def Accounted (node : RpcState) (transaction : PendingTx) : Prop :=
  transaction ∈ node.txPool.pending ∨
    ∃ receipt, node.receipts.lookup transaction.tx.hash = some receipt

/--
Mining a block loses no transaction and does nothing by halves.

Its outcome accounts for the whole pool, an error leaves everything as it was, and the published
root belongs to the state unless neither of them has changed.
-/
structure LosesNothing (host : Host) (iteration : NodeOrder) (fuel : Nat) (node : RpcState) :
    Prop where
  accounted : ∀ answer after, mineBlock host iteration fuel node = .value (answer, after) →
    ∀ transaction ∈ node.txPool.pending, Accounted after transaction
  undone : ∀ message after, mineBlock host iteration fuel node = .value (.error message, after) →
    after.state = node.state ∧ after.receipts = node.receipts ∧
      after.blockNumber = node.blockNumber ∧
      after.txPool.pending.Perm node.txPool.pending
  rooted : ∀ answer after, mineBlock host iteration fuel node = .value (answer, after) →
    after.stateRoot = after.state.computeStateRoot host iteration.state ∨
      (after.stateRoot = node.stateRoot ∧ after.state = node.state)

/-- A receipt that was written stays, if perhaps under another one for the same hash. -/
theorem record_receipts {tx : SignedTransaction} {receipt : TxExecutionReceipt}
    {state : StateFork} {hash : Word}
    (written : hash = tx.hash ∨ ∃ receipt, node.receipts.lookup hash = some receipt) :
    ∃ receipt', (node.record tx receipt state).receipts.lookup hash = some receipt' := by
  -- Only the receipt of the same hash can have been written over.
  by_cases same : hash = tx.hash
  · subst same
    exact ⟨receipt, AList.lookup_insert _⟩
  · obtain ⟨old, found⟩ := written.resolve_left same
    exact ⟨old, (AList.lookup_insert_ne same).trans found⟩

/-- Transactions that all pass are all executed, and each of them gets its receipt. -/
theorem execute_of_passes {answer : Except String Unit} {after : RpcState}
    (passes : Passes host fuel transactions node.state)
    (executed : mineBlock.execute host fuel transactions node = .value (answer, after)) :
    answer = .ok () ∧ after.txPool = node.txPool ∧
      (∀ hash, (∃ receipt, node.receipts.lookup hash = some receipt) →
        ∃ receipt, after.receipts.lookup hash = some receipt) ∧
      ∀ transaction ∈ transactions,
        ∃ receipt, after.receipts.lookup transaction.tx.hash = some receipt := by
  induction transactions generalizing node with
  | nil =>
    -- Nothing is executed, and nothing is to be recorded.
    cases executed
    exact ⟨rfl, rfl, fun _ => id, by simp⟩
  | cons transaction rest ih =>
    obtain ⟨accepted, others⟩ := passes
    simp only [mineBlock.execute] at executed
    obtain ⟨⟨outcome, state⟩, applied, goes⟩ := Outcome.bind_eq_value executed
    rcases applySignedTransaction_cases applied with ⟨error, refused, _, _⟩ |
      ⟨_, bumped, result, vm, _, _, rfl, _⟩
    · -- Had it been turned down, it would not have passed.
      rw [accepted] at refused
      cases refused
    · -- The receipt is on record before the others are executed.
      obtain ⟨done, pool, kept, receipts⟩ := ih (others _ _ applied) goes
      refine ⟨done, pool, fun hash written => kept hash (record_receipts (.inr written)), ?_⟩
      intro executedTx member
      rcases List.mem_cons.mp member with rfl | later
      · exact kept _ (record_receipts (.inl rfl))
      · exact receipts executedTx later

/-- Where one transaction does not pass, the execution ends with an error. -/
theorem execute_of_not_passes (fails : ¬ Passes host fuel transactions node.state) :
    transactions ≠ [] ∧ ∃ message after, mineBlock.execute host fuel transactions node =
      .value (.error message, after) ∧ after.txPool = node.txPool := by
  induction transactions generalizing node with
  | nil => exact absurd trivial fails
  | cons transaction rest ih =>
    refine ⟨by simp, ?_⟩
    simp only [mineBlock.execute]
    cases checked : rejection node.state transaction.tx with
    | some error =>
      -- The first one to be turned down ends the block.
      rw [applySignedTransaction_of_rejection checked]
      exact ⟨_, _, rfl, rfl⟩
    | none =>
      -- This one passes, so another one behind it does not.
      simp only [Passes, checked, true_and, not_forall] at fails
      obtain ⟨receipt, state, applied, fails⟩ := fails
      obtain ⟨_, message, after, errs, pool⟩ := @ih (node.record transaction.tx receipt state) fails
      rw [applied]
      exact ⟨message, after, errs, pool⟩

/-- The node as it starts to execute the next block. -/
def opened (iteration : PoolOrder) (node : RpcState) : RpcState :=
  (mineBlock.select iteration (node.txPool.senders iteration) node).2

/-- The next block and what stays in the pool are what was in the pool. -/
theorem opened_perm (iteration : PoolOrder) (node : RpcState) :
    node.txPool.pending.Perm (nextBlock iteration node ++ (opened iteration node).txPool.pending) :=
  popExecutable_perm node.txPool (readNonces node.state (node.txPool.senders iteration))

/-- A block is opened, executed and, if that went well, published. -/
theorem mineBlock_eq (host : Host) (iteration : NodeOrder) (fuel : Nat) (node : RpcState) :
    mineBlock host iteration fuel node = (do
      let (answer, after) ← mineBlock.execute host fuel (nextBlock iteration.pool node)
        (opened iteration.pool node)
      match answer with
      | .error message => return (.error message, after)
      | .ok () =>
        return (.ok (blockHash after.blockNumber),
          mineBlock.publish host iteration.state after)) := rfl

/-- A block of which every transaction passes is published. -/
theorem mineBlock_of_passes {answer : Except String Word} {after : RpcState}
    (passes : Passes host fuel (nextBlock iteration.pool node) node.state)
    (mined : mineBlock host iteration fuel node = .value (answer, after)) :
    ∃ executed, answer = .ok (blockHash executed.blockNumber) ∧
      after = mineBlock.publish host iteration.state executed ∧
      executed.txPool = (opened iteration.pool node).txPool ∧
      ∀ transaction ∈ nextBlock iteration.pool node,
        ∃ receipt, executed.receipts.lookup transaction.tx.hash = some receipt := by
  rw [mineBlock_eq] at mined
  obtain ⟨⟨outcome, executed⟩, ran, rest⟩ := Outcome.bind_eq_value mined
  -- The state that is executed on is that of the node.
  have begun : Passes host fuel (nextBlock iteration.pool node)
      (opened iteration.pool node).state := passes
  obtain ⟨rfl, pool, _, receipts⟩ := execute_of_passes begun ran
  cases rest
  exact ⟨executed, rfl, rfl, pool, receipts⟩

/-- A block with a transaction that does not pass ends in an error, and its batch is gone. -/
theorem mineBlock_of_not_passes
    (fails : ¬ Passes host fuel (nextBlock iteration.pool node) node.state) :
    ∃ message after, mineBlock host iteration fuel node = .value (.error message, after) ∧
      after.txPool.len < node.txPool.len := by
  have begun : ¬ Passes host fuel (nextBlock iteration.pool node)
      (opened iteration.pool node).state := fails
  obtain ⟨some_, message, after, ran, pool⟩ := execute_of_not_passes begun
  refine ⟨message, after, ?_, ?_⟩
  · rw [mineBlock_eq, ran]
    rfl
  · -- What was taken up is missing from the pool.
    have length := (opened_perm iteration.pool node).length_eq
    have taken := List.length_pos_iff.mpr some_
    rw [List.length_append] at length
    rw [pool]
    simp only [TxPool.len]
    omega

/--
A block loses transactions exactly when one of them is turned down.

Nothing is lost as long as each transaction of the block, when its turn comes, has the nonce and
the balance of its sender on its side.
-/
theorem losesNothing_iff (host : Host) (iteration : NodeOrder) (fuel : Nat) (node : RpcState) :
    LosesNothing host iteration fuel node ↔
      Passes host fuel (nextBlock iteration.pool node) node.state := by
  constructor
  · intro loses
    by_contra fails
    obtain ⟨message, after, mined, shorter⟩ := mineBlock_of_not_passes fails
    obtain ⟨_, _, _, same⟩ := loses.undone message after mined
    -- An error would have to leave the pool as long as it was.
    have length := same.length_eq
    simp only [TxPool.len] at shorter
    omega
  · intro passes
    constructor
    · intro answer after mined transaction member
      obtain ⟨executed, _, rfl, pool, receipts⟩ := mineBlock_of_passes passes mined
      -- What was in the pool was taken up, and has a receipt, or is still there.
      rcases List.mem_append.mp ((opened_perm iteration.pool node).mem_iff.mp member) with
        taken | left
      · exact .inr (receipts transaction taken)
      · apply Or.inl
        rw [← pool] at left
        exact left
    · -- There is no error to begin with.
      intro message after mined
      obtain ⟨executed, error, _⟩ := mineBlock_of_passes passes mined
      cases error
    · intro answer after mined
      obtain ⟨executed, _, rfl, _⟩ := mineBlock_of_passes passes mined
      -- Publishing computes the root last.
      exact .inl rfl

/-- One wei from an account that has none. -/
def unpayable : SignedTransaction where
  hash := 7
  txType := .legacy
  chainId := some 1
  nonce := 0
  gasLimit := 30000
  maxFeePerGas := 0
  maxPriorityFeePerGas := 0
  to_ := some 0x0a
  value := 1
  data := []
  sender := 0x01

/-- It enters the pool, and the next block takes it out for good. -/
theorem unpayable_transaction_is_lost :
    ∃ pool, TxPool.new.insert unpayable.sender unpayable [] = .ok pool ∧ pool.len = 1 ∧
      (∃ after, mineBlock (tableHost []) .listed 1
          { RpcState.new {} with txPool := pool } =
            .value (.error "transaction execution failed: InsufficientBalance", after) ∧
        after.txPool.len = 0 ∧ after.receipts.lookup unpayable.hash = none ∧
        after.blockNumber = 1) ∧
      ¬ LosesNothing (tableHost []) .listed 1
        { RpcState.new {} with txPool := pool } := by
  refine ⟨_, rfl, rfl, ⟨_, rfl, rfl, rfl, rfl⟩, ?_⟩
  intro loses
  -- It would have to be pooled still or to have a receipt, and it does neither.
  have kept := loses.accounted _ _ rfl _ (List.mem_singleton.mpr rfl)
  rcases kept with pooled | ⟨receipt, written⟩
  · cases pooled
  · cases written

end MiniEvm
