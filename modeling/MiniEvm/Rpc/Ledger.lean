import MiniEvm.Rpc.Requests

/-! What requests are for: a ledger whose blocks are mined one at a time, each in one piece. -/

namespace MiniEvm

open Frames RpcState

/-- Whether an event belongs to a block. -/
def EvmEvent.ofBlock : EvmEvent → Bool
  | pendingTx _ => false
  | _ => true

/-- A node without what blocks neither read nor write: the switch, and the announcements. -/
def RpcState.ledger (node : RpcState) : RpcState :=
  { node with
    autoMine := true
    events := node.events.filter EvmEvent.ofBlock }

/-- How a block comes to its end: with an answer, or by an abort that leaves none. -/
inductive Ending (α : Type) where
  | answered (answer : Except String α)
  | aborted (cause : Fault)

/-- What is known of a block to somebody who loses the node with an abort. -/
def Ending.outcome {α : Type} :
    Option (Ending α × RpcState) → Outcome Fault (Except String α × RpcState)
  | none => .outOfFuel
  | some (answered answer, node) => .value (answer, node)
  | some (aborted cause, _) => .fault cause

namespace RpcState

/-- Executes a batch up to the first transaction that is turned down or aborts. -/
def executeBatch (host : Host) (fuel : Nat) :
    List PendingTx → RpcState → Option (Ending Unit × RpcState)
  | [], node => some (.answered (.ok ()), node)
  | transaction :: rest, node =>
    match applySignedTransaction host fuel node.state transaction.tx with
    | .value (.ok receipt, state) =>
      executeBatch host fuel rest (node.record transaction.tx receipt state)
    | .value (.error error, state) =>
      some (.answered (.error ("transaction execution failed: " ++ error.debug)),
        { node with state })
    | .fault cause =>
      some (.aborted cause, { node with state := abortedState host node.state transaction.tx })
    | .outOfFuel => none

/-- How a block ends: with its head if all its transactions were executed, and else as it is. -/
def endBlock (host : Host) (iteration : StateOrder) (node : RpcState) :
    Ending Unit → Ending Word × RpcState
  | .answered (.ok ()) =>
    (.answered (.ok (blockHash node.blockNumber)), mineBlock.publish host iteration node)
  | .answered (.error message) => (.answered (.error message), node)
  | .aborted cause => (.aborted cause, node)

/-- Mines one block for senders that were listed before. -/
def mineListed (host : Host) (iteration : NodeOrder) (fuel : Nat) (senders : List Address)
    (node : RpcState) : Option (Ending Word × RpcState) :=
  let (selected, node) := mineBlock.select iteration.pool senders node
  (executeBatch host fuel selected node).map fun ended =>
    ended.2.endBlock host iteration.state ended.1

/-- But for the node behind an abort, a batch is executed as it is for a block. -/
theorem execute_eq (host : Host) (fuel : Nat) (batch : List PendingTx) (node : RpcState) :
    mineBlock.execute host fuel batch node =
      Ending.outcome (executeBatch host fuel batch node) := by
  induction batch generalizing node with
  | nil => rfl
  | cons transaction rest ih =>
    unfold mineBlock.execute executeBatch
    cases applySignedTransaction host fuel node.state transaction.tx with
    | outOfFuel => rfl
    | fault cause => rfl
    | value ended =>
      obtain ⟨answer, state⟩ := ended
      cases answer with
      | error error => rfl
      | ok receipt => exact ih _

/-- A request for a block lists the senders and mines for them. -/
theorem mineBlock_eq (host : Host) (iteration : NodeOrder) (fuel : Nat) (node : RpcState) :
    mineBlock host iteration fuel node = Ending.outcome
      (node.mineListed host iteration fuel (node.txPool.senders iteration.pool)) := by
  unfold mineBlock mineListed
  simp only [execute_eq]
  cases executeBatch host fuel (mineBlock.select iteration.pool
      (node.txPool.senders iteration.pool) node).1 (mineBlock.select iteration.pool
      (node.txPool.senders iteration.pool) node).2 with
  | none => rfl
  | some ended =>
    obtain ⟨ending, last⟩ := ended
    cases ending with
    | aborted cause => rfl
    | answered answer => cases answer <;> rfl

end RpcState

/-- A pool with the transactions that may enter it, and with the senders it was listed with. -/
structure Desk where
  pool : TxPool
  -- Found to be no lower than the nonce of their sender.
  checked : List SignedTransaction
  listed : List (List Address)

/-- What happens to a pool, whatever happens to the chain. -/
inductive Desk.Step (iteration : PoolOrder) : Desk → Desk → Prop
  | insert {pool pool' checked listed} (tx : SignedTransaction) (raw : Bytes) : tx ∈ checked →
      TxPool.insert pool tx.sender tx raw = .ok pool' →
      Step iteration ⟨pool, checked, listed⟩ ⟨pool', checked, listed⟩
  | list {pool checked listed} : Step iteration ⟨pool, checked, listed⟩
      ⟨pool, checked, pool.senders iteration :: listed⟩

/-- A chain and its pool, between two blocks. -/
structure BlockLedger where
  node : RpcState
  checked : List SignedTransaction
  listed : List (List Address)

namespace BlockLedger

/-- The ledger of a new node. -/
def new (state : StateFork) : BlockLedger where
  node := RpcState.new state
  checked := []
  listed := []

def desk (ledger : BlockLedger) : Desk where
  pool := ledger.node.txPool
  checked := ledger.checked
  listed := ledger.listed

/-- The ledger with another pool at its desk. -/
def withDesk (ledger : BlockLedger) (desk : Desk) : BlockLedger where
  node := { ledger.node with txPool := desk.pool }
  checked := desk.checked
  listed := desk.listed

/-- One thing at a time: a nonce is checked, the pool changes, or a whole block is mined. -/
inductive Step (host : Host) (iteration : NodeOrder) : BlockLedger → BlockLedger → Prop
  | check {ledger} (tx : SignedTransaction) :
      (ledger.node.state.getAccount tx.sender).nonce ≤ tx.nonce →
      Step host iteration ledger { ledger with checked := tx :: ledger.checked }
  | serve {ledger desk} : Desk.Step iteration.pool ledger.desk desk →
      Step host iteration ledger (ledger.withDesk desk)
  -- The block ends with its head, or with the first transaction that is turned down or aborts.
  | mine {ledger node ending} (senders : List Address) (fuel : Nat) : senders ∈ ledger.listed →
      ledger.node.mineListed host iteration fuel senders = some (ending, node) →
      Step host iteration ledger { ledger with node }

end BlockLedger

/-- The requests that have locked the state. -/
def Server.holders (server : Server) : List Phase := server.requests.filter Phase.holdsState

/-- The phases in which the block of the current number is still under way. -/
def Phase.inBlock : Phase → Bool
  | executing _ _ | publishing _ => true
  | _ => false

end MiniEvm
