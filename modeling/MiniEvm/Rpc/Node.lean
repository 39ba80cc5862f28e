import MiniEvm.Mempool.Pool
import MiniEvm.State.Root

/-! The node behind the server: its chain state, its pool, and the mining of a block. -/

namespace MiniEvm

open Frames

/-- What subscribers are told, before it is written out in hexadecimal. -/
inductive EvmEvent where
  | newHead (number : Nat) (hash : Word) (parentNumber : Nat)
  | log (record : LogRecord) (blockHash : Word) (blockNumber : Nat) (transactionHash : Word)
      (logIndex : Nat)
  | pendingTx (hash : Word)

/-- The iteration orders that a node depends on. -/
structure NodeOrder where
  pool : PoolOrder
  state : StateOrder

/-- Everything in the order in which it is listed. -/
def NodeOrder.listed : NodeOrder where
  pool := .listed
  state := .listed

structure RpcState where
  state : StateFork
  receipts : HashMap Word TxExecutionReceipt
  txPool : TxPool
  blockNumber : Nat
  stateRoot : Word
  autoMine : Bool
  events : List EvmEvent

/-- A node on a given state, with an empty pool. -/
def RpcState.new (state : StateFork) : RpcState where
  state
  receipts := ∅
  txPool := .new
  blockNumber := 0
  stateRoot := 0
  autoMine := true
  events := []

/-- The gas that the transactions of one block may ask for together. -/
def blockGasLimit : Nat := 30000000

/-- The hash of a block, which is its number in the first eight bytes. -/
def blockHash (number : Nat) : Word := fromBeBytes (beBytes 8 number ++ List.replicate 24 0)

/-- The text of an execution error in a message. -/
def ExecutionError.debug : ExecutionError → String
  | nonceMismatch expected got =>
    "NonceMismatch \x7b expected: " ++ toString expected ++ ", got: " ++ toString got ++ " \x7d"
  | insufficientBalance => "InsufficientBalance"

/-- The nonces of some senders, as the state has them. -/
def readNonces (state : StateFork) (senders : List Address) : HashMap Address Nat :=
  senders.foldl (fun nonces sender => nonces.insert sender (state.getAccount sender).nonce) ∅

/-- The events of one executed transaction, a log at a time. -/
def logEvents (number : Nat) (tx : SignedTransaction) (receipt : TxExecutionReceipt) :
    List EvmEvent :=
  receipt.logs.mapIdx fun index record =>
    .log record (blockHash number) number tx.hash index

namespace RpcState

/-- What an executed transaction leaves in the node. -/
def record (node : RpcState) (tx : SignedTransaction) (receipt : TxExecutionReceipt)
    (state : StateFork) : RpcState :=
  { node with
    -- Transient slots last for one transaction.
    state := state.clearTransientStorage
    receipts := node.receipts.insert tx.hash receipt
    events := node.events ++ logEvents node.blockNumber tx receipt }

/-- Executes the transactions of a block until one of them is turned down. -/
def mineBlock.execute (host : Host) (fuel : Nat) :
    List PendingTx → RpcState → Outcome Fault (Except String Unit × RpcState)
  | [], node => pure (.ok (), node)
  | transaction :: rest, node => do
    let (answer, state) ← applySignedTransaction host fuel node.state transaction.tx
    match answer with
    -- Neither what was executed before nor what was taken out of the pool is put back.
    | .error error =>
      return (.error ("transaction execution failed: " ++ error.debug), { node with state })
    | .ok receipt => execute host fuel rest (node.record transaction.tx receipt state)

/-- The node with the next block number, and with the block's transactions out of the pool. -/
def mineBlock.select (iteration : PoolOrder) (senders : List Address) (node : RpcState) :
    List PendingTx × RpcState :=
  -- The nonces are those of senders that were listed before the state was locked.
  let (selected, txPool) :=
    node.txPool.popExecutable iteration (readNonces node.state senders) blockGasLimit
  (selected, { node with txPool, blockNumber := saturatingAdd node.blockNumber 1 })

/-- The node with the root of its state and the new head announced. -/
def mineBlock.publish (host : Host) (iteration : StateOrder) (node : RpcState) : RpcState :=
  { node with
    stateRoot := node.state.computeStateRoot host iteration
    events := node.events ++
      [.newHead node.blockNumber (blockHash node.blockNumber) (node.blockNumber - 1)] }

/-- Mines one block, with nobody else at work; yields its hash or the first error. -/
def mineBlock (host : Host) (iteration : NodeOrder) (fuel : Nat) (node : RpcState) :
    Outcome Fault (Except String Word × RpcState) := do
  let senders := node.txPool.senders iteration.pool
  let (selected, node) := mineBlock.select iteration.pool senders node
  let (answer, node) ← mineBlock.execute host fuel selected node
  match answer with
  -- A block that is given up has no head, but keeps its number.
  | .error message => return (.error message, node)
  | .ok () => return (.ok (blockHash node.blockNumber), mineBlock.publish host iteration.state node)

end RpcState

end MiniEvm
