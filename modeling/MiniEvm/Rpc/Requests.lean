import Mathlib.Logic.Relation
import MiniEvm.Rpc.Estimator
import MiniEvm.Rpc.Node

/-! Requests in progress: sending a transaction and mining a block, one switch point at a time. -/

namespace MiniEvm

open Frames RpcState

/-- The error with a code of its own. -/
def JsonRpcError.custom (code : Int) (message : String) : JsonRpcError where
  code := code
  message := message

/--
How far a request has come.

A request to send a transaction goes through the first three phases and then, if blocks are mined at
once, through those of mining, which an explicit request for a block starts with.
The reply is the hash that the sender of a transaction is waiting for.
-/
inductive Phase where
  -- Decoded, and waiting to read the nonce of the sender.
  | checking (tx : SignedTransaction) (raw : Bytes)
  -- Found to be no lower than the nonce, and waiting for the pool.
  | inserting (tx : SignedTransaction) (raw : Bytes)
  | announcing (tx : SignedTransaction)
  -- At the start of mining, waiting for the pool.
  | listing (reply : Option Word)
  | locking (reply : Option Word) (senders : List Address)
  -- From here on the state is locked.
  | selecting (reply : Option Word) (senders : List Address)
  | executing (reply : Option Word) (batch : List PendingTx)
  | publishing (reply : Option Word)

/-- Whether a request has locked the state. -/
def Phase.holdsState : Phase → Bool
  | selecting _ _ | executing _ _ | publishing _ => true
  | _ => false

/-- The transactions that a request has taken out of the pool and not executed yet. -/
def Phase.batch : Phase → List PendingTx
  | executing _ batch => batch
  | _ => []

/-- What a request does next: it goes on, it is answered, or it is gone without an answer. -/
inductive Progress where
  | next (phase : Phase)
  | done (answer : Except JsonRpcError Word)
  -- Its task has panicked, which gives its locks back.
  | aborted

/-- What is left of a request. -/
def Progress.remaining : Progress → List Phase
  | next phase => [phase]
  | done _ | aborted => []

/-- The part of a request up to its next switch point, unless it has to wait for the state. -/
def advance (host : Host) (iteration : NodeOrder) (fuel : Nat) (stateFree : Bool)
    (node : RpcState) : Phase → Option (RpcState × Progress)
  | .checking tx raw =>
    -- The lock is given back as soon as the nonce is read.
    if stateFree then
      if tx.nonce < (node.state.getAccount tx.sender).nonce then
        some (node, .done (.error (.custom (-32000) "nonce is lower than account nonce")))
      else some (node, .next (.inserting tx raw))
    else none
  | .inserting tx raw =>
    match node.txPool.insert tx.sender tx raw with
    | .error message => some (node, .done (.error (.custom (-32000) message)))
    | .ok txPool => some ({ node with txPool }, .next (.announcing tx))
  | .announcing tx =>
    some ({ node with events := node.events ++ [.pendingTx tx.hash] },
      if node.autoMine then .next (.listing (some tx.hash)) else .done (.ok tx.hash))
  | .listing reply => some (node, .next (.locking reply (node.txPool.senders iteration.pool)))
  | .locking reply senders =>
    if stateFree then some (node, .next (.selecting reply senders)) else none
  | .selecting reply senders =>
    let (batch, node) := mineBlock.select iteration.pool senders node
    some (node, .next (.executing reply batch))
  | .executing reply [] => some (node, .next (.publishing reply))
  | .executing reply (transaction :: rest) =>
    match applySignedTransaction host fuel node.state transaction.tx with
    | .value (.ok receipt, state) =>
      some (node.record transaction.tx receipt state, .next (.executing reply rest))
    | .value (.error error, state) => some ({ node with state },
        .done (.error (.custom (-32000) ("transaction execution failed: " ++ error.debug))))
    -- The rest of the batch goes down with the task, and the block has no head.
    | .fault _ =>
      some ({ node with state := abortedState host node.state transaction.tx }, .aborted)
    | .outOfFuel => none
  | .publishing reply =>
    some (mineBlock.publish host iteration.state node,
      .done (.ok (reply.getD (blockHash node.blockNumber))))

/-- A node with the requests that it is working on. -/
structure Server where
  node : RpcState
  requests : List Phase

/-- What the server can do next, where some moves of requests may be excluded. -/
inductive Server.Moves (host : Host) (iteration : NodeOrder)
    (allowed : RpcState → List Phase → Phase → Prop) : Server → Server → Prop
  | sendRawTransaction {node requests} (tx : SignedTransaction) (raw : Bytes) :
      Moves host iteration allowed ⟨node, requests⟩ ⟨node, requests ++ [.checking tx raw]⟩
  | mine {node requests} :
      Moves host iteration allowed ⟨node, requests⟩ ⟨node, requests ++ [.listing none]⟩
  | setAutoMine {node requests} (enabled : Bool) :
      Moves host iteration allowed ⟨node, requests⟩ ⟨{ node with autoMine := enabled }, requests⟩
  -- Any request may be the next one to move, as long as the state is free where it needs it.
  | request {node node' progress} (before : List Phase) (phase : Phase) (after : List Phase)
      (fuel : Nat) : allowed node (before ++ after) phase →
      advance host iteration fuel (!(before ++ after).any Phase.holdsState) node phase =
        some (node', progress) →
      Moves host iteration allowed ⟨node, before ++ phase :: after⟩
        ⟨node', before ++ progress.remaining ++ after⟩

end MiniEvm
