import Mathlib.Algebra.Order.Ring.Nat
import MiniEvm.Rpc.Requests

/-! A journal beside the server: what becomes of every transaction that the pool takes. -/

namespace MiniEvm

open Frames RpcState

/-- A transaction as it was sent. -/
def PendingTx.sent (pending : PendingTx) : SignedTransaction × Bytes := (pending.tx, pending.raw)

/-- The transactions that the pool has taken, and those that have left a block for good. -/
structure Journal where
  accepted : List (SignedTransaction × Bytes) := []
  executed : List (SignedTransaction × Bytes) := []
  -- Those of the executed transactions, in their order.
  receipts : List TxExecutionReceipt := []
  -- Begun, and ended by an abort, so that there is no receipt.
  aborted : List (SignedTransaction × Bytes) := []
  -- Those that have used up a nonce, executed or aborted, in their order.
  spent : List (SignedTransaction × Bytes) := []
  -- Taken out of the pool for a block that was given up.
  dropped : List (SignedTransaction × Bytes) := []

/-- The transactions of one sender that have used up a nonce. -/
def Journal.spentFor (journal : Journal) (sender : Address) : List (SignedTransaction × Bytes) :=
  journal.spent.filter fun entry => entry.1.sender = sender

/-- What the executed transactions have cost by their receipts. -/
def Journal.fees (journal : Journal) : Nat :=
  ((journal.executed.zip journal.receipts).map fun entry =>
    entry.2.gasUsed * entry.1.1.maxFeePerGas.toNat).sum

/-- What the aborted transactions have paid in advance, of which nothing comes back. -/
def Journal.forfeits (journal : Journal) : Nat :=
  (journal.aborted.map fun entry => entry.1.gasLimit * entry.1.maxFeePerGas.toNat).sum

/-- What an aborted transaction adds to those that have used up a nonce. -/
def Journal.spentByAbort (host : Host) (node : RpcState) (transaction : PendingTx) :
    List (SignedTransaction × Bytes) :=
  match bumpNonce host (node.state.getAccount transaction.tx.sender).nonce with
  | .value _ => [transaction.sent]
  | _ => []

/-- What one move of a request adds to the journal. -/
def Journal.enter (host : Host) (fuel : Nat) (node : RpcState) (journal : Journal) :
    Phase → Journal
  | .inserting tx raw =>
    match node.txPool.insert tx.sender tx raw with
    | .error _ => journal
    | .ok _ => { journal with accepted := journal.accepted ++ [(tx, raw)] }
  | .executing _ (transaction :: rest) =>
    match applySignedTransaction host fuel node.state transaction.tx with
    | .value (.ok receipt, _) => { journal with
        executed := journal.executed ++ [transaction.sent]
        receipts := journal.receipts ++ [receipt]
        spent := journal.spent ++ [transaction.sent] }
    | .fault _ => { journal with
        aborted := journal.aborted ++ [transaction.sent]
        spent := journal.spent ++ spentByAbort host node transaction
        dropped := journal.dropped ++ rest.map PendingTx.sent }
    -- The transaction that is turned down takes the rest of its block with it.
    | _ => { journal with
        dropped := journal.dropped ++ (transaction :: rest).map PendingTx.sent }
  | _ => journal

/-- A server with the journal of the run that led to it, where some moves may be excluded. -/
inductive Server.Audited (host : Host) (iteration : NodeOrder)
    (allowed : RpcState → List Phase → Phase → Prop) (state : StateFork) :
    Server → Journal → Prop
  | new : Audited host iteration allowed state ⟨RpcState.new state, []⟩ {}
  | sendRawTransaction {node requests journal} (tx : SignedTransaction) (raw : Bytes) :
      Audited host iteration allowed state ⟨node, requests⟩ journal →
      Audited host iteration allowed state ⟨node, requests ++ [.checking tx raw]⟩ journal
  | mine {node requests journal} : Audited host iteration allowed state ⟨node, requests⟩ journal →
      Audited host iteration allowed state ⟨node, requests ++ [.listing none]⟩ journal
  | setAutoMine {node requests journal} (enabled : Bool) :
      Audited host iteration allowed state ⟨node, requests⟩ journal →
      Audited host iteration allowed state ⟨{ node with autoMine := enabled }, requests⟩ journal
  | request {node node' progress journal} (before : List Phase) (phase : Phase)
      (after : List Phase) (fuel : Nat) :
      Audited host iteration allowed state ⟨node, before ++ phase :: after⟩ journal →
      allowed node (before ++ after) phase →
      advance host iteration fuel (!(before ++ after).any Phase.holdsState) node phase =
        some (node', progress) →
      Audited host iteration allowed state ⟨node', before ++ progress.remaining ++ after⟩
        (journal.enter host fuel node phase)

end MiniEvm
