import MiniEvm.Proofs.Rpc.Ledger
import MiniEvm.Rpc.Handlers

/-! What clients read while requests are interleaved is what they could read between whole
blocks. -/

namespace MiniEvm

open Frames RpcState

section Histories

variable (libraries : Libraries) (host : Host) (iteration : NodeOrder) (state : StateFork)

/-- A reading of the node, and what it came to. -/
structure Seen where
  read : Read
  reply : Except JsonRpcError Value

/-- All that can be read of a server while its requests are interleaved, up to some moment. -/
inductive Server.Reads : Server → List Seen → Prop
  | new : Reads ⟨RpcState.new state, []⟩ []
  | moves {server server' seen} : Reads server seen →
      Server.Moves host iteration (fun _ _ _ => True) server server' → Reads server' seen
  | read {server seen reply} (fuel : Nat) (read : Read) : Reads server seen →
      read.free server.requests = true →
      read.reply libraries host fuel server.node = .value reply →
      Reads server (seen ++ [⟨read, reply⟩])

/-- All that can be read of a ledger between its blocks. -/
inductive BlockLedger.Reads : BlockLedger → List Seen → Prop
  | new : Reads (BlockLedger.new state) []
  | step {ledger ledger' seen} : Reads ledger seen →
      BlockLedger.Step host iteration ledger ledger' → Reads ledger' seen
  | read {ledger seen reply} (fuel : Nat) (read : Read) : Reads ledger seen →
      read.reply libraries host fuel ledger.node = .value reply →
      Reads ledger (seen ++ [⟨read, reply⟩])

end Histories

section Reading

variable {libraries : Libraries} {host : Host} {iteration : NodeOrder} {state : StateFork}
  {server : Server} {ledger : BlockLedger} {listed : List (List Address)} {fuel : Nat}

/-- The root of a server is that of its ledger, whatever is under way. -/
theorem root_of_holding {view : RpcState} {holders : List Phase}
    (holding : Holding host iteration ledger listed view holders) :
    view.stateRoot = ledger.node.stateRoot := by
  match holders, holding with
  | [], ⟨same, _⟩ => rw [same]
  | [.selecting _ _], ⟨same, _, _⟩ => rw [same]
  | [.executing _ _], ⟨_, _, underway⟩ => exact underway.root
  | [.publishing _], ⟨_, _, underway⟩ => exact underway.root

/-- While no block is under way, the server is like its ledger. -/
theorem view_of_holding {view : RpcState} {holders : List Phase}
    (holding : Holding host iteration ledger listed view holders)
    (idle : ∀ phase ∈ holders, phase.inBlock = false) : view = ledger.node := by
  match holders, holding with
  | [], ⟨same, _⟩ => exact same
  | [.selecting _ _], ⟨same, _, _⟩ => exact same
  | [.executing _ _], _ => exact nomatch idle _ (List.mem_singleton_self _)
  | [.publishing _], _ => exact nomatch idle _ (List.mem_singleton_self _)

/-- What can be read of a server at some moment can be read of its ledger. -/
theorem Refines.reply (refines : Refines host iteration server ledger listed) (read : Read)
    (free : read.free server.requests = true) :
    read.reply libraries host fuel server.node = read.reply libraries host fuel ledger.node := by
  have holding := refines.holding
  have root : server.node.stateRoot = ledger.node.stateRoot := by
    have same := root_of_holding holding
    exact same
  -- A free lock of the number or the receipts tells that no block is under way.
  have block : (!server.requests.any Phase.inBlock) = true →
      server.node.blockNumber = ledger.node.blockNumber ∧
        server.node.receipts = ledger.node.receipts := by
    intro free
    rw [Bool.not_eq_true', List.any_eq_false] at free
    have same := view_of_holding holding fun phase member =>
      eq_false_of_ne_true (free phase (List.mem_filter.mp member).1)
    have number := congrArg RpcState.blockNumber same
    have receipts := congrArg RpcState.receipts same
    exact ⟨number, receipts⟩
  -- A free lock of the state tells that nobody holds it.
  have chain : (!server.requests.any Phase.holdsState) = true →
      server.node.state = ledger.node.state := by
    intro free
    rw [Bool.not_eq_true', List.any_eq_false] at free
    have same := view_of_holding holding fun phase member =>
      absurd (List.mem_filter.mp member).2 (free phase (List.mem_filter.mp member).1)
    have state := congrArg RpcState.state same
    exact state
  cases read with
  | ethCall params => simp only [Read.reply, chain free]
  | ethEstimateGas params => simp only [Read.reply, chain free]
  | ethGetStorageAt params => simp only [Read.reply, chain free]
  | ethGetCode params => simp only [Read.reply, chain free]
  | ethGetTransactionReceipt params => simp only [Read.reply, (block free).2]
  | blockNumber => simp only [Read.reply, (block free).1]
  | stateRoot => simp only [Read.reply, root]

/-- A ledger goes on, and what was read of it stays read. -/
theorem BlockLedger.Reads.steps {ledger' : BlockLedger} {seen : List Seen}
    (reads : BlockLedger.Reads libraries host iteration state ledger seen)
    (steps : Relation.ReflTransGen (BlockLedger.Step host iteration) ledger ledger') :
    BlockLedger.Reads libraries host iteration state ledger' seen := by
  induction steps with
  | refl => exact reads
  | tail _ step ih => exact ih.step step

end Reading

section Witness

end Witness

end MiniEvm
