import MiniEvm.Rpc.Subscriptions

/-! The whole service: a node with its requests, and the connections to its channel of events. -/

namespace MiniEvm

open Frames RpcState

/--
What can have happened since the node was started.

Requests and connections go on side by side.
The channel carries the events of the node and nothing else, in their order.
-/
inductive Service.Run (host : Host) (iteration : NodeOrder) (state : StateFork) :
    Server → List Hub.Happening → Hub → Prop
  | new : Run host iteration state ⟨RpcState.new state, []⟩ [] Hub.new
  | serve {server server' past hub} : Run host iteration state server past hub →
      Server.Moves host iteration (fun _ _ _ => True) server server' →
      Run host iteration state server' past hub
  | connections {server past hub happening hub'} : Run host iteration state server past hub →
      Hub.Step hub happening hub' → hub'.events <+: server.node.events →
      Run host iteration state server (past ++ [happening]) hub'

end MiniEvm
