import MiniEvm.Frames.Rules
import MiniEvm.Mpt.Trie
import MiniEvm.Proofs.Mempool.Selection
import MiniEvm.Proofs.Mpt.Encoders
import MiniEvm.Proofs.Mpt.Encoding
import MiniEvm.Proofs.Mpt.HexPrefix
import MiniEvm.Proofs.Rpc.Delivery
import MiniEvm.Proofs.Rpc.Determinism
import MiniEvm.Proofs.Rpc.Estimates
import MiniEvm.Proofs.Rpc.Estimator
import MiniEvm.Proofs.Rpc.ExactEstimates
import MiniEvm.Proofs.Rpc.Exchanges
import MiniEvm.Proofs.Rpc.Fees
import MiniEvm.Proofs.Rpc.Filters
import MiniEvm.Proofs.Rpc.History
import MiniEvm.Proofs.Rpc.Journal
import MiniEvm.Proofs.Rpc.Liveness
import MiniEvm.Proofs.Rpc.Mining
import MiniEvm.Proofs.Rpc.Reads
import MiniEvm.Proofs.Rpc.Receipts
import MiniEvm.Proofs.Rpc.Replays
import MiniEvm.Proofs.Rpc.Requests
import MiniEvm.Proofs.Rpc.Texts
import MiniEvm.Proofs.Rpc.Types
import MiniEvm.Proofs.Sim.Profits
import MiniEvm.Proofs.Sim.Search
import MiniEvm.Proofs.State.Observed
import MiniEvm.Proofs.State.Snapshots
import MiniEvm.Proofs.State.Supply
import MiniEvm.Proofs.Tx.Canonical
import MiniEvm.Proofs.Vm.Bounds
import MiniEvm.Proofs.Vm.Callees
import MiniEvm.Proofs.Vm.Charges
import MiniEvm.Proofs.Vm.ControlFlow
import MiniEvm.Proofs.Vm.Creations
import MiniEvm.Proofs.Vm.DataFee
import MiniEvm.Proofs.Vm.Deployments
import MiniEvm.Proofs.Vm.Depth
import MiniEvm.Proofs.Vm.Disassembly
import MiniEvm.Proofs.Vm.Ether
import MiniEvm.Proofs.Vm.Forfeits
import MiniEvm.Proofs.Vm.Fuzzer
import MiniEvm.Proofs.Vm.Gas
import MiniEvm.Proofs.Vm.GasWindow
import MiniEvm.Proofs.Vm.Halting
import MiniEvm.Proofs.Vm.Identity
import MiniEvm.Proofs.Vm.Immediates
import MiniEvm.Proofs.Vm.Jumps
import MiniEvm.Proofs.Vm.Leftovers
import MiniEvm.Proofs.Vm.Logs
import MiniEvm.Proofs.Vm.Metered
import MiniEvm.Proofs.Vm.OperandOrder
import MiniEvm.Proofs.Vm.Predictions
import MiniEvm.Proofs.Vm.Removals
import MiniEvm.Proofs.Vm.Reverts
import MiniEvm.Proofs.Vm.Roots
import MiniEvm.Proofs.Vm.Simulations
import MiniEvm.Proofs.Vm.Slots
import MiniEvm.Proofs.Vm.Static
import MiniEvm.Proofs.Vm.Surcharges
import MiniEvm.Proofs.Vm.TapeRuns
import MiniEvm.Proofs.Vm.Traces
import MiniEvm.Proofs.Vm.Truncation
import MiniEvm.Proofs.Vm.Values
import MiniEvm.Proofs.Vm.Windows
import MiniEvm.Rpc.Node
import MiniEvm.Tx.Decoder
import MiniEvm.Vm.Root
import MiniEvm.Vm.Runner
import MiniEvm.Vm.Simulation
import MiniEvm.Vm.Tracer
