import MiniEvm.Bytes.Hex
import MiniEvm.Vm.Simulation

/-! Arbitrage routes: swaps run one after the other on a copy of the state, and a search for the best
input. -/

namespace MiniEvm

open Frames

/-- The source's name for a signed 128-bit number. -/
abbrev I256 := Int

/-- The largest signed 128-bit number. -/
def i128Max : Int := 170141183460469231731687303715884105727

/-- The smallest one. -/
def i128Min : Int := -170141183460469231731687303715884105728

structure SwapHop where
  targetDex : Address
  tokenIn : Address
  tokenOut : Address
  amountIn : Option Word
  minAmountOut : Word
  calldata : Bytes

structure ArbRoute where
  borrowCapital : Option Word
  startingToken : Address
  initialAmount : Word
  hops : List SwapHop

structure ArbSimulationResult where
  success : Bool
  startingBalance : Word
  endingBalance : Word
  netProfitOrLoss : I256
  totalGasUsed : Nat
  gasCostInToken : Word
  failedHopIndex : Option Nat
  revertReason : Option String

/-- The slot that a token keeps the balance of an owner in, by convention. -/
def balanceSlot (host : Host) (owner : Address) : Word :=
  host.keccak256 (List.replicate 12 0 ++ beBytes 20 owner.toNat ++ List.replicate 32 0)

/-- The last word of some data that has one. -/
def decodeAmount (data : Bytes) : Option Word :=
  if data.length < 32 then none else some (fromBeBytes (data.drop (data.length - 32)))

/-- What a token answers when asked for a balance, or what is in the slot if it does not. -/
def getErc20Balance (host : Host) (fuel : Nat) (state : StateFork) (token owner : Address) :
    Outcome Fault Word := do
  -- The selector of balanceOf, and the owner in a whole word.
  let calldata := [0x70, 0xa0, 0x82, 0x31] ++ List.replicate 12 0 ++ beBytes 20 owner.toNat
  let result ← simulateTx host fuel state owner token 0 calldata 100000
  if result.success ∧ result.returnData.length ≥ 32 then
    return fromBeBytes (result.returnData.drop (result.returnData.length - 32))
  else return state.getStorage token (balanceSlot host owner)

def setErc20BalanceOverride (host : Host) (state : StateFork) (token owner : Address)
    (amount : Word) : StateFork :=
  state.setStorage token (balanceSlot host owner) amount

/-- A word as a signed number, with larger words held at the maximum. -/
def clampedI128 (value : Word) : Int := if (value.toNat : Int) ≤ i128Max then value.toNat else i128Max

def signedDifference (left right : Word) : I256 :=
  -- Each balance is held in range by itself, before they are subtracted.
  let left := clampedI128 left
  let right := clampedI128 right
  max i128Min (min i128Max (left - right))

/-- The state that routes start from, and the account that sends them. -/
structure ArbSimulator where
  baseState : StateFork
  sender : Address

namespace ArbSimulator

def successResult (startingBalance endingBalance : Word) (gas : Nat) : ArbSimulationResult where
  success := true
  startingBalance := startingBalance
  endingBalance := endingBalance
  netProfitOrLoss := signedDifference endingBalance startingBalance
  totalGasUsed := gas
  gasCostInToken := 0
  failedHopIndex := none
  revertReason := none

def failureResult (startingBalance : Word) (gas index : Nat) (reason : String) :
    ArbSimulationResult where
  success := false
  startingBalance := startingBalance
  endingBalance := startingBalance
  netProfitOrLoss := 0
  totalGasUsed := gas
  gasCostInToken := 0
  failedHopIndex := some index
  revertReason := some reason

/-- How far a route has come: the state, the amount in hand, and the gas of the hops so far. -/
structure Progress where
  forkState : StateFork
  currentAmount : Word
  totalGasUsed : Nat

/-- One hop, which fails with the gas used up to its end and a reason. -/
def simulateHop (host : Host) (fuel : Nat) (sender : Address) (hop : SwapHop)
    (progress : Progress) : Outcome Fault (Except (Nat × String) Progress) := do
  -- A hop without an amount of its own puts in what is in hand.
  let amountIn := hop.amountIn.getD progress.currentAmount
  let result ← simulateTx host fuel progress.forkState sender hop.targetDex 0 hop.calldata 30000000
  let totalGasUsed := saturatingAdd progress.totalGasUsed result.gasUsed
  if ¬ result.success then
    -- The answer of a hop that failed is the reason, in digits.
    return .error (totalGasUsed, if result.returnData.isEmpty then "hop execution failed"
      else "0x" ++ Hex.encode result.returnData)
  else
    let forkState := insertDiff progress.forkState result.stateDiff.entries
    -- A swap that answers with less than a word is taken to have kept the amount.
    let currentAmount := (decodeAmount result.returnData).getD amountIn
    let forkState := setErc20BalanceOverride host forkState hop.tokenOut sender currentAmount
    -- The balance is set before the minimum is looked at.
    if currentAmount < hop.minAmountOut then
      return .error (totalGasUsed, "minimum output amount not met")
    else return .ok { forkState, currentAmount, totalGasUsed }

/-- The hops from one of them on; the first to fail ends the route. -/
def simulateHops (host : Host) (fuel : Nat) (sender : Address) :
    (index : Nat) → List SwapHop → Progress → Outcome Fault (Except (Nat × Nat × String) Progress)
  | _, [], progress => pure (.ok progress)
  | index, hop :: rest, progress => do
    match ← simulateHop host fuel sender hop progress with
    | .error (gas, reason) => return .error (gas, index, reason)
    | .ok progress => simulateHops host fuel sender (index + 1) rest progress

/-- Runs a route on a copy of the state and compares the balances before and after it. -/
def simulateRoute (host : Host) (fuel : Nat) (simulator : ArbSimulator) (route : ArbRoute) :
    Outcome Fault ArbSimulationResult := do
  let startingBalance ←
    getErc20Balance host fuel simulator.baseState route.startingToken simulator.sender
  let hops ← simulateHops host fuel simulator.sender 0 route.hops
    { forkState := simulator.baseState, currentAmount := route.initialAmount, totalGasUsed := 0 }
  match hops with
  -- A route that failed is told to end with what it started with.
  | .error (gas, index, reason) => return failureResult startingBalance gas index reason
  | .ok progress =>
    let endingBalance ←
      getErc20Balance host fuel progress.forkState route.startingToken simulator.sender
    return successResult startingBalance endingBalance progress.totalGasUsed

/-- A loan changes nothing. -/
def simulateWithFlashloan (host : Host) (fuel : Nat) (simulator : ArbSimulator) (_lender : Address)
    (route : ArbRoute) : Outcome Fault ArbSimulationResult :=
  simulateRoute host fuel simulator route

/-- The amount of one step of the search; the product wraps before it is divided. -/
def searchAmount (minIn maxIn : Word) (count step : Nat) : Word :=
  minIn + (maxIn - minIn) * BitVec.ofNat 256 step / BitVec.ofNat 256 count

/-- The best amount so far with its profit, and the route as the last step has left it. -/
structure Search where
  bestAmount : Word
  bestProfit : I256
  route : ArbRoute

def searchStep (host : Host) (fuel : Nat) (simulator : ArbSimulator) (minIn maxIn : Word)
    (count : Nat) (search : Search) (step : Nat) : Outcome Fault Search := do
  let amount := searchAmount minIn maxIn count step
  let route := { search.route with initialAmount := amount }
  let result ← simulateRoute host fuel simulator route
  -- Between equal profits the amount that was tried first stays.
  if result.success ∧ result.netProfitOrLoss > search.bestProfit then
    return { bestAmount := amount, bestProfit := result.netProfitOrLoss, route }
  else return { search with route }

/-- Tries amounts from one end of a range to the other and keeps the most profitable one. -/
def findOptimalInputAmount (host : Host) (fuel : Nat) (simulator : ArbSimulator) (route : ArbRoute)
    (minIn maxIn : Word) (steps : Nat) : Outcome Fault ((Word × I256) × ArbRoute) := do
  -- Both ends are tried, so that there is one amount more than steps.
  let count := max steps 1
  let search ← (List.range (count + 1)).foldlM
    (searchStep host fuel simulator minIn maxIn count)
    { bestAmount := minIn, bestProfit := i128Min, route }
  return ((search.bestAmount, search.bestProfit), search.route)

end ArbSimulator

end MiniEvm
