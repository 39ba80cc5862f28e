import MiniEvm.Rpc.Ledger
import MiniEvm.Rpc.Subscriptions
import MiniEvm.Tx.Decoder

/-! Requests over HTTP: the methods of the endpoint, and what each of them reads of the node. -/

namespace MiniEvm

open Frames

/-- A request as it comes in; parameters that are left out are null. -/
structure JsonRpcRequest where
  jsonrpc : String
  method : String
  params : Value
  id : Value

def JsonRpcError.invalidParams (message : String) : JsonRpcError := .custom (-32602) message

/-- What the handlers take from the libraries they use. -/
structure Libraries where
  curve : Secp256k1
  /-- The text for a value of the wrong kind. -/
  invalidType : Value → String → String

def DeserializeError.text (libraries : Libraries) : DeserializeError → String
  | custom message => message
  | invalidType found expected => libraries.invalidType found expected

/-- The call of a request, which stands alone or first in a list. -/
def parseCallRequest (libraries : Libraries) (params : Value) : Except JsonRpcError CallRequest :=
  let fromValue (value : Value) :=
    (CallRequest.deserialize value).mapError fun error =>
      JsonRpcError.invalidParams (error.text libraries)
  match params with
  | .array [] => .error (.invalidParams "call requires a call object")
  -- What comes behind the call, such as a block tag, is ignored.
  | .array (value :: _) => fromValue value
  | .object fields => fromValue (.object fields)
  | _ => .error (.invalidParams "call params must be an array")

/-- The gas of a call that asks for none, and the most that an estimate goes up to. -/
def defaultGas : Nat := 30000000

/-- The answer to a call that was executed: its data, or the error that quotes it. -/
def callResult (result : SimulationResult) : Except JsonRpcError String :=
  if result.success then .ok ("0x" ++ Hex.encode result.returnData)
  else .error (.custom (-32000)
    (if result.returnData.isEmpty then "execution reverted"
     else "execution reverted: 0x" ++ Hex.encode result.returnData))

def handleEthCall (libraries : Libraries) (host : Host) (fuel : Nat) (state : StateFork)
    (params : Value) : Outcome Fault (Except JsonRpcError String) :=
  match parseCallRequest libraries params with
  | .error error => pure (.error error)
  | .ok call =>
    match call.to_ with
    | none => pure (.error (.invalidParams "eth_call requires a to address"))
    | some target =>
      -- Only 64 bits of gas can be asked for.
      match toU64 (call.gas.getD (BitVec.ofNat 256 defaultGas)) with
      | none => pure (.error (.invalidParams "gas exceeds u64"))
      | some gasLimit => do
        let result ← simulateTx host fuel state (call.from_.getD 0) target (call.value.getD 0)
          (call.data.getD []) gasLimit
        return callResult result

def handleEthEstimateGas (libraries : Libraries) (host : Host) (fuel : Nat) (state : StateFork)
    (params : Value) : Outcome Fault (Except JsonRpcError String) :=
  match parseCallRequest libraries params with
  | .error error => pure (.error error)
  | .ok call => do
    let gas ← estimateTransactionGas host fuel state call defaultGas
    return gas.map Hex.number

/-- The text at one position of a list of parameters. -/
def textParam (values : List Value) (position : Nat) (message : String) :
    Except JsonRpcError String :=
  match (values[position]?).bind Value.asStr with
  | some text => .ok text
  | none => .error (.invalidParams message)

/-- The list of parameters, which a method asks for by name. -/
def listParam (params : Value) (method : String) : Except JsonRpcError (List Value) :=
  match params.asArray with
  | some values => .ok values
  | none => .error (.invalidParams (method ++ " params must be an array"))

def addressParam (text : String) : Except JsonRpcError Address :=
  (parseAddress text).mapError .invalidParams

def u256Param (text : String) : Except JsonRpcError Word :=
  (parseU256 text).mapError .invalidParams

def handleEthGetStorageAt (state : StateFork) (params : Value) : Except JsonRpcError String := do
  let values ← listParam params "eth_getStorageAt"
  if values.length < 2 then throw (.invalidParams "eth_getStorageAt requires address and position")
  -- The block, the third parameter, is never looked at.
  let address ← addressParam (← textParam values 0 "invalid address")
  let slot ← u256Param (← textParam values 1 "invalid storage position")
  return hexWord (state.getStorage address slot)

def handleEthGetCode (state : StateFork) (params : Value) : Except JsonRpcError String := do
  let values ← listParam params "eth_getCode"
  let address ← addressParam (← textParam values 0 "eth_getCode requires an address")
  return "0x" ++ Hex.encode (state.getCode address)

/-- Bytes behind an optional prefix, in whole pairs of digits. -/
def decodePlainHex (text message : String) : Except JsonRpcError Bytes :=
  (Hex.decode ((Hex.stripPrefix "0x" text).getD text)).mapError fun _ => .invalidParams message

/-- The name of an error, as it is written for debugging. -/
def TxDecodeError.debug : TxDecodeError → String
  | invalidRlp => "InvalidRlp"
  | unsupportedType => "UnsupportedType"
  | invalidSignature => "InvalidSignature"
  | recoveryFailed => "RecoveryFailed"

/-- The transaction that a client sends, before the node looks at it; decoding it may panic. -/
def readRawTransaction (libraries : Libraries) (host : Host) (params : Value) :
    Except (Failure JsonRpcError) (SignedTransaction × Bytes) :=
  match (params.asArray.bind List.head?).bind Value.asStr with
  | none => .error (.error (.invalidParams "eth_sendRawTransaction requires a raw transaction"))
  | some raw =>
    match decodePlainHex raw "Invalid raw transaction hex" with
    | .error error => .error (.error error)
    | .ok bytes =>
      match decodeRawTx host libraries.curve bytes with
      | .ok transaction => .ok (transaction, bytes)
      | .error (.error cause) => .error (.error (.custom (-32000)
          ("Invalid signature or transaction encoding: " ++ cause.debug)))
      | .error .panic => .error .panic

def handleTxpoolStatus (pool : TxPool) : Value :=
  .object [("pending", .string (Hex.number pool.len)), ("queued", .string "0x0")]

def handlePendingTransactions (iteration : PoolOrder) (pool : TxPool) : Value :=
  .array ((iteration.order pool.bySender).flatMap fun entry =>
    entry.2.values.map fun pending => .string (hexWord pending.tx.hash))

/-- So many bytes that are zero. -/
def zeroBytes (count : Nat) : String := "0x" ++ Hex.encode (List.replicate count 0)

/-- A block with the current number and root, and with everything else as it is for all blocks. -/
def blockResponse (number root : String) : Value :=
  .object [
    ("number", .string number),
    ("hash", .string (hexWord 1)),
    ("parentHash", .string (hexWord 0)),
    ("nonce", .string (zeroBytes 8)),
    ("sha3Uncles", .string (hexWord 0)),
    ("logsBloom", .string (zeroBytes 256)),
    ("transactionsRoot", .string (hexWord 0)),
    ("stateRoot", .string root),
    ("receiptsRoot", .string (hexWord 0)),
    ("miner", .string (zeroBytes 20)),
    ("difficulty", .string "0x0"),
    ("totalDifficulty", .string "0x0"),
    ("extraData", .string "0x"),
    ("size", .string "0x0"),
    ("gasLimit", .string "0x1c9c380"),
    ("gasUsed", .string "0x0"),
    ("timestamp", .string "0x60000000"),
    ("transactions", .array []),
    ("uncles", .array [])]

/-- Any tag will do for a block, as long as it is a text. -/
def checkBlockTag (params : Value) : Except JsonRpcError Unit := do
  let values ← listParam params "eth_getBlockByNumber"
  let _ ← textParam values 0 "eth_getBlockByNumber requires a block tag"
  return ()

/-- A receipt with its hash, status and gas, and with everything else as it is for all of them. -/
def receiptResponse (hash : Word) (receipt : TxExecutionReceipt) : Value :=
  .object [
    ("transactionHash", .string (hexWord hash)),
    ("transactionIndex", .string "0x0"),
    ("blockHash", .string (hexWord 1)),
    ("blockNumber", .string "0x1"),
    ("from", .string (zeroBytes 20)),
    ("to", .null),
    ("cumulativeGasUsed", .string (Hex.number receipt.gasUsed)),
    ("gasUsed", .string (Hex.number receipt.gasUsed)),
    ("contractAddress", .null),
    ("logs", .array []),
    ("logsBloom", .string (zeroBytes 256)),
    ("status", .string (Hex.number receipt.status)),
    ("effectiveGasPrice", .string "0x1"),
    ("type", .string "0x0")]

def handleEthGetTransactionReceipt (receipts : HashMap Word TxExecutionReceipt) (params : Value) :
    Except JsonRpcError Value := do
  let values ← listParam params "eth_getTransactionReceipt"
  let text ← textParam values 0 "eth_getTransactionReceipt requires a transaction hash"
  let bytes ← decodePlainHex text "invalid transaction hash"
  if bytes.length ≠ 32 then throw (.invalidParams "transaction hash must be 32 bytes")
  let hash := fromBeBytes bytes
  -- Null is the answer for a hash that is not known, and no error.
  return match receipts.lookup hash with
    | some receipt => receiptResponse hash receipt
    | none => .null

/-- One reading of the node, under one lock. -/
inductive Read where
  | ethCall (params : Value)
  | ethEstimateGas (params : Value)
  | ethGetStorageAt (params : Value)
  | ethGetCode (params : Value)
  | ethGetTransactionReceipt (params : Value)
  | blockNumber
  | stateRoot

namespace Read

/-- A text as a reply. -/
def ofText (result : Except JsonRpcError String) : Except JsonRpcError Value := result.map .string

/-- What is read, if the reading comes to an end. -/
def reply (libraries : Libraries) (host : Host) (fuel : Nat) (node : RpcState) :
    Read → Outcome Fault (Except JsonRpcError Value)
  | ethCall params => do return ofText (← handleEthCall libraries host fuel node.state params)
  | ethEstimateGas params => do
    return ofText (← handleEthEstimateGas libraries host fuel node.state params)
  | ethGetStorageAt params => pure (ofText (handleEthGetStorageAt node.state params))
  | ethGetCode params => pure (ofText (handleEthGetCode node.state params))
  | ethGetTransactionReceipt params =>
    pure (handleEthGetTransactionReceipt node.receipts params)
  | blockNumber => pure (.ok (.string (Hex.number node.blockNumber)))
  | stateRoot => pure (.ok (.string (hexWord node.stateRoot)))

/--
Whether the lock is free that the reading takes.

The lock of the state is taken before a block is selected, those of the block number and of the
receipts are taken by then, and that of the root is only taken for a moment.
-/
def free (requests : List Phase) : Read → Bool
  | ethCall _ | ethEstimateGas _ | ethGetStorageAt _ | ethGetCode _ =>
    !requests.any Phase.holdsState
  | ethGetTransactionReceipt _ | blockNumber => !requests.any Phase.inBlock
  | stateRoot => true

end Read

/-- What a request comes down to. -/
inductive Reaction where
  -- Answered at once, whatever the node is like.
  | answer (result : Except JsonRpcError Value)
  | read (read : Read)
  -- The number is read first, and the root after that.
  | readBlock
  | readPool (result : TxPool → Value)
  | submit (transaction : SignedTransaction) (raw : Bytes)
  | mine
  -- The decoding of a transaction panicked, and nothing is answered.
  | abort

/-- Where a request leads. -/
def rpcEndpoint (libraries : Libraries) (host : Host) (iteration : PoolOrder)
    (request : JsonRpcRequest) : Reaction :=
  let params := request.params
  if request.method = "eth_call" then .read (.ethCall params)
  else if request.method = "eth_estimateGas" then .read (.ethEstimateGas params)
  else if request.method = "eth_getStorageAt" then .read (.ethGetStorageAt params)
  else if request.method = "eth_getCode" then .read (.ethGetCode params)
  else if request.method = "eth_sendRawTransaction" then
    -- A transaction is decoded before the node is looked at.
    match readRawTransaction libraries host params with
    | .ok (transaction, raw) => .submit transaction raw
    | .error (.error error) => .answer (.error error)
    | .error .panic => .abort
  else if request.method = "eth_blockNumber" then .read .blockNumber
  else if request.method = "evm_mine" ∨ request.method = "miner_mine" then .mine
  else if request.method = "txpool_status" then .readPool handleTxpoolStatus
  else if request.method = "eth_pendingTransactions" then
    .readPool (handlePendingTransactions iteration)
  else if request.method = "eth_getBlockByNumber" then
    match checkBlockTag params with
    | .ok () => .readBlock
    | .error error => .answer (.error error)
  else if request.method = "eth_getTransactionReceipt" then .read (.ethGetTransactionReceipt params)
  else if request.method = "net_version" then .answer (.ok (.string "1"))
  else if request.method = "eth_chainId" then .answer (.ok (.string "0x1"))
  else .answer (.error (.custom (-32601) "Method not found"))

/-- The response to a request, with its id. -/
def respond (request : JsonRpcRequest) : Except JsonRpcError Value → Value
  | .ok result => success result request.id
  | .error error => errorResponse error request.id

/-- The response of a node that has nothing else to do, to a request that only reads. -/
def JsonRpcRequest.response (libraries : Libraries) (host : Host) (iteration : PoolOrder)
    (fuel : Nat) (node : RpcState) (request : JsonRpcRequest) : Option (Outcome Fault Value) :=
  match rpcEndpoint libraries host iteration request with
  | .answer result => some (pure (respond request result))
  | .read read => some (do return respond request (← read.reply libraries host fuel node))
  | .readBlock => some (pure (respond request
      (.ok (blockResponse (Hex.number node.blockNumber) (hexWord node.stateRoot)))))
  | .readPool result => some (pure (respond request (.ok (result node.txPool))))
  -- These change the node, and are answered at the end of their moves.
  | .submit _ _ | .mine | .abort => none

end MiniEvm
