import MiniEvm.Proofs.Rpc.Texts
import MiniEvm.Proofs.Rpc.Types
import MiniEvm.Rpc.Handlers

/-! A client that writes its requests as JSON reads back what the node holds and computes. -/

namespace MiniEvm

open Frames Hex

section Requests

/-- A request as a client sends it. -/
def clientRequest (method : String) (params : List Value) (id : Value) : JsonRpcRequest where
  jsonrpc := "2.0"
  method := method
  params := .array params
  id := id

/-- A slot is asked for by texts of the address and the key. -/
def storageRequest (address : Address) (slot : Word) : Value → JsonRpcRequest :=
  clientRequest "eth_getStorageAt" [.string (formatAddress address), .string (formatU256 slot)]

/-- Code is asked for by the address. -/
def codeRequest (address : Address) : Value → JsonRpcRequest :=
  clientRequest "eth_getCode" [.string (formatAddress address)]

/-- A receipt is asked for by the hash, with all of its digits. -/
def receiptRequest (hash : Word) : Value → JsonRpcRequest :=
  clientRequest "eth_getTransactionReceipt" [.string (hexWord hash)]

/-- The block number is asked for without a parameter. -/
def numberRequest : Value → JsonRpcRequest := clientRequest "eth_blockNumber" []

/-- A block is asked for by a tag, which is not looked at. -/
def blockRequest (tag : String) : Value → JsonRpcRequest :=
  clientRequest "eth_getBlockByNumber" [.string tag]

/-- A call is sent as an object. -/
def callRequest (call : CallRequest) : Value → JsonRpcRequest :=
  clientRequest "eth_call" [call.serialize]

/-- What is to be estimated is sent as an object, too. -/
def estimateRequest (call : CallRequest) : Value → JsonRpcRequest :=
  clientRequest "eth_estimateGas" [call.serialize]

end Requests

section Texts

/-- A word is read back from all of its digits. -/
theorem parseU256_hexWord (word : Word) : parseU256 (hexWord word) = .ok word := by
  have width : (toBeBytes word).length = 32 := length_beBytes 32 _
  -- There are no digits to fill up.
  rw [hexWord, parseU256, decodeHex_prefixed]
  simp only [bind, Except.bind, width, gt_iff_lt, Nat.lt_irrefl, if_false, Nat.sub_self,
    List.replicate_zero, List.nil_append]
  exact congrArg Except.ok (fromBeBytes_toBeBytes word)

/-- A text writes a number. -/
def Writes (text : String) (number : Nat) : Prop :=
  ∃ digits, Spells (unprefixed text) digits ∧ ofDigits digits = number

/-- The text of a number writes it. -/
theorem writes_number (number : Nat) : Writes (Hex.number number) number := by
  have front : unprefixed (Hex.number number) = String.ofList (Nat.toDigits 16 number) := by
    rw [unprefixed, Hex.number, stripPrefix_append, Option.getD_some]
  rw [Writes, front]
  exact exists_spells_toDigits number

end Texts

section Endpoint

variable {libraries : Libraries} {host : Host} {iteration : PoolOrder} {fuel : Nat}
  {node : RpcState} {id : Value}

/-- The methods that read the node by their parameters, each with its reading. -/
def readers : List (String × (Value → Read)) :=
  [("eth_getStorageAt", .ethGetStorageAt), ("eth_getCode", .ethGetCode),
    ("eth_getTransactionReceipt", .ethGetTransactionReceipt), ("eth_call", .ethCall),
    ("eth_estimateGas", .ethEstimateGas)]

/-- A request for one of them leads to its reading. -/
theorem endpoint_of_reader {method : String} {read : Value → Read}
    (member : (method, read) ∈ readers) (params : List Value) :
    rpcEndpoint libraries host iteration (clientRequest method params id) =
      .read (read (.array params)) := by
  simp only [readers, List.mem_cons, Prod.mk.injEq, List.not_mem_nil, or_false] at member
  -- Every method is told apart by its name.
  rcases member with ⟨rfl, rfl⟩ | ⟨rfl, rfl⟩ | ⟨rfl, rfl⟩ | ⟨rfl, rfl⟩ | ⟨rfl, rfl⟩ <;>
    simp [rpcEndpoint, clientRequest]

/-- A request for the block number reads it. -/
theorem endpoint_number (params : List Value) :
    rpcEndpoint libraries host iteration (clientRequest "eth_blockNumber" params id) =
      .read .blockNumber := by
  simp [rpcEndpoint, clientRequest]

/-- One for a block has its tag checked first. -/
theorem endpoint_block (tag : String) (params : List Value) :
    rpcEndpoint libraries host iteration
      (clientRequest "eth_getBlockByNumber" (.string tag :: params) id) = .readBlock := by
  have checked : checkBlockTag (.array (.string tag :: params)) = .ok () := rfl
  simp [rpcEndpoint, clientRequest, checked]

/-- The response to a request that reads is made of what was read. -/
theorem response_of_read {request : JsonRpcRequest} {read : Read}
    {reply : Except JsonRpcError Value}
    (reaction : rpcEndpoint libraries host iteration request = .read read)
    (replied : read.reply libraries host fuel node = .value reply) :
    request.response libraries host iteration fuel node = some (.value (respond request reply)) := by
  -- What the endpoint comes down to is the reading, and its reply is in the response.
  rw [JsonRpcRequest.response, reaction]
  simp only [replied, Outcome.value_bind]
  rfl

/-- So is the response to one of the methods above. -/
theorem response_of_reader (method : String) (read : Value → Read)
    (member : (method, read) ∈ readers) {params : List Value} {reply : Except JsonRpcError Value}
    (replied : (read (.array params)).reply libraries host fuel node = .value reply) :
    (clientRequest method params id).response libraries host iteration fuel node =
      some (.value (respond (clientRequest method params id) reply)) :=
  response_of_read (endpoint_of_reader member params) replied

end Endpoint

section Handlers

variable {libraries : Libraries} {host : Host} {fuel : Nat} {state : StateFork}

/-- A written call is read as the call that it is. -/
theorem parseCallRequest_serialize (call : CallRequest) (rest : List Value) :
    parseCallRequest libraries (.array (call.serialize :: rest)) = .ok call := by
  simp only [parseCallRequest, deserialize_serialize]
  rfl

/-- A slot is found by any texts that are read as its address and key. -/
theorem storage_of_texts {text text' : String} {rest : List Value} {address : Address} {slot : Word}
    (first : parseAddress text = .ok address) (second : parseU256 text' = .ok slot) :
    handleEthGetStorageAt state (.array (.string text :: .string text' :: rest)) =
      .ok (hexWord (state.getStorage address slot)) := by
  simp [handleEthGetStorageAt, listParam, Value.asArray, textParam, Value.asStr, addressParam,
    u256Param, first, second, bind, Except.bind, Except.mapError, pure, Except.pure]

/-- Code is found by any text that is read as its address. -/
theorem code_of_text {text : String} {rest : List Value} {address : Address}
    (read : parseAddress text = .ok address) :
    handleEthGetCode state (.array (.string text :: rest)) =
      .ok ("0x" ++ encode (state.getCode address)) := by
  simp [handleEthGetCode, listParam, Value.asArray, textParam, Value.asStr, addressParam, read,
    bind, Except.bind, Except.mapError, pure, Except.pure]

/-- A receipt is found under the hash that is written out. -/
theorem receipt_of_hash (receipts : HashMap Word TxExecutionReceipt) (hash : Word)
    (rest : List Value) :
    handleEthGetTransactionReceipt receipts (.array (.string (hexWord hash) :: rest)) =
      .ok (match receipts.lookup hash with
        | some receipt => receiptResponse hash receipt
        | none => .null) := by
  have width : (toBeBytes hash).length = 32 := length_beBytes 32 _
  -- All 32 bytes are written, so that the length is right.
  have bytes : decodePlainHex (hexWord hash) "invalid transaction hash" = .ok (toBeBytes hash) := by
    rw [decodePlainHex, hexWord, stripPrefix_append, Option.getD_some, decode_encode]
    rfl
  simp only [handleEthGetTransactionReceipt, listParam, Value.asArray, textParam,
    List.getElem?_cons_zero, Option.bind_some, Value.asStr, bytes, bind, Except.bind, width,
    ne_eq, not_true_eq_false, if_false]
  rw [fromBeBytes_toBeBytes]
  rfl

/-- A written call is simulated with the values that it has, or with the defaults. -/
theorem call_of_written {call : CallRequest} {rest : List Value} {target : Address} {gas : Nat}
    (to_ : call.to_ = some target)
    (limit : toU64 (call.gas.getD (BitVec.ofNat 256 defaultGas)) = some gas) :
    handleEthCall libraries host fuel state (.array (call.serialize :: rest)) = (do
      let result ← simulateTx host fuel state (call.from_.getD 0) target (call.value.getD 0)
        (call.data.getD []) gas
      return callResult result) := by
  rw [handleEthCall, parseCallRequest_serialize]
  simp only [to_, limit]

/-- A written call is estimated as it is. -/
theorem estimate_of_written (call : CallRequest) (rest : List Value) :
    handleEthEstimateGas libraries host fuel state (.array (call.serialize :: rest)) = (do
      let gas ← estimateTransactionGas host fuel state call defaultGas
      return gas.map Hex.number) := by
  rw [handleEthEstimateGas, parseCallRequest_serialize]

/-- The data of a call can be read back whether it succeeded or not. -/
theorem callResult_read_back (result : SimulationResult) :
    (result.success = true → ∃ text, callResult result = .ok text ∧
      decodeHex text = .ok result.returnData) ∧
    (result.success = false → ∃ text, callResult result =
        .error (.custom (-32000) ("execution reverted" ++ text)) ∧
      ((result.returnData = [] ∧ text = "") ∨
        ∃ digits, text = ": " ++ digits ∧ decodeHex digits = .ok result.returnData)) := by
  -- The data of a success is the answer, that of a failure stands behind a text.
  constructor
  · intro success
    refine ⟨_, ?_, decodeHex_prefixed result.returnData⟩
    rw [callResult, if_pos success]
  · intro failure
    have failed : ¬ result.success = true := by simp [failure]
    rw [callResult, if_neg failed]
    -- Nothing is quoted where there is no data.
    cases data : result.returnData with
    | nil => exact ⟨"", rfl, .inl ⟨rfl, rfl⟩⟩
    | cons byte bytes =>
      refine ⟨": " ++ ("0x" ++ encode (byte :: bytes)), ?_, .inr ⟨_, rfl, decodeHex_prefixed _⟩⟩
      simp only [List.isEmpty_cons, Bool.false_eq_true, if_false]
      rw [← String.append_assoc, ← String.append_assoc]
      rfl

end Handlers

section Exchanges

variable (libraries : Libraries) (host : Host) (iteration : PoolOrder) (fuel : Nat)
  (node : RpcState) (id : Value)

/-- A client reads back the value of a slot. -/
theorem storage_exchange (address : Address) (slot : Word) : ∃ text,
    (storageRequest address slot id).response libraries host iteration fuel node =
      some (.value (success (.string text) id)) ∧
    parseU256 text = .ok (node.state.getStorage address slot) := by
  -- Both texts are read as what they were written from.
  have replied : (Read.ethGetStorageAt (.array [.string (formatAddress address),
      .string (formatU256 slot)])).reply libraries host fuel node =
        .value (.ok (.string (hexWord (node.state.getStorage address slot)))) := by
    rw [Read.reply, storage_of_texts (parseAddress_formatAddress address)
      (parseU256_formatU256 slot)]
    rfl
  have response : (storageRequest address slot id).response libraries host iteration fuel node = _ :=
    response_of_reader "eth_getStorageAt" .ethGetStorageAt (by simp [readers]) replied
  exact ⟨_, response, parseU256_hexWord _⟩

/-- It reads back the code of an account. -/
theorem code_exchange (address : Address) : ∃ text,
    (codeRequest address id).response libraries host iteration fuel node =
      some (.value (success (.string text) id)) ∧
    decodeHex text = .ok (node.state.getCode address) := by
  -- The address is read back from its text.
  have replied : (Read.ethGetCode (.array [.string (formatAddress address)])).reply libraries
      host fuel node = .value (.ok (.string ("0x" ++ encode (node.state.getCode address)))) := by
    rw [Read.reply, code_of_text (parseAddress_formatAddress address)]
    rfl
  have response : (codeRequest address id).response libraries host iteration fuel node = _ :=
    response_of_reader "eth_getCode" .ethGetCode (by simp [readers]) replied
  exact ⟨_, response, decodeHex_prefixed _⟩

/-- It reads back the status and the gas of a receipt, or that there is none. -/
theorem receipt_exchange (hash : Word) :
    match node.receipts.lookup hash with
    | none => (receiptRequest hash id).response libraries host iteration fuel node =
        some (.value (success .null id))
    | some receipt => ∃ value gas status,
        (receiptRequest hash id).response libraries host iteration fuel node =
          some (.value (success value id)) ∧
        value.get "gasUsed" = some (.string gas) ∧ Writes gas receipt.gasUsed ∧
        value.get "status" = some (.string status) ∧ Writes status receipt.status := by
  have replied : (Read.ethGetTransactionReceipt (.array [.string (hexWord hash)])).reply libraries
      host fuel node = .value (.ok (match node.receipts.lookup hash with
        | some receipt => receiptResponse hash receipt
        | none => .null)) := by
    rw [Read.reply, receipt_of_hash]
    rfl
  have response : (receiptRequest hash id).response libraries host iteration fuel node = _ :=
    response_of_reader "eth_getTransactionReceipt" .ethGetTransactionReceipt (by simp [readers]) replied
  -- Only a receipt that is there has fields.
  cases found : node.receipts.lookup hash with
  | none =>
    rw [found] at response
    exact response
  | some receipt =>
    rw [found] at response
    exact ⟨_, _, _, response, rfl, writes_number _, rfl, writes_number _⟩

/-- It reads back the block number. -/
theorem number_exchange : ∃ text,
    (numberRequest id).response libraries host iteration fuel node =
      some (.value (success (.string text) id)) ∧ Writes text node.blockNumber :=
  ⟨_, response_of_read (endpoint_number _) rfl, writes_number _⟩

/-- The response to a block has its number and the state root in it. -/
theorem block_exchange (tag : String) : ∃ value number root,
    (blockRequest tag id).response libraries host iteration fuel node =
      some (.value (success value id)) ∧
    value.get "number" = some (.string number) ∧ Writes number node.blockNumber ∧
    value.get "stateRoot" = some (.string root) ∧ parseU256 root = .ok node.stateRoot := by
  -- The texts are named here, since a reader of the fields has to find them.
  refine ⟨blockResponse (Hex.number node.blockNumber) (hexWord node.stateRoot), _, _, ?_, rfl,
    writes_number _, rfl, parseU256_hexWord _⟩
  rw [JsonRpcRequest.response, blockRequest, endpoint_block]
  rfl

/-- The data of a call can be read back, from the error that quotes it if the call has failed. -/
theorem call_exchange (call : CallRequest) (target : Address) (gas : Nat)
    (result : SimulationResult) (to_ : call.to_ = some target)
    (limit : toU64 (call.gas.getD (BitVec.ofNat 256 defaultGas)) = some gas)
    (simulated : simulateTx host fuel node.state (call.from_.getD 0) target (call.value.getD 0)
      (call.data.getD []) gas = .value result) :
    (result.success = true → ∃ text,
      (callRequest call id).response libraries host iteration fuel node =
        some (.value (success (.string text) id)) ∧ decodeHex text = .ok result.returnData) ∧
    (result.success = false → ∃ text,
      (callRequest call id).response libraries host iteration fuel node =
        some (.value (errorResponse (.custom (-32000) ("execution reverted" ++ text)) id)) ∧
      ((result.returnData = [] ∧ text = "") ∨
        ∃ digits, text = ": " ++ digits ∧ decodeHex digits = .ok result.returnData)) := by
  -- The handler simulates exactly this call.
  have replied : (Read.ethCall (.array [call.serialize])).reply libraries host fuel node =
      .value (Read.ofText (callResult result)) := by
    rw [Read.reply, call_of_written to_ limit, simulated]
    rfl
  have response : (callRequest call id).response libraries host iteration fuel node = _ :=
    response_of_reader "eth_call" .ethCall (by simp [readers]) replied
  -- The result decides between an answer and an error, and the data is in either.
  obtain ⟨succeeds, fails⟩ := callResult_read_back result
  constructor
  · intro success
    obtain ⟨text, answer, reads⟩ := succeeds success
    rw [answer] at response
    exact ⟨text, response, reads⟩
  · intro failure
    obtain ⟨text, answer, reads⟩ := fails failure
    rw [answer] at response
    exact ⟨text, response, reads⟩

/-- An estimate is read back, or the error in its place. -/
theorem estimate_exchange (call : CallRequest) (answer : Except JsonRpcError Nat) :
    estimateTransactionGas host fuel node.state call defaultGas = .value answer →
    match answer with
    | .ok gas => ∃ text, (estimateRequest call id).response libraries host iteration fuel node =
        some (.value (success (.string text) id)) ∧ Writes text gas
    | .error error => (estimateRequest call id).response libraries host iteration fuel node =
        some (.value (errorResponse error id)) := by
  intro estimated
  -- The handler estimates exactly this call, up to the default limit.
  have replied : (Read.ethEstimateGas (.array [call.serialize])).reply libraries host fuel node =
      .value (Read.ofText (answer.map Hex.number)) := by
    rw [Read.reply, estimate_of_written, estimated]
    rfl
  have response : (estimateRequest call id).response libraries host iteration fuel node = _ :=
    response_of_reader "eth_estimateGas" .ethEstimateGas (by simp [readers]) replied
  -- An error takes the place of the number.
  cases answer with
  | error error => exact response
  | ok gas => exact ⟨_, response, writes_number _⟩

end Exchanges

/--
Exchanges lose nothing.

What a client reads back from the response to a request that it wrote is what the node holds or
computes: a slot, code, the status and the gas of a receipt, the block number and the root, the
result of a call whether it succeeds or not, and an estimate.
The other fields of a block are constants, and so are those of a receipt, but for the hash that was
asked for and the gas once more.
-/
theorem exchanges_are_lossless (libraries : Libraries) (host : Host) (iteration : PoolOrder)
    (fuel : Nat) (node : RpcState) (id : Value) :
    (∀ address slot, ∃ text,
      (storageRequest address slot id).response libraries host iteration fuel node =
        some (.value (success (.string text) id)) ∧
      parseU256 text = .ok (node.state.getStorage address slot)) ∧
    (∀ address, ∃ text,
      (codeRequest address id).response libraries host iteration fuel node =
        some (.value (success (.string text) id)) ∧
      decodeHex text = .ok (node.state.getCode address)) ∧
    (∀ hash, match node.receipts.lookup hash with
      | none => (receiptRequest hash id).response libraries host iteration fuel node =
          some (.value (success .null id))
      | some receipt => ∃ value gas status,
          (receiptRequest hash id).response libraries host iteration fuel node =
            some (.value (success value id)) ∧
          value.get "gasUsed" = some (.string gas) ∧ Writes gas receipt.gasUsed ∧
          value.get "status" = some (.string status) ∧ Writes status receipt.status) ∧
    (∃ text, (numberRequest id).response libraries host iteration fuel node =
        some (.value (success (.string text) id)) ∧ Writes text node.blockNumber) ∧
    (∀ tag, ∃ value number root,
      (blockRequest tag id).response libraries host iteration fuel node =
        some (.value (success value id)) ∧
      value.get "number" = some (.string number) ∧ Writes number node.blockNumber ∧
      value.get "stateRoot" = some (.string root) ∧ parseU256 root = .ok node.stateRoot) ∧
    (∀ call target gas result, call.to_ = some target →
      toU64 (call.gas.getD (BitVec.ofNat 256 defaultGas)) = some gas →
      simulateTx host fuel node.state (call.from_.getD 0) target (call.value.getD 0)
        (call.data.getD []) gas = .value result →
      (result.success = true → ∃ text,
        (callRequest call id).response libraries host iteration fuel node =
          some (.value (success (.string text) id)) ∧ decodeHex text = .ok result.returnData) ∧
      (result.success = false → ∃ text,
        (callRequest call id).response libraries host iteration fuel node =
          some (.value (errorResponse (.custom (-32000) ("execution reverted" ++ text)) id)) ∧
        ((result.returnData = [] ∧ text = "") ∨
          ∃ digits, text = ": " ++ digits ∧ decodeHex digits = .ok result.returnData))) ∧
    (∀ call answer, estimateTransactionGas host fuel node.state call defaultGas = .value answer →
      match answer with
      | .ok gas => ∃ text, (estimateRequest call id).response libraries host iteration fuel node =
          some (.value (success (.string text) id)) ∧ Writes text gas
      | .error error => (estimateRequest call id).response libraries host iteration fuel node =
          some (.value (errorResponse error id))) :=
  ⟨storage_exchange libraries host iteration fuel node id,
    code_exchange libraries host iteration fuel node id,
    receipt_exchange libraries host iteration fuel node id,
    number_exchange libraries host iteration fuel node id,
    block_exchange libraries host iteration fuel node id,
    call_exchange libraries host iteration fuel node id,
    estimate_exchange libraries host iteration fuel node id⟩

end MiniEvm
