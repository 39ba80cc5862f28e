import MiniEvm.Bytes.HexNumber
import MiniEvm.Rpc.Node
import MiniEvm.Rpc.Types

/-! Events as subscribers read them, and the filters that choose among logs. -/

namespace MiniEvm

/-- A head in text. -/
structure BlockHeaderNotification where
  number : String
  hash : String
  parentHash : String
  miner : String
  timestamp : String

/-- A log in text. -/
structure LogNotification where
  address : String
  topics : List String
  data : String
  blockHash : Option String
  blockNumber : Option String
  transactionHash : Option String
  logIndex : Option String

/-- A word as 32 bytes of digits. -/
def hexWord (word : Word) : String := "0x" ++ Hex.encode (toBeBytes word)

/-- The head of a block; its parent is named by a number of 64 digits. -/
def headNotification (number : Nat) (hash : Word) (parentNumber : Nat) :
    BlockHeaderNotification where
  number := Hex.number number
  hash := hexWord hash
  parentHash := hexWord (BitVec.ofNat 256 parentNumber)
  miner := formatAddress 0
  timestamp := "0x0"

def logNotification (record : LogRecord) (blockHash : Word) (blockNumber : Nat)
    (transactionHash : Word) (logIndex : Nat) : LogNotification where
  address := formatAddress record.address
  topics := record.topics.map hexWord
  data := "0x" ++ Hex.encode record.data
  blockHash := some (hexWord blockHash)
  blockNumber := some (Hex.number blockNumber)
  transactionHash := some (hexWord transactionHash)
  logIndex := some (Hex.number logIndex)

def BlockHeaderNotification.toValue (header : BlockHeaderNotification) : Value :=
  .object [("number", .string header.number), ("hash", .string header.hash),
    ("parentHash", .string header.parentHash), ("miner", .string header.miner),
    ("timestamp", .string header.timestamp)]

def Value.ofOption : Option String → Value
  | some text => .string text
  | none => .null

def LogNotification.toValue (log : LogNotification) : Value :=
  .object [("address", .string log.address), ("topics", .array (log.topics.map .string)),
    ("data", .string log.data), ("blockHash", .ofOption log.blockHash),
    ("blockNumber", .ofOption log.blockNumber),
    ("transactionHash", .ofOption log.transactionHash), ("logIndex", .ofOption log.logIndex)]

/-- Equality of texts but for the case of ASCII letters. -/
def eqIgnoreAsciiCase (first second : String) : Bool :=
  first.toList.map Char.toLower = second.toList.map Char.toLower

/-- Which logs a subscriber asks for; what is left out does not matter. -/
structure LogFilter where
  address : Option (List String) := none
  topics : Option (List (Option (List String))) := none

namespace LogFilter

/-- Whether every filter is met by the topic at its position; `index` is that of the first one. -/
def topicsMatch (topics : List String) : (index : Nat) → List (Option (List String)) → Bool
  | _, [] => true
  | index, none :: rest => topicsMatch topics (index + 1) rest
  | index, some allowed :: rest =>
    match topics[index]? with
    -- A log without such a topic does not match, whatever is allowed.
    | none => false
    | some topic =>
      if allowed.any fun value => eqIgnoreAsciiCase value topic then
        topicsMatch topics (index + 1) rest
      else false

def «matches» (filter : LogFilter) (log : LogNotification) : Bool :=
  -- An empty list of addresses lets no log through.
  if filter.address.any fun addresses =>
      !addresses.any fun address => eqIgnoreAsciiCase address log.address then false
  else match filter.topics with
    | none => true
    | some filters => topicsMatch log.topics 0 filters

/-- A list of texts, all or nothing. -/
def texts : Value → Option (List String)
  | .array items => items.mapM Value.asStr
  | _ => none

/-- A value that may be missing or null. -/
def optional {α : Type} (read : Value → Option α) : Option Value → Option (Option α)
  -- A field that is null counts as missing.
  | none | some .null => some none
  | some value => (read value).map some

/-- The alternatives at every position, where null stands for any topic. -/
def positions : Value → Option (List (Option (List String)))
  | .array items => items.mapM fun item => optional texts (some item)
  | _ => none

/-- Reads a filter, which comes with named fields or as a list of exactly both of them. -/
def deserialize : Value → Option LogFilter
  | .object fields => do
    return {
      address := ← optional texts (fields.lookup "address")
      topics := ← optional positions (fields.lookup "topics") }
  | .array [address, topics] => do
    return {
      address := ← optional texts (some address)
      topics := ← optional positions (some topics) }
  | _ => none

end LogFilter

end MiniEvm
