import MiniEvm.Bytes.Hex
import MiniEvm.Rpc.Estimator

/-! Call requests as JSON: what a client sends, and what is sent to another node. -/

namespace MiniEvm

/-- A JSON value; an object has its fields in one of their orders. -/
inductive Value where
  | null
  | bool (value : Bool)
  | number (literal : String)
  | string (text : String)
  | array (items : List Value)
  | object (fields : List (String × Value))

namespace Value

def asStr : Value → Option String
  | string text => some text
  | _ => none

/-- Enters a field in place of any other of its name. -/
def insert : List (String × Value) → String → Value → List (String × Value)
  | [], key, value => [(key, value)]
  | field :: rest, key, value =>
    if field.1 = key then (key, value) :: rest else field :: insert rest key value

/-- Enters a field if there is something to enter. -/
def insertSome (fields : List (String × Value)) (key : String) :
    Option Value → List (String × Value)
  | some value => insert fields key value
  | none => fields

end Value

/-- Why a value is refused; the text for a value of the wrong kind is not ours. -/
inductive DeserializeError where
  | custom (message : String)
  | invalidType (found : Value) (expected : String)

/-- Reads digits behind an optional prefix; an odd number of them is read as if a zero came
first. -/
def decodeHex (value : String) : Except String Bytes :=
  let value := (Hex.stripPrefix "0x" value).getD value
  -- The length is counted in bytes, also of a text that is no ASCII.
  let digits := if (Hex.utf8 value).length % 2 = 1 then "0" ++ value else value
  (Hex.decode digits).mapError Hex.FromHexError.text

def parseAddress (value : String) : Except String Address := do
  let bytes ← decodeHex value
  if bytes.length = 20 then return accountAddress (fromBeBytes bytes)
  else throw ("address must be 20 bytes, got " ++ toString bytes.length)

def parseU256 (value : String) : Except String Word := do
  let bytes ← decodeHex value
  if bytes.length > 32 then throw "integer exceeds 256 bits"
  -- Zeros in front fill up the word.
  else return fromBeBytes (List.replicate (32 - bytes.length) 0 ++ bytes)

def formatAddress (address : Address) : String := "0x" ++ Hex.encode (beBytes 20 address.toNat)

/-- The digits of the shortest byte string that is not empty. -/
def formatU256 (value : Word) : String :=
  let bytes := toBeBytes value
  -- The last byte stays, even if it is zero.
  let first := (bytes.findIdx? (· ≠ 0)).getD 31
  "0x" ++ Hex.encode (bytes.drop first)

/-- Whatever is no text counts as absent. -/
def optionalHex (value : Option Value) : Option String := value.bind Value.asStr

def Bytes.serialize (bytes : Bytes) : Value := .string ("0x" ++ Hex.encode bytes)

def Bytes.deserialize : Value → Except DeserializeError Bytes
  | .string text => (decodeHex text).mapError .custom
  | found => .error (.invalidType found "a string")

namespace CallRequest

def serialize (request : CallRequest) : Value :=
  -- An absent field is left out, and is not written as null.
  let object := Value.insertSome [] "from" (request.from_.map (.string ∘ formatAddress))
  let object := Value.insertSome object "to" (request.to_.map (.string ∘ formatAddress))
  let object := Value.insertSome object "gas" (request.gas.map (.string ∘ formatU256))
  let object := Value.insertSome object "gasPrice" (request.gasPrice.map (.string ∘ formatU256))
  let object := Value.insertSome object "value" (request.value.map (.string ∘ formatU256))
  let object := Value.insertSome object "data" (request.data.map Bytes.serialize)
  .object object

/-- A field that is text, read by its own rule. -/
def parseField {α : Type} (parse : String → Except String α) (object : List (String × Value))
    (key : String) : Except DeserializeError (Option α) :=
  match optionalHex (object.lookup key) with
  | some text => ((parse text).map some).mapError .custom
  -- A number or a list in the place of a text is passed over, too.
  | none => .ok none

/-- Here alone a value that is no text is an error. -/
def parseData (object : List (String × Value)) : Except DeserializeError (Option Bytes) :=
  match object.lookup "data" with
  | some value => (Bytes.deserialize value).map some
  | none => .ok none

def deserialize : Value → Except DeserializeError CallRequest
  | .object object => do
    return {
      from_ := ← parseField parseAddress object "from"
      to_ := ← parseField parseAddress object "to"
      gas := ← parseField parseU256 object "gas"
      gasPrice := ← parseField parseU256 object "gasPrice"
      value := ← parseField parseU256 object "value"
      data := ← parseData object }
  | found => .error (.invalidType found "a map")

end CallRequest

end MiniEvm
