import MiniEvm.Channels.Broadcast
import MiniEvm.Rpc.Notifications
import MiniEvm.Rpc.Requests

/-! Subscriptions over a websocket: sessions that read one channel of events, each at its
own pace. -/

namespace MiniEvm

open Broadcast

namespace Value

/-- A field of an object. -/
def get : Value → String → Option Value
  | object fields, key => fields.lookup key
  | _, _ => none

def asArray : Value → Option (List Value)
  | array items => some items
  | _ => none

end Value

/-- The answer to a request, with its id. -/
def success (result id : Value) : Value :=
  .object [("jsonrpc", .string "2.0"), ("result", result), ("id", id)]

def JsonRpcError.toValue (error : JsonRpcError) : Value :=
  .object [("code", .number (toString error.code)), ("message", .string error.message)]

def errorResponse (error : JsonRpcError) (id : Value) : Value :=
  .object [("jsonrpc", .string "2.0"), ("error", error.toValue), ("id", id)]

/-- What a subscriber is told about. -/
inductive SubscriptionKind where
  | newHeads
  | logs (filter : LogFilter)
  | pendingTransactions

/-- What a subscriber of some kind reads about an event, if it is told of it at all. -/
def SubscriptionKind.result : SubscriptionKind → EvmEvent → Option Value
  | newHeads, .newHead number hash parentNumber =>
    some (headNotification number hash parentNumber).toValue
  | pendingTransactions, .pendingTx hash => some (.string (hexWord hash))
  | logs filter, .log record blockHash blockNumber transactionHash logIndex =>
    let log := logNotification record blockHash blockNumber transactionHash logIndex
    if filter.matches log then some log.toValue else none
  | _, _ => none

/-- The subscriptions of one connection, under their ids. -/
abbrev ActiveSubscriptions := HashMap String SubscriptionKind

/-- The text under which the counter files a subscription. -/
def subscriptionId (counter : Nat) : String := Hex.number counter

/-- The counter is shared by all connections and wraps. -/
def fetchAdd (counter : Nat) : Nat := (counter + 1) % 2 ^ 64

/-- What a request of a client comes down to. -/
inductive WsRequest where
  | subscribe (kind : SubscriptionKind)
  | unsubscribe (subscription : String)
  | refused (error : JsonRpcError)

/-- The kind that the parameters name; a filter that cannot be read is as good as none. -/
def SubscriptionKind.read (params : Option (List Value)) : Option SubscriptionKind :=
  ((params.bind List.head?).bind Value.asStr).bind fun value =>
    if value = "newHeads" then some newHeads
    else if value = "pendingTransactions" then some pendingTransactions
    else if value = "logs" then
      some (logs (((params.bind fun values => values[1]?).bind LogFilter.deserialize).getD {}))
    else none

def WsRequest.read (request : Value) : WsRequest :=
  let method := ((request.get "method").bind Value.asStr).getD ""
  let params := (request.get "params").bind Value.asArray
  if method = "eth_subscribe" then
    match SubscriptionKind.read params with
    | some kind => subscribe kind
    | none => refused (.custom (-32601) "Unsupported subscription type")
  else if method = "eth_unsubscribe" then
    unsubscribe (((params.bind List.head?).bind Value.asStr).getD "")
  else refused (.custom (-32601) "Method not found")

/-- What is sent to a client. -/
inductive Outgoing where
  | response (answer : Value)
  | notification (subscription : String) (result : Value)

def Outgoing.toValue : Outgoing → Value
  | response answer => answer
  | notification subscription result => .object [("jsonrpc", .string "2.0"),
    ("method", .string "eth_subscription"),
    ("params", .object [("subscription", .string subscription), ("result", result)])]

/-- One connection, with its place in the channel and all that has been sent to its client. -/
structure Session where
  subs : ActiveSubscriptions
  next : Nat
  isOpen : Bool
  sent : List Outgoing

/-- What a request did to the subscriptions. -/
inductive SubscriptionEffect where
  | subscribed (subscription : String) (kind : SubscriptionKind)
  | unsubscribed (subscription : String)
  | refused

/-- What a request changes: the subscriptions and the counter, with the answer to it. -/
structure Handled where
  effect : SubscriptionEffect
  subs : ActiveSubscriptions
  counter : Nat
  response : Value

/-- Answers one request of a client. -/
def handleRequest (counter : Nat) (subs : ActiveSubscriptions) (request : Value) : Handled :=
  let id := (request.get "id").getD .null
  match WsRequest.read request with
  | .subscribe kind =>
    let subscription := subscriptionId counter
    { effect := .subscribed subscription kind
      subs := subs.insert subscription kind
      counter := fetchAdd counter
      response := success (.string subscription) id }
  | .unsubscribe subscription =>
    { effect := .unsubscribed subscription
      subs := subs.erase subscription
      counter
      response := success (.bool (subs.lookup subscription).isSome) id }
  | .refused error => { effect := .refused, subs, counter, response := errorResponse error id }

/-- The notifications about one event, subscription after subscription in some order. -/
def notifications (event : EvmEvent)
    (order : List (Sigma fun _ : String => SubscriptionKind)) : List Outgoing :=
  order.filterMap fun entry => (entry.2.result event).map (.notification entry.1)

/-- How many events the channel keeps. -/
def channelCapacity : Nat := 1024

/-- All connections around one channel of events. -/
structure Hub where
  events : List EvmEvent
  counter : Nat
  sessions : List Session

namespace Hub

def new : Hub where
  events := []
  counter := 1
  sessions := []

/-- The hub with one session in another state. -/
def withSession (hub : Hub) (index : Nat) (session : Session) : Hub :=
  { hub with sessions := hub.sessions.set index session }

/-- One thing that happens at a hub; a session is named by its position. -/
inductive Happening where
  | sent (event : EvmEvent)
  | connected
  | requested (index : Nat) (effect : SubscriptionEffect)
  -- The answer to a request could not be sent, which ends the session.
  | abandoned (index : Nat) (effect : SubscriptionEffect)
  | ignored (index : Nat)
  | received (index : Nat) (event : EvmEvent)
  | lagged (index : Nat) (skipped : Nat)
  | closed (index : Nat)

/-- What can happen next; which session is served next, and how a map is iterated, is open. -/
inductive Step (hub : Hub) : Happening → Hub → Prop
  | send (event : EvmEvent) : Step hub (.sent event) { hub with events := hub.events ++ [event] }
  -- A new session reads what is sent from now on.
  | connect : Step hub .connected { hub with
      sessions := hub.sessions ++ [⟨∅, hub.events.length, true, []⟩] }
  | request {index session} (request : Value) : hub.sessions[index]? = some session →
      session.isOpen = true →
      Step hub (.requested index (handleRequest hub.counter session.subs request).effect)
        { (hub.withSession index { session with
            subs := (handleRequest hub.counter session.subs request).subs
            sent := session.sent ++
              [.response (handleRequest hub.counter session.subs request).response] }) with
          counter := (handleRequest hub.counter session.subs request).counter }
  | abandon {index session} (request : Value) : hub.sessions[index]? = some session →
      session.isOpen = true →
      Step hub (.abandoned index (handleRequest hub.counter session.subs request).effect)
        { (hub.withSession index { session with
            subs := (handleRequest hub.counter session.subs request).subs
            isOpen := false }) with
          counter := (handleRequest hub.counter session.subs request).counter }
  -- A text that is no JSON is passed over.
  | ignore {index session} : hub.sessions[index]? = some session → session.isOpen = true →
      Step hub (.ignored index) hub
  | receive {index session event next}
      (order : List (Sigma fun _ : String => SubscriptionKind)) :
      hub.sessions[index]? = some session → session.isOpen = true →
      recv channelCapacity hub.events session.next = some (.value event, next) →
      order.Perm session.subs.entries →
      Step hub (.received index event) (hub.withSession index { session with
        next
        sent := session.sent ++ notifications event order })
  | lag {index session skipped next} : hub.sessions[index]? = some session →
      session.isOpen = true →
      recv channelCapacity hub.events session.next = some (.lagged skipped, next) →
      Step hub (.lagged index skipped) (hub.withSession index { session with next })
  -- The client goes, or sends what is no text.
  | close {index session} : hub.sessions[index]? = some session → session.isOpen = true →
      Step hub (.closed index) (hub.withSession index { session with isOpen := false })
  -- A notification could not be sent, after some of the others.
  | breakOff {index session event next} (order : List (Sigma fun _ : String => SubscriptionKind))
      (told : List Outgoing) : hub.sessions[index]? = some session → session.isOpen = true →
      recv channelCapacity hub.events session.next = some (.value event, next) →
      order.Perm session.subs.entries → told <+: notifications event order →
      Step hub (.closed index) (hub.withSession index { session with
        next
        isOpen := false
        sent := session.sent ++ told })

/-- What has happened at a hub since it started. -/
inductive Run : List Happening → Hub → Prop
  | new : Run [] Hub.new
  | step {past hub happening hub'} : Run past hub → Step hub happening hub' →
      Run (past ++ [happening]) hub'

end Hub

end MiniEvm
