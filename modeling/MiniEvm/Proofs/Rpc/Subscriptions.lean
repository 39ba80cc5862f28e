import MiniEvm.Rpc.Subscriptions

/-! Every subscriber is told exactly what it asked for, and hears of every gap. -/

namespace MiniEvm

open Broadcast

namespace Hub

/-- What a client should have been told under one id of its session. -/
structure Watch where
  kind : Option SubscriptionKind := none
  told : List Value := []

/-- What happens to a subscription: it begins, it ends, or its session receives an event. -/
def Watch.observe (index : Nat) (subscription : String) (watch : Watch) : Happening → Watch
  | .requested at_ (.subscribed id kind) =>
    if at_ = index ∧ id = subscription then { watch with kind := some kind } else watch
  | .requested at_ (.unsubscribed id) =>
    if at_ = index ∧ id = subscription then { watch with kind := none } else watch
  | .received at_ event =>
    if at_ = index then
      { watch with told := watch.told ++ (watch.kind.bind fun kind => kind.result event).toList }
    else watch
  | _ => watch

def watch (index : Nat) (subscription : String) (past : List Happening) : Watch :=
  past.foldl (Watch.observe index subscription) {}

/-- What a session was handed by the channel. -/
def Happening.heard (index : Nat) : Happening → Option (Received EvmEvent)
  | received at_ event => if at_ = index then some (.value event) else none
  | lagged at_ skipped => if at_ = index then some (.lagged skipped) else none
  | _ => none

def heard (index : Nat) (past : List Happening) : List (Received EvmEvent) :=
  past.filterMap (Happening.heard index)

/-- How many events had been sent when a session joined. -/
def joinedAt : Nat → List Happening → Nat
  | _, [] => 0
  | 0, .connected :: _ => 0
  | index + 1, .connected :: rest => joinedAt index rest
  | index, .sent _ :: rest => joinedAt index rest + 1
  | index, _ :: rest => joinedAt index rest

/-- The session that a happening is about. -/
def Happening.session : Happening → Option Nat
  | sent _ | connected => none
  | requested index _ | abandoned index _ | ignored index | received index _ | lagged index _
  | closed index => some index

/-- The event that a happening adds to the channel. -/
def Happening.event : Happening → Option EvmEvent
  | sent event => some event
  | _ => none

end Hub

/-- The results that a session has sent under one id. -/
def Outgoing.result (subscription : String) : Outgoing → Option Value
  | response _ => none
  | notification id result => if id = subscription then some result else none

def Session.notified (session : Session) (subscription : String) : List Value :=
  session.sent.filterMap (Outgoing.result subscription)

open Hub

section Notifications

/-- In whatever order a map is gone through, one key is met once at most. -/
theorem filterMap_of_nodupKeys {β : Type} (key : String) (read : SubscriptionKind → Option β)
    {order : List (Sigma fun _ : String => SubscriptionKind)} (nodup : order.NodupKeys) :
    (order.filterMap fun entry => if entry.1 = key then read entry.2 else none) =
      ((order.dlookup key).bind read).toList := by
  induction order with
  | nil => rfl
  | cons entry rest ih =>
    obtain ⟨id, kind⟩ := entry
    obtain ⟨fresh, nodup⟩ := List.nodupKeys_cons.mp nodup
    by_cases here : id = key
    · subst here
      -- The key is not met again, so nothing of the rest is read.
      have nothing := ih nodup
      rw [List.dlookup_eq_none.mpr fresh] at nothing
      rw [List.dlookup_cons_eq, List.filterMap_cons, Option.bind_some]
      simp only [if_true, nothing]
      cases read kind with
      | none => rfl
      | some result => rfl
    · rw [List.dlookup_cons_ne _ _ (Ne.symm here), List.filterMap_cons]
      simp only [here, if_false]
      exact ih nodup

/-- One event leads to one notification at most under every id, and to the right one. -/
theorem notified_notifications {subs : ActiveSubscriptions} {event : EvmEvent}
    {order : List (Sigma fun _ : String => SubscriptionKind)} (perm : order.Perm subs.entries)
    (subscription : String) :
    (notifications event order).filterMap (Outgoing.result subscription) =
      ((subs.lookup subscription).bind fun kind => kind.result event).toList := by
  have nodup : order.NodupKeys := (List.perm_nodupKeys perm).mpr subs.nodupKeys
  -- Any iteration order of the map finds the same kind under an id.
  have same : order.dlookup subscription = subs.lookup subscription :=
    List.perm_dlookup subscription nodup perm
  rw [← same, ← filterMap_of_nodupKeys subscription _ nodup, notifications, List.filterMap_filterMap]
  refine List.filterMap_congr fun entry _ => ?_
  cases entry.2.result event with
  | none => simp
  | some result => simp [Outgoing.result]

end Notifications

section Watching

variable {index : Nat} {subscription : String} {past : List Happening} {happening : Happening}

/-- A watch observes one happening after the other. -/
theorem watch_append (past : List Happening) (happening : Happening) :
    watch index subscription (past ++ [happening]) =
      (watch index subscription past).observe index subscription happening := by
  simp only [watch, List.foldl_append, List.foldl_cons, List.foldl_nil]

/-- What happens to other sessions is nothing to a subscription. -/
theorem observe_of_other (watch : Watch) (other : happening.session ≠ some index) :
    watch.observe index subscription happening = watch := by
  -- Only requests and events that a session receives are observed at all.
  cases happening with
  | requested at_ effect =>
    have elsewhere : at_ ≠ index := fun same => other (congrArg some same)
    cases effect <;> simp [Watch.observe, elsewhere]
  | received at_ event =>
    have elsewhere : at_ ≠ index := fun same => other (congrArg some same)
    simp [Watch.observe, elsewhere]
  | _ => rfl

/-- What a session hears is heard in the order of what happens. -/
theorem heard_append (past : List Happening) (happening : Happening) :
    heard index (past ++ [happening]) = heard index past ++ (happening.heard index).toList := by
  rw [heard, List.filterMap_append, List.filterMap_cons, List.filterMap_nil]
  cases happening.heard index <;> rfl

/-- A happening in another session is not heard. -/
theorem heard_of_other (other : happening.session ≠ some index) :
    happening.heard index = none := by
  -- A session hears events and gaps, both under its own position.
  cases happening with
  | received at_ event =>
    have elsewhere : at_ ≠ index := fun same => other (congrArg some same)
    simp [Happening.heard, elsewhere]
  | lagged at_ skipped =>
    have elsewhere : at_ ≠ index := fun same => other (congrArg some same)
    simp [Happening.heard, elsewhere]
  | _ => rfl

/-- How many sessions have joined. -/
def joined (past : List Happening) : Nat :=
  past.countP fun | .connected => true | _ => false

/-- Where a session joined is settled as soon as it has. -/
theorem joinedAt_append (index : Nat) (past : List Happening) (happening : Happening)
    (known : index < joined past) :
    joinedAt index (past ++ [happening]) = joinedAt index past := by
  -- The first thing that happened either is the joining or comes before it.
  induction past generalizing index with
  | nil => cases known
  | cons first rest ih =>
    cases first with
    | connected =>
      cases index with
      | zero => rfl
      | succ index => exact ih index (by simpa [joined] using known)
    | sent event => exact congrArg (· + 1) (ih index (by simpa [joined] using known))
    | _ => exact ih index (by simpa [joined] using known)

/-- A session that joins now joins behind everything that has been sent. -/
theorem joinedAt_connected (past : List Happening) :
    joinedAt (joined past) (past ++ [.connected]) = (past.filterMap Happening.event).length := by
  -- Only what was sent before moves the place of joining.
  induction past with
  | nil => rfl
  | cons first rest ih =>
    cases first with
    | connected =>
      have count : joined (.connected :: rest) = joined rest + 1 := by simp [joined]
      rw [count]
      exact ih
    | sent event =>
      have count : joined (.sent event :: rest) = joined rest := by simp [joined]
      rw [count]
      exact congrArg (· + 1) ih
    | _ =>
      rw [show joined (_ :: rest) = joined rest by simp [joined]]
      exact ih

end Watching

section Tracking

variable {past : List Happening} {happening : Happening} {hub : Hub} {index : Nat}
  {session session' : Session} {subscription : String}

/-- A session has the subscriptions its client asked for, and has told it what it should. -/
structure Tracks (past : List Happening) (hub : Hub) (index : Nat) (session : Session) : Prop where
  subs : ∀ subscription, session.subs.lookup subscription = (watch index subscription past).kind
  told : ∀ subscription, session.notified subscription = (watch index subscription past).told
  reading : Broadcast.Reading (joinedAt index past) hub.events session.next (heard index past)

/-- A hub agrees with what has happened. -/
structure Coherent (past : List Happening) (hub : Hub) : Prop where
  events : hub.events = past.filterMap Happening.event
  sessions : hub.sessions.length = joined past
  tracks : ∀ index session, hub.sessions[index]? = some session → session.isOpen = true →
    Tracks past hub index session
  fresh : ∀ index, hub.sessions.length ≤ index →
    (∀ subscription, watch index subscription past = {}) ∧ heard index past = []

/-- A session is not touched by what happens to others. -/
theorem Tracks.of_other (tracks : Tracks past hub index session) {hub' : Hub}
    (other : happening.session ≠ some index) (known : index < joined past)
    (more : ∃ events, hub'.events = hub.events ++ events) :
    Tracks (past ++ [happening]) hub' index session where
  subs := by
    intro subscription
    rw [watch_append, observe_of_other _ other]
    exact tracks.subs subscription
  told := by
    intro subscription
    rw [watch_append, observe_of_other _ other]
    exact tracks.told subscription
  reading := by
    -- What is sent to the channel waits there for the session.
    obtain ⟨events, more⟩ := more
    rw [more, heard_append, heard_of_other other, joinedAt_append index past happening known]
    simpa using tracks.reading.send events

/-- A session that reads nothing stays where it is. -/
theorem Tracks.reading_of_unheard (tracks : Tracks past hub index session)
    (unheard : happening.heard index = none) (known : index < joined past) :
    Broadcast.Reading (joinedAt index (past ++ [happening])) hub.events session.next
      (heard index (past ++ [happening])) := by
  rw [heard_append, unheard, joinedAt_append index past happening known]
  simpa using tracks.reading

/-- A session that has not joined yet has nothing of what happens to nobody or to another one. -/
theorem Coherent.fresh_of_other (coherent : Coherent past hub) (beyond : hub.sessions.length ≤ index)
    (other : happening.session ≠ some index) :
    (∀ subscription, watch index subscription (past ++ [happening]) = {}) ∧
      heard index (past ++ [happening]) = [] := by
  -- Nothing is observed at a position that nobody has yet.
  obtain ⟨unwatched, unheard⟩ := coherent.fresh index beyond
  constructor
  · intro subscription
    rw [watch_append, observe_of_other _ other, unwatched]
  · rw [heard_append, heard_of_other other, unheard]
    rfl

/-- What happens to one session keeps the hub coherent, if that session goes on tracking. -/
theorem Coherent.serve (coherent : Coherent past hub) (counter : Nat)
    (here : hub.sessions[index]? = some session) (about : happening.session = some index)
    (own : index < joined past → session'.isOpen = true →
      Tracks (past ++ [happening]) hub index session') :
    Coherent (past ++ [happening]) { hub.withSession index session' with counter } := by
  -- What is about a session is neither sent to the channel nor a new connection.
  have quiet : happening.event = none := by
    cases happening <;> first | rfl | cases about
  have count : joined (past ++ [happening]) = joined past := by
    cases happening with
    | sent event => cases about
    | connected => cases about
    | _ => simp [joined]
  have within : index < hub.sessions.length := (List.getElem?_eq_some_iff.mp here).1
  have known : index < joined past := coherent.sessions ▸ within
  refine ⟨?_, ?_, ?_, ?_⟩
  · rw [List.filterMap_append, List.filterMap_cons, quiet]
    simpa [Hub.withSession] using coherent.events
  · rw [count]
    simpa [Hub.withSession] using coherent.sessions
  · intro other found at_ isOpen
    -- The served session is replaced, and all others are as they were.
    by_cases same : index = other
    · subst same
      have replaced : found = session' := by
        simpa [Hub.withSession, List.getElem?_set_self within] using at_.symm
      subst replaced
      have tracks := own known isOpen
      exact ⟨tracks.subs, tracks.told, tracks.reading⟩
    · have kept : hub.sessions[other]? = some found := by
        simpa [Hub.withSession, List.getElem?_set_ne same] using at_
      refine (coherent.tracks other found kept isOpen).of_other ?_ ?_ ⟨[], by simp [Hub.withSession]⟩
      · rw [about]
        exact fun equal => same (Option.some.inj equal)
      · rw [← coherent.sessions]
        exact (List.getElem?_eq_some_iff.mp kept).1
  · intro other beyond
    have beyond : hub.sessions.length ≤ other := by simpa [Hub.withSession] using beyond
    apply coherent.fresh_of_other beyond
    rw [about]
    intro equal
    have := Option.some.inj equal
    omega

/-- Responses are not notifications. -/
theorem notified_response (session : Session) (subs : ActiveSubscriptions) (answer : Value)
    (subscription : String) :
    Session.notified { session with subs, sent := session.sent ++ [.response answer] } subscription =
      session.notified subscription := by
  simp only [Session.notified, List.filterMap_append, List.filterMap_cons, Outgoing.result,
    List.filterMap_nil, List.append_nil]

/-- A request changes the subscriptions as its effect says. -/
theorem lookup_handled (counter : Nat) (subs : ActiveSubscriptions) (request : Value)
    {watch : Watch} (same : subs.lookup subscription = watch.kind) :
    (handleRequest counter subs request).subs.lookup subscription =
      (watch.observe index subscription
        (.requested index (handleRequest counter subs request).effect)).kind := by
  unfold handleRequest
  -- A subscription is found under the id it was given, and lost when it is ended.
  cases WsRequest.read request with
  | subscribe kind =>
    simp only [Watch.observe, true_and]
    by_cases here : subscriptionId counter = subscription
    · rw [if_pos here, ← here, AList.lookup_insert]
    · rw [if_neg here, AList.lookup_insert_ne (Ne.symm here), same]
  | unsubscribe id =>
    simp only [Watch.observe, true_and]
    by_cases here : id = subscription
    · rw [if_pos here, ← here, AList.lookup_erase]
    · rw [if_neg here, AList.lookup_erase_ne (Ne.symm here), same]
  | refused error => exact same

/-- A request tells nothing by itself. -/
theorem told_requested (watch : Watch) (effect : SubscriptionEffect) :
    (watch.observe index subscription (.requested index effect)).told = watch.told := by
  -- Opening or ending a subscription changes what will be told, and not what was.
  cases effect with
  | subscribed id kind =>
    simp only [Watch.observe]
    split <;> rfl
  | unsubscribed id =>
    simp only [Watch.observe]
    split <;> rfl
  | refused => rfl

/-- An event goes to the channel, and is on its way to all sessions. -/
theorem Coherent.send (coherent : Coherent past hub) (event : EvmEvent) :
    Coherent (past ++ [.sent event]) { hub with events := hub.events ++ [event] } := by
  have other : ∀ index, (Happening.sent event).session ≠ some index := by simp [Happening.session]
  -- The channel grows, and no session has read the event yet.
  refine ⟨?_, ?_, ?_, ?_⟩
  · rw [List.filterMap_append, coherent.events]
    rfl
  · simpa [joined] using coherent.sessions
  · intro index session here isOpen
    refine (coherent.tracks index session here isOpen).of_other (other index) ?_ ⟨[event], rfl⟩
    rw [← coherent.sessions]
    exact (List.getElem?_eq_some_iff.mp here).1
  · exact fun index beyond => coherent.fresh_of_other beyond (other index)

/-- A session that joins has been told nothing, and starts behind all that was sent. -/
theorem Coherent.tracks_of_joining (coherent : Coherent past hub) :
    Tracks (past ++ [.connected])
      { hub with sessions := hub.sessions ++ [⟨∅, hub.events.length, true, []⟩] }
      hub.sessions.length ⟨∅, hub.events.length, true, []⟩ := by
  have other : Happening.connected.session ≠ some hub.sessions.length := by
    simp [Happening.session]
  obtain ⟨unwatched, unheard⟩ := coherent.fresh_of_other (Nat.le_refl _) other
  refine ⟨fun subscription => ?_, fun subscription => ?_, ?_⟩
  · rw [unwatched]
    rfl
  · rw [unwatched]
    rfl
  · rw [unheard, coherent.sessions, joinedAt_connected, ← coherent.events]
    exact .join hub.events

/-- A new session comes behind the ones that are there. -/
theorem Coherent.connect (coherent : Coherent past hub) :
    Coherent (past ++ [.connected])
      { hub with sessions := hub.sessions ++ [⟨∅, hub.events.length, true, []⟩] } := by
  have other : ∀ index, Happening.connected.session ≠ some index := by simp [Happening.session]
  refine ⟨?_, ?_, ?_, ?_⟩
  · rw [List.filterMap_append, coherent.events]
    simp [Happening.event]
  · have count : joined (past ++ [.connected]) = joined past + 1 := by simp [joined]
    rw [count, ← coherent.sessions, List.length_append]
    rfl
  · intro index session here isOpen
    by_cases old : index < hub.sessions.length
    · rw [List.getElem?_append_left old] at here
      refine (coherent.tracks index session here isOpen).of_other (other index) ?_ ⟨[], by simp⟩
      rw [← coherent.sessions]
      exact old
    · -- Behind the old sessions there is only the new one.
      rw [List.getElem?_append_right (Nat.not_lt.mp old)] at here
      obtain ⟨first, rfl⟩ : index = hub.sessions.length ∧ _ = session := by
        have within := (List.getElem?_eq_some_iff.mp here).1
        rw [List.length_singleton] at within
        have zero : index - hub.sessions.length = 0 := by omega
        rw [zero] at here
        exact ⟨by omega, Option.some.inj here⟩
      rw [first]
      exact coherent.tracks_of_joining
  · intro index beyond
    rw [List.length_append] at beyond
    exact coherent.fresh_of_other (by omega) (other index)

/-- A request changes the subscriptions, and is answered by a response. -/
theorem Tracks.request (tracks : Tracks past hub index session) (counter : Nat) (request : Value)
    (known : index < joined past) :
    Tracks (past ++ [.requested index (handleRequest counter session.subs request).effect]) hub index
      { session with
        subs := (handleRequest counter session.subs request).subs
        sent := session.sent ++
          [.response (handleRequest counter session.subs request).response] } where
  -- The response is no notification, so that only the subscriptions change.
  subs := by
    intro subscription
    rw [watch_append]
    exact lookup_handled counter session.subs request (tracks.subs subscription)
  told := by
    intro subscription
    rw [watch_append, told_requested, ← tracks.told subscription]
    exact notified_response session _ _ subscription
  reading := tracks.reading_of_unheard rfl known

/-- A session that passes over a text goes on as it was. -/
theorem Tracks.ignore (tracks : Tracks past hub index session) (known : index < joined past) :
    Tracks (past ++ [.ignored index]) hub index session where
  subs := by
    intro subscription
    rw [watch_append]
    exact tracks.subs subscription
  told := by
    intro subscription
    rw [watch_append]
    exact tracks.told subscription
  reading := tracks.reading_of_unheard rfl known

/-- An event that is received is told under the subscriptions that it means something to. -/
theorem Tracks.receive (tracks : Tracks past hub index session) {event : EvmEvent} {next : Nat}
    {order : List (Sigma fun _ : String => SubscriptionKind)}
    (handed : Broadcast.recv channelCapacity hub.events session.next = some (.value event, next))
    (perm : order.Perm session.subs.entries) (known : index < joined past) :
    Tracks (past ++ [.received index event]) hub index
      { session with next, sent := session.sent ++ notifications event order } where
  subs := by
    intro subscription
    rw [watch_append]
    simp only [Watch.observe, if_true]
    exact tracks.subs subscription
  told := by
    intro subscription
    rw [watch_append]
    simp only [Watch.observe, if_true]
    -- Under its id the session tells what the event means to the subscription, once.
    rw [← tracks.told subscription, ← tracks.subs subscription, ← notified_notifications perm]
    simp only [Session.notified, List.filterMap_append]
  reading := by
    rw [heard_append, joinedAt_append index past _ known]
    simp only [Happening.heard, if_true, Option.toList_some]
    exact tracks.reading.recv handed

/-- A session that has lagged is told nothing, and reads on where the channel still has
something. -/
theorem Tracks.lag (tracks : Tracks past hub index session) {skipped next : Nat}
    (handed : Broadcast.recv channelCapacity hub.events session.next = some (.lagged skipped, next))
    (known : index < joined past) :
    Tracks (past ++ [.lagged index skipped]) hub index { session with next } where
  subs := by
    intro subscription
    rw [watch_append]
    exact tracks.subs subscription
  told := by
    intro subscription
    rw [watch_append]
    exact tracks.told subscription
  -- The gap is heard, and the cursor goes behind it.
  reading := by
    rw [heard_append, joinedAt_append index past _ known]
    simp only [Happening.heard, if_true, Option.toList_some]
    exact tracks.reading.recv handed

/-- Whatever happens next, the hub stays coherent. -/
theorem Coherent.step {hub' : Hub} (coherent : Coherent past hub)
    (step : Hub.Step hub happening hub') : Coherent (past ++ [happening]) hub' := by
  cases step with
  | send event => exact coherent.send event
  | connect => exact coherent.connect
  | @request index session request here isOpen =>
    have tracks := coherent.tracks index session here isOpen
    exact coherent.serve _ here rfl fun known _ => tracks.request hub.counter request known
  | @ignore index session here isOpen =>
    have tracks := coherent.tracks index session here isOpen
    have same : hub = { hub.withSession index session with counter := hub.counter } := by
      obtain ⟨within, rfl⟩ := List.getElem?_eq_some_iff.mp here
      simp only [Hub.withSession, List.set_getElem_self]
    rw [same]
    exact coherent.serve _ here rfl fun known _ => tracks.ignore known
  | @receive index session event next order here isOpen handed perm =>
    have tracks := coherent.tracks index session here isOpen
    exact coherent.serve hub.counter here rfl fun known _ => tracks.receive handed perm known
  | @lag index session skipped next here isOpen handed =>
    have tracks := coherent.tracks index session here isOpen
    exact coherent.serve hub.counter here rfl fun known _ => tracks.lag handed known
  -- The other three end their session, which then has nothing to track.
  | @abandon index session request here isOpen =>
    exact coherent.serve _ here rfl fun _ isOpen => nomatch isOpen
  | @close index session here isOpen =>
    exact coherent.serve hub.counter here rfl fun _ isOpen => nomatch isOpen
  | @breakOff index session event next order told here isOpen handed perm part =>
    exact coherent.serve hub.counter here rfl fun _ isOpen => nomatch isOpen

/-- So every hub that can be reached is coherent. -/
theorem coherent_of_run (run : Hub.Run past hub) : Coherent past hub := by
  induction run with
  | new =>
    refine ⟨rfl, rfl, fun index session here => ?_, fun index _ => ⟨fun _ => rfl, rfl⟩⟩
    simp [Hub.new] at here
  | step _ step ih => exact ih.step step

/--
Every subscriber is told exactly what it asked for.

As long as its connection is up, whatever happens to others, a client has been sent one notification
for each event its session received between the request for a subscription and its end, in order and
under that id, if the event is of the kind that was asked for; and its session has received
everything since it joined, but for the gaps that the channel reported.
-/
theorem subscribers_are_told (past : List Happening) (hub : Hub) (run : Hub.Run past hub)
    (index : Nat) (session : Session) (here : hub.sessions[index]? = some session)
    (isOpen : session.isOpen = true) :
    (∀ subscription, session.subs.lookup subscription = (watch index subscription past).kind ∧
      session.notified subscription = (watch index subscription past).told) ∧
    Broadcast.Reading (joinedAt index past) hub.events session.next (heard index past) ∧
    (missed (heard index past) = 0 → (heard index past).filterMap Received.message =
      (hub.events.take session.next).drop (joinedAt index past)) := by
  -- All of it is what a coherent hub says of an open session.
  have tracks := (coherent_of_run run).tracks index session here isOpen
  exact ⟨fun subscription => ⟨tracks.subs subscription, tracks.told subscription⟩,
    tracks.reading, fun gapless => tracks.reading.complete gapless⟩

/-- The request for all heads. -/
def headsRequest : Value :=
  .object [("id", .number "1"), ("method", .string "eth_subscribe"),
    ("params", .array [.string "newHeads"])]

/-- A client joins after the first head, asks for heads and receives the second one. -/
theorem exists_subscribed :
    ∃ (past : List Happening) (hub : Hub) (session : Session),
      Hub.Run past hub ∧ hub.sessions[0]? = some session ∧
      session.isOpen = true ∧ (session.subs.lookup (subscriptionId 1)).isSome = true ∧
      session.notified (subscriptionId 1) =
        [(headNotification 2 (blockHash 2) 1).toValue] := by
  -- The second head is sent after the request, and received under its id.
  have sent := Hub.Run.step .new (.send (.newHead 1 (blockHash 1) 0))
  have connected := sent.step .connect
  have requested := connected.step (@Hub.Step.request _ 0 _ headsRequest rfl rfl)
  have mined := requested.step (.send (.newHead 2 (blockHash 2) 1))
  have received := mined.step (@Hub.Step.receive _ 0 _ _ _ _ rfl rfl
    (recv_eq_value rfl (by decide)) (List.Perm.refl _))
  exact ⟨_, _, _, received, rfl, rfl, rfl, rfl⟩

theorem subscribers_are_told_heads :
    ∃ (past : List Happening) (hub : Hub) (session : Session),
      session.notified (subscriptionId 1) = [(headNotification 2 (blockHash 2) 1).toValue] ∧
      Broadcast.Reading (joinedAt 0 past) hub.events session.next (heard 0 past) ∧
      (watch 0 (subscriptionId 1) past).told =
        [(headNotification 2 (blockHash 2) 1).toValue] := by
  obtain ⟨past, hub, session, run, here, isOpen, _, told⟩ := exists_subscribed
  obtain ⟨follows, reading, _⟩ := subscribers_are_told past hub run 0 session here isOpen
  exact ⟨past, hub, session, told, reading, (follows (subscriptionId 1)).2 ▸ told⟩

end Tracking

section Ids

/-- The subscription that a happening opens: its session and its id, even if nobody is told. -/
def Hub.Happening.opened : Happening → Option (Nat × String)
  | requested index (.subscribed id _) | abandoned index (.subscribed id _) => some (index, id)
  | _ => none

def Hub.openings (past : List Happening) : List (Nat × String) := past.filterMap Happening.opened

variable {past : List Happening} {hub : Hub} {index : Nat} {subscription : String}

/-- A request counts on exactly if it opens a subscription, which gets the count as its id. -/
theorem opened_handled (index counter : Nat) (subs : ActiveSubscriptions) (request : Value) :
    (((Happening.requested index (handleRequest counter subs request).effect).opened =
        some (index, subscriptionId counter) ∧
      (handleRequest counter subs request).counter = fetchAdd counter) ∨
    ((Happening.requested index (handleRequest counter subs request).effect).opened = none ∧
      (handleRequest counter subs request).counter = counter)) := by
  unfold handleRequest
  -- Other requests leave the counter as it is.
  cases WsRequest.read request with
  | subscribe kind => exact .inl ⟨rfl, rfl⟩
  | unsubscribe id => exact .inr ⟨rfl, rfl⟩
  | refused error => exact .inr ⟨rfl, rfl⟩

/-- A subscription whose session has gone was opened all the same. -/
theorem opened_abandoned (index : Nat) (effect : SubscriptionEffect) :
    (Happening.abandoned index effect).opened = (Happening.requested index effect).opened := by
  cases effect <;> rfl

/-- The count after so many subscriptions. -/
def countAfter (subscriptions : Nat) : Nat := (subscriptions + 1) % 2 ^ 64

/-- The counter counts the subscriptions. -/
theorem fetchAdd_countAfter (subscriptions : Nat) :
    fetchAdd (countAfter subscriptions) = countAfter (subscriptions + 1) := by
  unfold fetchAdd countAfter
  omega

/-- The ids are those of the counts, in the order in which they were taken. -/
structure Numbered (past : List Happening) (hub : Hub) : Prop where
  counter : hub.counter = countAfter (openings past).length
  ids : (openings past).map Prod.snd =
    (List.range (openings past).length).map fun count => subscriptionId (countAfter count)

/-- One more id, or none, keeps them numbered. -/
theorem Numbered.next (numbered : Numbered past hub) (index : Nat) {happening : Happening} {hub' : Hub}
    (either : (happening.opened = some (index, subscriptionId hub.counter) ∧
        hub'.counter = fetchAdd hub.counter) ∨
      (happening.opened = none ∧ hub'.counter = hub.counter)) :
    Numbered (past ++ [happening]) hub' := by
  -- What happens opens one subscription at most.
  have split : openings (past ++ [happening]) = openings past ++ happening.opened.toList := by
    rw [openings, List.filterMap_append, List.filterMap_cons, List.filterMap_nil]
    cases happening.opened <;> rfl
  rcases either with ⟨opens, counts⟩ | ⟨opens, counts⟩
  · rw [opens] at split
    constructor
    · rw [split, counts, numbered.counter, fetchAdd_countAfter, List.length_append]
      rfl
    · rw [split, List.map_append, numbered.ids, List.length_append, numbered.counter]
      simp [List.range_succ]
  · rw [opens] at split
    simp only [Option.toList_none, List.append_nil] at split
    exact ⟨by rw [split, counts, numbered.counter], by rw [split]; exact numbered.ids⟩

/-- The counter counts the subscriptions of every run. -/
theorem numbered_of_run (run : Hub.Run past hub) : Numbered past hub := by
  induction run with
  | new => exact ⟨rfl, rfl⟩
  | @step past hub happening hub' _ step ih =>
    -- Requests count, whether they can be answered or not.
    cases step with
    | @request index session request here isOpen =>
      exact ih.next index (opened_handled index hub.counter session.subs request)
    | @abandon index session request here isOpen =>
      refine ih.next index ?_
      rw [opened_abandoned]
      exact opened_handled index hub.counter session.subs request
    | _ => exact ih.next 0 (.inr ⟨rfl, rfl⟩)

/-- As long as the counter has not come round, all ids are different. -/
theorem nodup_ids (numbered : Numbered past hub) (few : (openings past).length ≤ 2 ^ 64) :
    ((openings past).map Prod.snd).Nodup := by
  rw [numbered.ids]
  refine List.Nodup.map_on (fun first first_mem second second_mem same => ?_) List.nodup_range
  rw [List.mem_range] at first_mem second_mem
  have counts : countAfter first = countAfter second := Hex.number_injective same
  unfold countAfter at counts
  omega

/-- A subscription becomes active only when it is opened. -/
theorem opened_of_observe (watch : Watch) {happening : Happening}
    (active : (watch.observe index subscription happening).kind.isSome = true) :
    happening.opened = some (index, subscription) ∨ watch.kind.isSome = true := by
  -- Among all that can happen, only an opening makes a watch active.
  cases happening with
  | requested at_ effect =>
    cases effect with
    | subscribed id kind =>
      simp only [Watch.observe] at active
      split at active
      · rename_i same
        obtain ⟨rfl, rfl⟩ := same
        exact .inl rfl
      · exact .inr active
    | unsubscribed id =>
      simp only [Watch.observe] at active
      split at active
      · cases active
      · exact .inr active
    | refused => exact .inr active
  | received at_ event =>
    simp only [Watch.observe] at active
    split at active <;> exact .inr active
  | _ => exact .inr active

/-- Whatever is active was opened. -/
theorem opened_of_watch (past : List Happening)
    (active : (watch index subscription past).kind.isSome = true) :
    (index, subscription) ∈ openings past := by
  -- A subscription that is not opened by the last happening was active before it.
  induction past using List.reverseRecOn with
  | nil => cases active
  | append_singleton past happening ih =>
    have longer : ∀ pair ∈ openings past, pair ∈ openings (past ++ [happening]) := by
      intro pair member
      rw [openings, List.filterMap_append]
      exact List.mem_append_left _ member
    rw [watch_append] at active
    rcases opened_of_observe _ active with opens | before
    · rw [openings, List.filterMap_append]
      refine List.mem_append_right _ ?_
      simp [opens]
    · exact longer _ (ih before)

/--
No two subscriptions share an id.

As long as the counter has not come round, every request for a subscription gets an id that no other
one ever had, in whatever session, so that no id is active in two sessions.
-/
theorem subscription_ids_are_unique (past : List Happening) (hub : Hub) (run : Hub.Run past hub)
    (few : (openings past).length ≤ 2 ^ 64) :
    ((openings past).map Prod.snd).Nodup ∧
    ∀ (index : Nat) (session : Session) (index' : Nat) (session' : Session)
      (subscription : String), hub.sessions[index]? = some session → session.isOpen = true →
      hub.sessions[index']? = some session' → session'.isOpen = true →
      (session.subs.lookup subscription).isSome = true →
      (session'.subs.lookup subscription).isSome = true → index = index' := by
  have nodup := nodup_ids (numbered_of_run run) few
  refine ⟨nodup, ?_⟩
  intro index session index' session' subscription here isOpen here' isOpen' active active'
  have coherent := coherent_of_run run
  -- Both sessions opened a subscription with this id, so it was the same one.
  rw [(coherent.tracks index session here isOpen).subs] at active
  rw [(coherent.tracks index' session' here' isOpen').subs] at active'
  have opens := opened_of_watch past active
  have opens' := opened_of_watch past active'
  exact congrArg Prod.fst (List.inj_on_of_nodup_map nodup opens opens' rfl)

/-- Two clients that ask for the same get different ids. -/
theorem exists_opened :
    ∃ past hub, Hub.Run past hub ∧
      openings past = [(0, subscriptionId 1), (1, subscriptionId 2)] := by
  have joined := (Hub.Run.new.step .connect).step .connect
  have first := joined.step (@Hub.Step.request _ 0 _ headsRequest rfl rfl)
  have second := first.step (@Hub.Step.request _ 1 _ headsRequest rfl rfl)
  exact ⟨_, _, second, rfl⟩

theorem subscription_ids_are_unique_twice :
    ∃ past, openings past = [(0, subscriptionId 1), (1, subscriptionId 2)] ∧
      ((openings past).map Prod.snd).Nodup := by
  obtain ⟨past, hub, run, ids⟩ := exists_opened
  have few : (openings past).length ≤ 2 ^ 64 := by simp [ids]
  exact ⟨past, ids, (subscription_ids_are_unique past hub run few).1⟩

end Ids

end MiniEvm
