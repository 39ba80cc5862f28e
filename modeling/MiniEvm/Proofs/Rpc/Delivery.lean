import MiniEvm.Proofs.Rpc.Exchanges
import MiniEvm.Proofs.Rpc.History
import MiniEvm.Proofs.Rpc.Subscriptions
import MiniEvm.Rpc.Service

/-! Subscribers follow the chain: what reaches a client is a part of the history of the node. -/

namespace MiniEvm

open Broadcast Frames Hub RpcState

section Subscribing

variable {index : Nat} {subscription : String} {kind : SubscriptionKind} {past : List Happening}

/-- The events that a session received. -/
def Hub.messages (index : Nat) (past : List Happening) : List EvmEvent :=
  (heard index past).filterMap Received.message

/-- Messages come in the order of what happens. -/
theorem messages_append (before after : List Happening) :
    messages index (before ++ after) = messages index before ++ messages index after := by
  simp only [messages, heard, List.filterMap_append]

/-- Subscriptions come in the order of what happens. -/
theorem openings_append (before after : List Happening) :
    openings (before ++ after) = openings before ++ openings after := List.filterMap_append

/-- Nothing is told under an id that was never opened. -/
theorem watch_of_unopened (past : List Happening) (unopened : (index, subscription) ∉ openings past) :
    watch index subscription past = {} := by
  induction past using List.reverseRecOn with
  | nil => rfl
  | append_singleton past happening ih =>
    rw [openings_append, List.mem_append, not_or] at unopened
    rw [watch_append, ih unopened.1]
    -- Only opening the subscription would make a difference.
    cases happening with
    | requested at_ effect =>
      cases effect with
      | subscribed id kind =>
        have other : ¬ (at_ = index ∧ id = subscription) := by
          rintro ⟨rfl, rfl⟩
          exact unopened.2 (by simp [openings, Happening.opened])
        simp [Watch.observe, other]
      | unsubscribed id => simp [Watch.observe]
      | refused => rfl
    | received at_ event => simp [Watch.observe]
    | _ => rfl

/-- A subscription that was opened once tells what its session has received since then. -/
theorem told_since (past : List Happening) (nodup : (openings past).Nodup)
    (active : (watch index subscription past).kind = some kind) :
    ∃ before after, past = before ++ .requested index (.subscribed subscription kind) :: after ∧
      (watch index subscription past).told = (messages index after).filterMap kind.result := by
  induction past using List.reverseRecOn with
  | nil => cases active
  | append_singleton past happening ih =>
    rw [openings_append, List.nodup_append] at nodup
    obtain ⟨nodup, -, apart⟩ := nodup
    rw [watch_append] at active ⊢
    -- Whatever else happens, the subscription was active before and goes on.
    have onwards : ∀ {told : List Value}, (watch index subscription past).kind = some kind →
        told = (watch index subscription past).told ++
          (messages index [happening]).filterMap kind.result →
        ∃ before after,
          past ++ [happening] =
            before ++ .requested index (.subscribed subscription kind) :: after ∧
          told = (messages index after).filterMap kind.result := by
      intro told active more
      obtain ⟨before, after, rfl, same⟩ := ih nodup active
      refine ⟨before, after ++ [happening], by simp, ?_⟩
      rw [more, same, messages_append, List.filterMap_append]
    cases happening with
    | requested at_ effect =>
      cases effect with
      | subscribed id opens =>
        simp only [Watch.observe] at active ⊢
        split at active
        · rename_i same
          obtain ⟨rfl, rfl⟩ := same
          rw [if_pos ⟨rfl, rfl⟩]
          obtain rfl : opens = kind := Option.some.inj active
          -- It has just been opened, for the first time.
          refine ⟨past, [], rfl, ?_⟩
          rw [watch_of_unopened past]
          · rfl
          · intro member
            exact apart _ member _ (by simp [openings, Happening.opened]) rfl
        · rename_i other
          rw [if_neg other]
          exact onwards active (by simp [messages, heard, Happening.heard])
      | unsubscribed id =>
        simp only [Watch.observe] at active ⊢
        split at active
        · cases active
        · rename_i other
          rw [if_neg other]
          exact onwards active (by simp [messages, heard, Happening.heard])
      | refused => exact onwards active (by simp [Watch.observe, messages, heard, Happening.heard])
    | received at_ event =>
      simp only [Watch.observe] at active ⊢
      split at active
      · rename_i here
        subst here
        rw [if_pos rfl]
        refine onwards active ?_
        have active : (watch at_ subscription past).kind = some kind := active
        rw [active]
        cases result : kind.result event <;>
          simp [messages, heard, Happening.heard, Received.message, result]
      · rename_i other
        rw [if_neg other]
        exact onwards active (by simp [messages, heard, Happening.heard, other])
    | lagged at_ skipped =>
      refine onwards active ?_
      by_cases here : at_ = index
      · simp [Watch.observe, messages, heard, Happening.heard, Received.message, here]
      · simp [Watch.observe, messages, heard, Happening.heard, here]
    | _ => exact onwards active (by simp [Watch.observe, messages, heard, Happening.heard])

end Subscribing

section Following

/-- What a subscriber is told about the head of some number. -/
def headTold (number : Nat) : Value :=
  (headNotification number (blockHash number) (number - 1)).toValue

/--
What a client reads in the notification of a head.

Under the name of the parent's hash it finds no hash, but the number of the block before.
-/
structure HeadRead (value : Value) (block : Nat) : Prop where
  number : ∃ text, value.get "number" = some (.string text) ∧ Writes text block
  hash : ∃ text, value.get "hash" = some (.string text) ∧ parseU256 text = .ok (blockHash block)
  parentHash : ∃ text, value.get "parentHash" = some (.string text) ∧
    parseU256 text = .ok (BitVec.ofNat 256 (block - 1))

/-- A notification of a head is read as the block it tells of. -/
theorem headRead_headTold (number : Nat) : HeadRead (headTold number) number where
  number := ⟨_, rfl, writes_number number⟩
  hash := ⟨_, rfl, parseU256_hexWord _⟩
  parentHash := ⟨_, rfl, parseU256_hexWord _⟩

/-- The number of the block that an event announces. -/
def EvmEvent.head : EvmEvent → Option Nat
  | newHead number _ _ => some number
  | _ => none

variable {receipts : HashMap Word TxExecutionReceipt} {events : List EvmEvent}

/-- A head that says what it should is told by its number alone. -/
theorem result_of_formed {event : EvmEvent} (formed : event.Formed receipts) :
    SubscriptionKind.newHeads.result event = event.head.map headTold := by
  cases event with
  | newHead number hash parentNumber =>
    -- The hash follows from the number, and so does that of the block before.
    obtain ⟨rfl, parent⟩ := formed
    obtain rfl : parentNumber = number - 1 := by omega
    rfl
  | log record hash number transactionHash index => rfl
  | pendingTx hash => rfl

/-- The heads of a history have growing numbers, until they stick at the largest one. -/
theorem pairwise_heads (ordered : events.Pairwise EvmEvent.Precedes) :
    (events.filterMap EvmEvent.head).Pairwise fun number number' =>
      number < number' ∨ number = u64Max := by
  refine ordered.filterMap _ fun first second precedes number found number' found' => ?_
  -- Only two heads are compared.
  cases first with
  | newHead _ _ _ =>
    cases second with
    | newHead _ _ _ =>
      cases found
      cases found'
      exact (precedes _ _ _ _ rfl rfl).2 rfl
    | log _ _ _ _ _ => cases found'
    | pendingTx _ => cases found'
  | log _ _ _ _ _ => cases found
  | pendingTx _ => cases found

section Runs

variable {host : Host} {iteration : NodeOrder} {state : StateFork} {server : Server}
  {past : List Happening} {hub : Hub}

/-- The server of a service makes its own run. -/
theorem server_of_service (run : Service.Run host iteration state server past hub) :
    Relation.ReflTransGen (Server.Moves host iteration fun _ _ _ => True)
      ⟨RpcState.new state, []⟩ server := by
  -- Connections leave the server alone.
  induction run with
  | new => exact .refl
  | serve _ moves ih => exact ih.tail moves
  | connections _ _ _ ih => exact ih

/-- The hub of a service makes its own run. -/
theorem hub_of_service (run : Service.Run host iteration state server past hub) :
    Hub.Run past hub := by
  induction run with
  | new => exact .new
  | serve _ _ ih => exact ih
  | connections _ step _ ih => exact ih.step step

/-- Events are added to a node, and never taken back. -/
theorem events_of_advance {fuel : Nat} {stateFree : Bool} {node node' : RpcState} {phase : Phase}
    {progress : Progress}
    (advanced : advance host iteration fuel stateFree node phase = some (node', progress)) :
    node.events <+: node'.events := by
  cases phase with
  | checking tx raw =>
    simp only [advance] at advanced
    repeat' split at advanced
    all_goals cases advanced
    all_goals exact List.prefix_refl _
  | inserting tx raw =>
    simp only [advance] at advanced
    split at advanced <;> cases advanced <;> exact List.prefix_refl _
  | announcing tx =>
    cases advanced
    exact List.prefix_append _ _
  | listing reply =>
    cases advanced
    exact List.prefix_refl _
  | locking reply senders =>
    simp only [advance] at advanced
    split at advanced <;> cases advanced
    exact List.prefix_refl _
  | selecting reply senders =>
    cases advanced
    exact List.prefix_refl _
  | executing reply batch =>
    cases batch with
    | nil =>
      cases advanced
      exact List.prefix_refl _
    | cons transaction rest =>
      simp only [advance] at advanced
      split at advanced <;> cases advanced
      · exact List.prefix_append _ _
      -- A block that is given up tells nothing more.
      · exact List.prefix_refl _
      · exact List.prefix_refl _
  | publishing reply =>
    cases advanced
    exact List.prefix_append _ _

/-- What the channel has carried is what the node has told so far, up to what is on its way. -/
theorem channel_of_service (run : Service.Run host iteration state server past hub) :
    hub.events <+: server.node.events := by
  induction run with
  | new => exact List.prefix_refl _
  | serve _ moves ih =>
    -- Only a move of a request may tell something.
    cases moves with
    | request before phase after fuel _ advanced => exact ih.trans (events_of_advance advanced)
    | _ => exact ih
  | connections _ _ carried _ => exact carried

/--
Subscribers follow the chain.

However requests and connections are interleaved, what a client has been told under an active
subscription is what its session received since the request for it, which is a part of the node's
history: in order, with every head and log true of its block, and without a gap unless the channel
reported one.
A subscriber to heads sees block numbers grow until they stick at the largest one, each with its own
hash, and with the number of the block before in place of the hash of its parent.
-/
theorem subscribers_follow_the_chain (host : Host) (iteration : NodeOrder) (state : StateFork)
    (server : Server) (past : List Happening) (hub : Hub)
    (run : Service.Run host iteration state server past hub)
    (few : (openings past).length ≤ 2 ^ 64) (index : Nat) (session : Session)
    (here : hub.sessions[index]? = some session) (isOpen : session.isOpen = true)
    (subscription : String) (kind : SubscriptionKind)
    (active : session.subs.lookup subscription = some kind) :
    (∃ before after, past = before ++ .requested index (.subscribed subscription kind) :: after ∧
      session.notified subscription = (messages index after).filterMap kind.result ∧
      (messages index after).Sublist server.node.events ∧
      (messages index after).Pairwise EvmEvent.Precedes ∧
      (∀ event ∈ messages index after, event.Formed server.node.receipts) ∧
      (missed (heard index past) = 0 →
        ∃ since, messages index after = (hub.events.take session.next).drop since)) ∧
    (kind = .newHeads → ∃ numbers : List Nat,
      (numbers.Pairwise fun number number' => number < number' ∨ number = u64Max) ∧
      List.Forall₂ HeadRead (session.notified subscription) numbers) := by
  have chronicle := (told_of_run (server_of_service run)).chronicle
  have served := hub_of_service run
  have tracks := (coherent_of_run served).tracks index session here isOpen
  -- The subscription was opened once, and tells what its session has received since then.
  rw [tracks.subs] at active
  obtain ⟨before, after, split, told⟩ :=
    told_since past (nodup_ids (numbered_of_run served) few).of_map active
  rw [← tracks.told] at told
  have received : messages index past = messages index before ++ messages index after := by
    rw [split, messages_append]
    rfl
  have part : (messages index after).Sublist server.node.events := by
    have suffix : (messages index after).Sublist (messages index past) := by
      rw [received]
      exact List.sublist_append_right _ _
    have taken := suffix.trans tracks.reading.sublist
    exact taken.trans (((List.drop_sublist _ _).trans (List.take_sublist _ _)).trans
      (channel_of_service run).sublist)
  have formed : ∀ event ∈ messages index after, event.Formed server.node.receipts :=
    fun event member => chronicle.formed event (part.subset member)
  have ordered := chronicle.ordered.sublist part
  refine ⟨⟨before, after, split, told, part, ordered, formed, fun gapless => ?_⟩, ?_⟩
  · -- Without a gap the session has received everything since it joined.
    have complete : messages index past = (hub.events.take session.next).drop _ :=
      tracks.reading.complete gapless
    rw [received] at complete
    have later := congrArg (List.drop (messages index before).length) complete
    rw [List.drop_left, List.drop_drop] at later
    exact ⟨_, later⟩
  · rintro rfl
    refine ⟨_, pairwise_heads ordered, ?_⟩
    have heads : session.notified subscription =
        ((messages index after).filterMap EvmEvent.head).map headTold := by
      rw [told, List.map_filterMap]
      exact List.filterMap_congr fun event member => result_of_formed (formed event member)
    rw [heads, List.forall₂_map_left_iff, List.forall₂_same]
    exact fun number _ => headRead_headTold number

/-- A client that asks for heads at once and keeps up with the channel. -/
theorem exists_reader (run : Service.Run host iteration state server [] Hub.new)
    {events : List EvmEvent} (told : events <+: server.node.events) :
    ∃ (past : List Happening) (hub : Hub) (session : Session),
      Service.Run host iteration state server past hub ∧ hub.events = events ∧
      openings past = [(0, subscriptionId 1)] ∧ hub.sessions[0]? = some session ∧
      session.isOpen = true ∧ session.next = events.length ∧
      session.subs = (∅ : ActiveSubscriptions).insert (subscriptionId 1) .newHeads := by
  induction events using List.reverseRecOn with
  | nil =>
    have connected := run.connections .connect (List.nil_prefix)
    have requested := connected.connections (@Hub.Step.request _ 0 _ headsRequest rfl rfl)
      (List.nil_prefix)
    exact ⟨_, _, _, requested, rfl, rfl, rfl, rfl, rfl, rfl⟩
  | append_singleton events event ih =>
    obtain ⟨past, hub, session, run, rfl, opens, here, isOpen, next, subs⟩ :=
      ih ((List.prefix_append _ _).trans told)
    -- The next event is sent, and received before anything else happens.
    have sent := run.connections (.send event) told
    have handed : recv channelCapacity (hub.events ++ [event]) session.next =
        some (.value event, session.next + 1) := by
      rw [next]
      refine recv_eq_value (List.getElem?_concat_length) ?_
      rw [List.length_append, List.length_singleton, channelCapacity]
      omega
    have received := sent.connections
      (.receive session.subs.entries here isOpen handed (List.Perm.refl _)) told
    refine ⟨_, _, { session with
        next := session.next + 1
        sent := session.sent ++ notifications event session.subs.entries },
      received, rfl, ?_, ?_, isOpen, ?_, subs⟩
    · rw [openings_append, openings_append, opens]
      rfl
    · exact List.getElem?_set_self (List.getElem?_eq_some_iff.mp here).1
    · rw [List.length_append, List.length_singleton, ← next]

/-- A node that has mined one block. -/
theorem exists_mined : ∃ server, server.node.events.filterMap EvmEvent.head = [1] ∧
    Service.Run (tableHost []) .listed {} server [] Hub.new := by
  have played : (Server.play (tableHost []) .listed 1 (fun _ _ _ => true)
      [.mine, .request 0, .request 0, .request 0, .request 0, .request 0]
      ⟨RpcState.new {}, []⟩).any
        (fun server => server.node.events.filterMap EvmEvent.head = [1]) = true := by
    decide +kernel
  obtain ⟨server, played, heads⟩ := (Option.any_eq_true _ _).mp played
  have moves : Relation.ReflTransGen (Server.Moves (tableHost []) .listed fun _ _ _ => True)
      ⟨RpcState.new {}, []⟩ server := runs_of_play (fun _ _ _ _ => trivial) played
  refine ⟨server, of_decide_eq_true heads, ?_⟩
  -- Nobody is connected while the block is mined.
  clear played heads
  induction moves with
  | refl => exact .new
  | tail _ move ih => exact ih.serve move

theorem subscribers_follow_the_chain_heads :
    ∃ (server : Server) (session : Session) (numbers : List Nat),
      server.node.events.filterMap EvmEvent.head = [1] ∧
      (numbers.Pairwise fun number number' => number < number' ∨ number = u64Max) ∧
      List.Forall₂ HeadRead (session.notified (subscriptionId 1)) numbers := by
  obtain ⟨server, heads, served⟩ := exists_mined
  obtain ⟨past, hub, session, run, _, opens, here, isOpen, _, subs⟩ :=
    exists_reader served (List.prefix_refl _)
  -- One subscription was opened, which is active.
  have few : (openings past).length ≤ 2 ^ 64 := by simp [opens]
  have active : session.subs.lookup (subscriptionId 1) = some .newHeads := by
    rw [subs, AList.lookup_insert]
  obtain ⟨_, numbers⟩ := subscribers_follow_the_chain (tableHost []) .listed {} server past hub run
    few 0 session here isOpen (subscriptionId 1) .newHeads active
  obtain ⟨numbers, ordered, told⟩ := numbers rfl
  exact ⟨server, session, numbers, heads, ordered, told⟩

end Runs

end Following

end MiniEvm
