import MiniEvm.Proofs.Rpc.Ledger

/-! The events of a node tell the history of its chain, however requests are interleaved. -/

namespace MiniEvm

open Frames RpcState

/-- The number of the block that an event belongs to, and whether it is the end of that block. -/
def EvmEvent.place : EvmEvent → Option (Nat × Bool)
  | newHead number _ _ => some (number, true)
  | log _ _ number _ _ => some (number, false)
  | pendingTx _ => none

/--
One event may come before another.

Nothing of a block comes after its head, and the numbers grow until they stick at the largest one.
-/
def EvmEvent.Precedes (first second : EvmEvent) : Prop :=
  ∀ number ended number' ended', first.place = some (number, ended) →
    second.place = some (number', ended') →
    number ≤ number' ∧ (ended = true → number < number' ∨ number = u64Max)

/-- An event says what it should about its block and its transaction. -/
def EvmEvent.Formed (receipts : HashMap Word TxExecutionReceipt) : EvmEvent → Prop
  | newHead number hash parentNumber => hash = blockHash number ∧ parentNumber + 1 = number
  | log _ blockHash_ number transactionHash _ =>
    blockHash_ = blockHash number ∧ (receipts.lookup transactionHash).isSome
  | pendingTx _ => True

/-- The history of a chain as it has been told so far. -/
structure Chronicle (node : RpcState) : Prop where
  small : node.blockNumber ≤ u64Max
  ordered : node.events.Pairwise EvmEvent.Precedes
  bounded : ∀ event ∈ node.events, ∀ number ended, event.place = some (number, ended) →
    number ≤ node.blockNumber
  formed : ∀ event ∈ node.events, event.Formed node.receipts
  told : ∀ hash receipt, node.receipts.lookup hash = some receipt → ∃ number tx,
    number ≤ node.blockNumber ∧ tx.hash = hash ∧ logEvents number tx receipt <:+: node.events

/-- A block is under way, so its head has not been announced. -/
def Unheaded (node : RpcState) : Prop :=
  1 ≤ node.blockNumber ∧ ∀ event ∈ node.events, ∀ number, event.place = some (number, true) →
    number < node.blockNumber ∨ node.blockNumber = u64Max

section Telling

variable {node node' : RpcState}

/-- An event keeps saying what it should when receipts come in. -/
theorem EvmEvent.Formed.mono {receipts receipts' : HashMap Word TxExecutionReceipt}
    {event : EvmEvent} (formed : event.Formed receipts)
    (grown : ∀ hash, (receipts.lookup hash).isSome → (receipts'.lookup hash).isSome) :
    event.Formed receipts' := by
  -- Only a log refers to the receipts.
  cases event with
  | newHead number hash parentNumber => exact formed
  | log record hash number transactionHash index => exact ⟨formed.1, grown _ formed.2⟩
  | pendingTx hash => trivial

/-- What is told about the block under way comes after all that was told before. -/
theorem precedes_of_unheaded (chronicle : Chronicle node) {first second : EvmEvent}
    (member : first ∈ node.events) (unheaded : second.place ≠ none → Unheaded node)
    (here : ∀ number ended, second.place = some (number, ended) → number = node.blockNumber) :
    first.Precedes second := by
  intro number ended number' ended' told tells
  -- Nothing was told about a later block, and this one has no head yet.
  have bounded := chronicle.bounded first member number ended told
  obtain rfl := here number' ended' tells
  refine ⟨bounded, fun head => ?_⟩
  subst head
  have before := (unheaded (by simp [tells])).2 first member number told
  omega

/-- Telling more about the block under way keeps the history in order. -/
theorem Chronicle.extend {events : List EvmEvent} (chronicle : Chronicle node)
    (number : node'.blockNumber = node.blockNumber) (told : node'.events = node.events ++ events)
    (unheaded : ∀ event ∈ events, event.place ≠ none → Unheaded node)
    (here : ∀ event ∈ events, ∀ number ended, event.place = some (number, ended) →
      number = node.blockNumber)
    (own : events.Pairwise EvmEvent.Precedes)
    (formed : ∀ event ∈ events, event.Formed node'.receipts)
    (grown : ∀ hash, (node.receipts.lookup hash).isSome → (node'.receipts.lookup hash).isSome)
    (receipts : ∀ hash receipt, node'.receipts.lookup hash = some receipt →
      node.receipts.lookup hash = some receipt ∨
        ∃ tx, tx.hash = hash ∧ events = logEvents node.blockNumber tx receipt) :
    Chronicle node' where
  small := number ▸ chronicle.small
  -- Old events are in order, new ones too, and the new ones come behind the old.
  ordered := by
    rw [told, List.pairwise_append]
    refine ⟨chronicle.ordered, own, fun first old second new => ?_⟩
    exact precedes_of_unheaded chronicle old (unheaded second new) (here second new)
  bounded := by
    rw [told, number]
    intro event member
    rcases List.mem_append.mp member with old | new
    · exact chronicle.bounded event old
    · exact fun number ended place => Nat.le_of_eq (here event new number ended place)
  formed := by
    rw [told]
    intro event member
    rcases List.mem_append.mp member with old | new
    · exact (chronicle.formed event old).mono grown
    · exact formed event new
  told := by
    rw [told, number]
    intro hash receipt found
    -- A receipt is an old one, or that of the transaction that is told now.
    rcases receipts hash receipt found with old | ⟨tx, rfl, rfl⟩
    · obtain ⟨number, tx, le, same, within⟩ := chronicle.told hash receipt old
      exact ⟨number, tx, le, same, within.trans (List.prefix_append _ _).isInfix⟩
    · exact ⟨node.blockNumber, tx, Nat.le_refl _, rfl, (List.suffix_append _ _).isInfix⟩

/-- Nothing of the chain changes. -/
theorem Chronicle.of_same (chronicle : Chronicle node)
    (number : node'.blockNumber = node.blockNumber) (events : node'.events = node.events)
    (receipts : node'.receipts = node.receipts) : Chronicle node' :=
  ⟨number ▸ chronicle.small, events ▸ chronicle.ordered,
    by rw [number, events]; exact chronicle.bounded,
    by rw [events, receipts]; exact chronicle.formed,
    by rw [events, receipts, number]; exact chronicle.told⟩

theorem place_of_mem_logEvents {number : Nat} {tx : SignedTransaction}
    {receipt : TxExecutionReceipt} {event : EvmEvent}
    (member : event ∈ logEvents number tx receipt) :
    ∃ record index, event = .log record (blockHash number) number tx.hash index := by
  obtain ⟨index, within, rfl⟩ := List.mem_mapIdx.mp member
  exact ⟨_, index, rfl⟩

/-- The logs of one transaction all belong to one block that goes on. -/
theorem pairwise_logEvents (number : Nat) (tx : SignedTransaction) (receipt : TxExecutionReceipt) :
    (logEvents number tx receipt).Pairwise EvmEvent.Precedes := by
  -- Any two of the logs are at the same place, which is not the end of a block.
  rw [List.pairwise_iff_forall_sublist]
  intro first second sublist
  have members := sublist.subset
  obtain ⟨record, index, rfl⟩ := place_of_mem_logEvents (members List.mem_cons_self)
  obtain ⟨record', index', rfl⟩ :=
    place_of_mem_logEvents (members (List.mem_cons_of_mem _ List.mem_cons_self))
  intro number ended number' ended' told tells
  cases told
  cases tells
  exact ⟨Nat.le_refl _, fun head => nomatch head⟩

/-- An executed transaction is told by its logs, and leaves a receipt. -/
theorem Chronicle.record (chronicle : Chronicle node) (unheaded : Unheaded node)
    (tx : SignedTransaction) (receipt : TxExecutionReceipt) (state : StateFork) :
    Chronicle (node.record tx receipt state) := by
  refine chronicle.extend rfl rfl (fun _ _ _ => unheaded) ?_
    (pairwise_logEvents node.blockNumber tx receipt) ?_ ?_ ?_
  · -- All logs are those of the block under way.
    intro event member number ended place
    obtain ⟨record, index, rfl⟩ := place_of_mem_logEvents member
    cases place
    rfl
  · intro event member
    obtain ⟨record, index, rfl⟩ := place_of_mem_logEvents member
    refine ⟨rfl, ?_⟩
    show ((node.receipts.insert tx.hash receipt).lookup tx.hash).isSome
    rw [AList.lookup_insert]
    rfl
  · -- No receipt is lost, though one may be replaced.
    intro hash known
    show ((node.receipts.insert tx.hash receipt).lookup hash).isSome
    by_cases same : hash = tx.hash
    · rw [same, AList.lookup_insert]
      rfl
    · rwa [AList.lookup_insert_ne same]
  · intro hash found lookup
    have lookup : (node.receipts.insert tx.hash receipt).lookup hash = some found := lookup
    by_cases same : hash = tx.hash
    · subst same
      rw [AList.lookup_insert] at lookup
      obtain rfl := Option.some.inj lookup
      exact .inr ⟨tx, rfl, rfl⟩
    · rw [AList.lookup_insert_ne same] at lookup
      exact .inl lookup

/-- The head of a block is told once, at its end. -/
theorem Chronicle.publish (chronicle : Chronicle node) (unheaded : Unheaded node) (host : Host)
    (iteration : StateOrder) : Chronicle (mineBlock.publish host iteration node) := by
  refine chronicle.extend rfl rfl (fun _ _ _ => unheaded) ?_ (List.pairwise_singleton _ _) ?_
    (fun _ known => known) (fun _ _ found => .inl found)
  · -- The head has the number of the block under way, which is at least one.
    intro event member number ended place
    obtain rfl := List.mem_singleton.mp member
    cases place
    rfl
  · intro event member
    obtain rfl := List.mem_singleton.mp member
    exact ⟨rfl, Nat.sub_add_cancel unheaded.1⟩

/-- A transaction that waits belongs to no block. -/
theorem Chronicle.announce (chronicle : Chronicle node) (hash : Word) :
    Chronicle { node with events := node.events ++ [.pendingTx hash] } := by
  refine chronicle.extend rfl rfl ?_ ?_ (List.pairwise_singleton _ _) ?_ (fun _ known => known)
    (fun _ _ found => .inl found)
  · -- An announcement has no place in any block.
    intro event member place
    obtain rfl := List.mem_singleton.mp member
    exact absurd rfl place
  · intro event member number ended place
    obtain rfl := List.mem_singleton.mp member
    cases place
  · intro event member
    obtain rfl := List.mem_singleton.mp member
    trivial

/-- The next block begins with its number, before anything is told about it. -/
theorem Chronicle.select (chronicle : Chronicle node) (iteration : PoolOrder)
    (senders : List Address) :
    Chronicle (mineBlock.select iteration senders node).2 ∧
      Unheaded (mineBlock.select iteration senders node).2 := by
  have small := chronicle.small
  have next : (mineBlock.select iteration senders node).2.blockNumber =
      min (node.blockNumber + 1) u64Max := rfl
  -- The number grows by one until it sticks.
  have grown : node.blockNumber ≤ (mineBlock.select iteration senders node).2.blockNumber := by
    omega
  constructor
  · refine ⟨by omega, chronicle.ordered, ?_, chronicle.formed, ?_⟩
    · exact fun event member number ended place =>
        Nat.le_trans (chronicle.bounded event member number ended place) grown
    · intro hash receipt found
      obtain ⟨number, tx, le, same, within⟩ := chronicle.told hash receipt found
      exact ⟨number, tx, Nat.le_trans le grown, same, within⟩
  · constructor
    · have : 1 ≤ u64Max := by decide
      omega
    · intro event member number place
      have bounded := chronicle.bounded event member number true place
      omega

end Telling

section Runs

variable {host : Host} {iteration : NodeOrder} {fuel : Nat} {stateFree : Bool}
  {node node' : RpcState} {phase : Phase} {progress : Progress}

/-- What a request leaves to the others: its own announcements, unless it holds the state. -/
def OnlyAnnounces (node node' : RpcState) : Prop :=
  node'.blockNumber = node.blockNumber ∧
    ∃ told, node'.events = node.events ++ told ∧ ∀ event ∈ told, event.place = none

/-- Announcements do not end a block. -/
theorem Unheaded.announced (unheaded : Unheaded node) (announces : OnlyAnnounces node node') :
    Unheaded node' := by
  obtain ⟨number, told, events, elsewhere⟩ := announces
  unfold Unheaded
  rw [number, events]
  refine ⟨unheaded.1, fun event member number' place => ?_⟩
  -- What is announced beside has no place in a block.
  rcases List.mem_append.mp member with old | new
  · exact unheaded.2 event old number' place
  · rw [elsewhere event new] at place
    cases place

theorem OnlyAnnounces.refl (node : RpcState) : OnlyAnnounces node node :=
  ⟨rfl, [], (List.append_nil _).symm, List.forall_mem_nil _⟩

/-- Every move of a request keeps the history in order. -/
theorem Chronicle.advance (chronicle : Chronicle node)
    (unheaded : phase.inBlock = true → Unheaded node)
    (advanced : advance host iteration fuel stateFree node phase = some (node', progress)) :
    Chronicle node' ∧ (∀ phase ∈ progress.remaining, phase.inBlock = true → Unheaded node') ∧
      (phase.holdsState = false → OnlyAnnounces node node') := by
  cases phase with
  | checking tx raw =>
    simp only [MiniEvm.advance] at advanced
    split at advanced
    · split at advanced
      · cases advanced
        exact ⟨chronicle, List.forall_mem_nil _, fun _ => .refl node⟩
      · cases advanced
        refine ⟨chronicle, fun phase member => ?_, fun _ => .refl node⟩
        obtain rfl := List.mem_singleton.mp member
        exact fun inBlock => absurd inBlock Bool.false_ne_true
    · cases advanced
  | inserting tx raw =>
    simp only [MiniEvm.advance] at advanced
    split at advanced
    · cases advanced
      exact ⟨chronicle, List.forall_mem_nil _, fun _ => .refl node⟩
    · cases advanced
      refine ⟨chronicle.of_same rfl rfl rfl, fun phase member => ?_,
        fun _ => ⟨rfl, [], (List.append_nil _).symm, List.forall_mem_nil _⟩⟩
      obtain rfl := List.mem_singleton.mp member
      exact fun inBlock => absurd inBlock Bool.false_ne_true
  | announcing tx =>
    cases advanced
    refine ⟨chronicle.announce tx.hash, ?_, fun _ => ⟨rfl, _, rfl, fun event member => ?_⟩⟩
    · cases node.autoMine with
      | false => exact List.forall_mem_nil _
      | true =>
        intro phase member
        obtain rfl := List.mem_singleton.mp member
        exact fun inBlock => absurd inBlock Bool.false_ne_true
    · obtain rfl := List.mem_singleton.mp member
      rfl
  | listing reply =>
    cases advanced
    refine ⟨chronicle, fun phase member => ?_, fun _ => .refl node⟩
    obtain rfl := List.mem_singleton.mp member
    exact fun inBlock => absurd inBlock Bool.false_ne_true
  | locking reply senders =>
    simp only [MiniEvm.advance] at advanced
    split at advanced
    · cases advanced
      refine ⟨chronicle, fun phase member => ?_, fun _ => .refl node⟩
      obtain rfl := List.mem_singleton.mp member
      exact fun inBlock => absurd inBlock Bool.false_ne_true
    · cases advanced
  | selecting reply senders =>
    cases advanced
    obtain ⟨selected, begun⟩ := chronicle.select iteration.pool senders
    exact ⟨selected, fun _ _ _ => begun, fun free => absurd free.symm Bool.false_ne_true⟩
  | executing reply batch =>
    have begun := unheaded rfl
    cases batch with
    | nil =>
      cases advanced
      exact ⟨chronicle, fun _ _ _ => begun, fun free => absurd free.symm Bool.false_ne_true⟩
    | cons transaction rest =>
      simp only [MiniEvm.advance] at advanced
      split at advanced
      · rename_i receipt state applied
        cases advanced
        refine ⟨chronicle.record begun _ _ _, fun _ _ _ => ⟨begun.1, ?_⟩,
          fun free => absurd free.symm Bool.false_ne_true⟩
        -- Logs are no head, so the block still has none.
        intro event member number place
        rcases List.mem_append.mp member with old | new
        · exact begun.2 event old number place
        · obtain ⟨record, index, rfl⟩ := place_of_mem_logEvents new
          cases place
      -- A block that is given up tells nothing more.
      · cases advanced
        exact ⟨chronicle.of_same rfl rfl rfl, List.forall_mem_nil _,
          fun free => absurd free.symm Bool.false_ne_true⟩
      · cases advanced
        exact ⟨chronicle.of_same rfl rfl rfl, List.forall_mem_nil _,
          fun free => absurd free.symm Bool.false_ne_true⟩
      · cases advanced
  | publishing reply =>
    cases advanced
    exact ⟨chronicle.publish (unheaded rfl) host iteration.state, List.forall_mem_nil _,
      fun free => absurd free.symm Bool.false_ne_true⟩

/-- While one request holds the state, no other one has a block under way. -/
theorem others_free {before after : List Phase} {holder other : Phase}
    (alone : (Server.holders ⟨node, before ++ [holder] ++ after⟩).length ≤ 1)
    (holds : holder.holdsState = true) (member : other ∈ before ++ after) :
    other.holdsState = false := by
  rw [holders_around] at alone
  simp only [List.length_append, List.filter_cons_of_pos holds, List.filter_nil,
    List.length_singleton] at alone
  -- A second holder would make two.
  cases held : other.holdsState with
  | false => rfl
  | true =>
    rcases List.mem_append.mp member with left | right
    · have := List.length_pos_of_mem (List.mem_filter.mpr ⟨left, held⟩)
      omega
    · have := List.length_pos_of_mem (List.mem_filter.mpr ⟨right, held⟩)
      omega

theorem inBlock_holdsState {phase : Phase} (inBlock : phase.inBlock = true) :
    phase.holdsState = true := by
  cases phase <;> first | rfl | cases inBlock

/-- The history of a server, whose blocks under way have no head. -/
structure Told (server : Server) : Prop where
  chronicle : Chronicle server.node
  unheaded : ∀ phase ∈ server.requests, phase.inBlock = true → Unheaded server.node

/-- Every move of the server keeps its history in order, as long as one request holds the state. -/
theorem Told.moves {server server' : Server} {allowed : RpcState → List Phase → Phase → Prop}
    (told : Told server) (alone : server.holders.length ≤ 1)
    (moves : Server.Moves host iteration allowed server server') : Told server' := by
  cases moves with
  | sendRawTransaction tx raw =>
    refine ⟨told.chronicle, fun phase member inBlock => ?_⟩
    rcases List.mem_append.mp member with old | new
    · exact told.unheaded phase old inBlock
    · obtain rfl := List.mem_singleton.mp new
      cases inBlock
  | mine =>
    refine ⟨told.chronicle, fun phase member inBlock => ?_⟩
    rcases List.mem_append.mp member with old | new
    · exact told.unheaded phase old inBlock
    · obtain rfl := List.mem_singleton.mp new
      cases inBlock
  | setAutoMine enabled =>
    exact ⟨told.chronicle.of_same rfl rfl rfl, told.unheaded⟩
  | @request node node' progress before phase after fuel _ advanced =>
    obtain ⟨chronicle, unheaded⟩ := told
    rw [List.append_cons] at alone unheaded
    obtain ⟨kept, own, announces⟩ := chronicle.advance (unheaded phase (by simp)) advanced
    refine ⟨kept, fun other member inBlock => ?_⟩
    have either : other ∈ before ++ after ∨ other ∈ progress.remaining := by
      simp only [List.mem_append] at member ⊢
      tauto
    rcases either with old | new
    · -- Another block is under way, so the request that moved does not hold the state.
      have free : phase.holdsState = false := by
        cases holds : phase.holdsState with
        | false => rfl
        | true =>
          have idle := others_free alone holds old
          rw [inBlock_holdsState inBlock] at idle
          cases idle
      refine (unheaded other ?_ inBlock).announced (announces free)
      simp only [List.mem_append] at old ⊢
      tauto
    · exact own other new inBlock

theorem Told.new (state : StateFork) : Told ⟨RpcState.new state, []⟩ where
  chronicle := {
    small := Nat.zero_le _
    ordered := List.Pairwise.nil
    bounded := fun _ member => nomatch member
    formed := fun _ member => nomatch member
    told := by
      intro hash receipt found
      simp [RpcState.new] at found }
  unheaded := fun _ member => nomatch member

/-- So the history of every server that can be reached is told. -/
theorem told_of_run {state : StateFork} {server : Server}
    (run : Relation.ReflTransGen (Server.Moves host iteration fun _ _ _ => True)
      ⟨RpcState.new state, []⟩ server) : Told server := by
  induction run with
  | refl => exact .new state
  | tail run moves ih =>
    -- That one request at most holds the state is taken from the ledger.
    obtain ⟨_, _, _, refines⟩ := refines_of_run run
    exact ih.moves (holders_le_one refines) moves

end Runs

end MiniEvm
