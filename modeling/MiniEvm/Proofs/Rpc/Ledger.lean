import MiniEvm.Proofs.Rpc.Requests
import MiniEvm.Proofs.Vm.Transactions
import MiniEvm.Rpc.Ledger

/-! Mining is atomic: whatever requests are interleaved, the node is that of one block at a time. -/

namespace MiniEvm

open Frames RpcState

section Fuel

variable {host : Host} {fuel more : Nat}

/-- A transaction that came to an end comes to the same with more fuel. -/
theorem applySignedTransaction_of_more {state : StateFork} {tx : SignedTransaction}
    (le : fuel ≤ more) (finished : applySignedTransaction host fuel state tx ≠ .outOfFuel) :
    applySignedTransaction host more state tx = applySignedTransaction host fuel state tx := by
  cases checked : rejection state tx with
  | some error => rw [applySignedTransaction_of_rejection checked,
      applySignedTransaction_of_rejection checked]
  | none =>
    rw [applySignedTransaction_of_accepted checked] at finished ⊢
    rw [applySignedTransaction_of_accepted checked]
    rcases bumpNonce_cases host tx.nonce with ⟨bumped, bumps⟩ | ⟨cause, aborts⟩
    · rw [bumps, Outcome.value_bind] at finished ⊢
      rw [Outcome.value_bind]
      -- Whatever the transaction came to, its run had ended.
      have ended : run host fuel (transactionVm (chargeSender state tx bumped) tx) ≠
          .outOfFuel := by
        intro stuck
        simp only [stuck] at finished
        exact finished rfl
      simp only [run_mono le ended]
    · rw [aborts]
      rfl

/-- The rest of a block comes to the same with more fuel. -/
theorem executeBatch_of_more (le : fuel ≤ more) (batch : List PendingTx) :
    ∀ {node : RpcState} {ended : Ending Unit × RpcState},
      executeBatch host fuel batch node = some ended →
      executeBatch host more batch node = some ended := by
  induction batch with
  | nil => exact fun executed => executed
  | cons transaction rest ih =>
    intro node ended executed
    unfold executeBatch at executed ⊢
    -- A transaction that came to its end does so with more fuel.
    have finished : applySignedTransaction host fuel node.state transaction.tx ≠ .outOfFuel := by
      intro stuck
      rw [stuck] at executed
      cases executed
    rw [applySignedTransaction_of_more le finished]
    split at executed
    · exact ih executed
    · exact executed
    · exact executed
    · cases executed

/-- A block is executed one transaction at a time, each with the fuel it takes. -/
theorem executeBatch_cons {transaction : PendingTx} {rest : List PendingTx} {node : RpcState}
    {receipt : TxExecutionReceipt} {state : StateFork} {ended : Ending Unit × RpcState}
    (applied : applySignedTransaction host fuel node.state transaction.tx =
      .value (.ok receipt, state))
    (executed : executeBatch host more rest (node.record transaction.tx receipt state) =
      some ended) :
    ∃ enough, executeBatch host enough (transaction :: rest) node = some ended := by
  -- The larger of both amounts is enough for the first transaction and for the rest.
  refine ⟨max fuel more, ?_⟩
  have finished : applySignedTransaction host fuel node.state transaction.tx ≠ .outOfFuel := by
    rw [applied]
    simp
  unfold executeBatch
  rw [applySignedTransaction_of_more (Nat.le_max_left ..) finished, applied]
  exact executeBatch_of_more (Nat.le_max_right ..) rest executed

/-- What the executed batch comes to decides how the block ends. -/
theorem mineListed_of_executed {iteration : NodeOrder} {senders : List Address}
    {node last : RpcState} {ending : Ending Unit}
    (executed : executeBatch host fuel (mineBlock.select iteration.pool senders node).1
      (mineBlock.select iteration.pool senders node).2 = some (ending, last)) :
    node.mineListed host iteration fuel senders =
      some (last.endBlock host iteration.state ending) := by
  unfold mineListed
  simp only [executed, Option.map_some]

end Fuel

section Views

variable {node : RpcState}

/-- All that a transaction announces belongs to its block. -/
theorem filter_logEvents (number : Nat) (tx : SignedTransaction) (receipt : TxExecutionReceipt) :
    (logEvents number tx receipt).filter EvmEvent.ofBlock = logEvents number tx receipt := by
  rw [List.filter_eq_self]
  intro event member
  obtain ⟨index, within, rfl⟩ := List.mem_mapIdx.mp member
  rfl

theorem ledger_record (tx : SignedTransaction) (receipt : TxExecutionReceipt) (state : StateFork) :
    (node.record tx receipt state).ledger = node.ledger.record tx receipt state := by
  unfold RpcState.record RpcState.ledger
  simp only [List.filter_append, filter_logEvents]

theorem ledger_publish (host : Host) (iteration : StateOrder) :
    (mineBlock.publish host iteration node).ledger =
      mineBlock.publish host iteration node.ledger := by
  unfold mineBlock.publish RpcState.ledger
  simp only [List.filter_append, List.filter_singleton, EvmEvent.ofBlock, cond_true]

/-- A selection looks at the state, the pool and the block number alone. -/
theorem ledger_select (node : RpcState) (iteration : PoolOrder) (senders : List Address) :
    mineBlock.select iteration senders node.ledger =
      ((mineBlock.select iteration senders node).1,
        (mineBlock.select iteration senders node).2.ledger) := rfl

end Views

section Desks

variable {host : Host} {iteration : NodeOrder} {ledger : BlockLedger}

/-- The desk of a ledger can be served at any time between two blocks. -/
theorem steps_of_served {desk : Desk}
    (served : Relation.ReflTransGen (Desk.Step iteration.pool) ledger.desk desk) :
    Relation.ReflTransGen (BlockLedger.Step host iteration) ledger (ledger.withDesk desk) := by
  induction served with
  | refl => exact .refl
  | @tail middle last _ step ih =>
    have step : Desk.Step iteration.pool (ledger.withDesk middle).desk last := step
    exact ih.tail (.serve step)

end Desks

section Sections

variable {host : Host} {iteration : NodeOrder} {ledger : BlockLedger} {listed : List (List Address)}
  {view : RpcState} {batch : List PendingTx}

/--
A block under way, compared with the ledger before it.

What is left to execute leads to the end of the whole block, the desk has been served since the
block was selected, and the root is still that of the block before.
-/
structure Underway (host : Host) (iteration : NodeOrder) (ledger : BlockLedger)
    (listed : List (List Address)) (view : RpcState) (batch : List PendingTx)
    (senders : List Address) (current : RpcState) : Prop where
  known : senders ∈ ledger.listed
  seen : view = { current with txPool := view.txPool }
  ends : ∀ fuel ended, executeBatch host fuel batch current = some ended →
    ∃ enough, executeBatch host enough (mineBlock.select iteration.pool senders ledger.node).1
      (mineBlock.select iteration.pool senders ledger.node).2 = some ended
  served : Relation.ReflTransGen (Desk.Step iteration.pool)
    ⟨current.txPool, ledger.checked, ledger.listed⟩ ⟨view.txPool, ledger.checked, listed⟩
  root : view.stateRoot = ledger.node.stateRoot

/-- What the holders of the state are about, compared with a ledger. -/
def Holding (host : Host) (iteration : NodeOrder) (ledger : BlockLedger) (listed : List (List Address))
    (view : RpcState) : List Phase → Prop
  | [] => view = ledger.node ∧ listed = ledger.listed
  | [.selecting _ senders] => view = ledger.node ∧ listed = ledger.listed ∧ senders ∈ listed
  | [.executing _ batch] => ∃ senders current,
    Underway host iteration ledger listed view batch senders current
  | [.publishing _] => ∃ senders current,
    Underway host iteration ledger listed view [] senders current
  | _ => False

/-- Requests only go by what has been checked and listed. -/
def Vouched (checked : List SignedTransaction) (listed : List (List Address)) : Phase → Prop
  | .inserting tx _ => tx ∈ checked
  | .locking _ senders => senders ∈ listed
  | _ => True

theorem Vouched.mono {checked checked' : List SignedTransaction}
    {listed listed' : List (List Address)} {phase : Phase} (vouched : Vouched checked listed phase)
    (more : checked ⊆ checked') (lists : listed ⊆ listed') : Vouched checked' listed' phase := by
  cases phase with
  | inserting tx raw => exact more vouched
  | locking reply senders => exact lists vouched
  | _ => trivial

/-- The state is held by one request at most. -/
theorem Holding.alone {phase : Phase} {rest : List Phase}
    (holding : Holding host iteration ledger listed view (phase :: rest)) : rest = [] := by
  cases rest with
  | nil => rfl
  | cons other rest => cases phase <;> exact holding.elim

/-- Serving the desk goes on while the state is held. -/
theorem Holding.serve {holders : List Phase} {pool : TxPool} {lists : List (List Address)}
    (holding : Holding host iteration ledger listed view holders) (more : listed ⊆ lists)
    (step : Desk.Step iteration.pool ⟨view.txPool, ledger.checked, listed⟩
      ⟨pool, ledger.checked, lists⟩) :
    ∃ ledger', Relation.ReflTransGen (BlockLedger.Step host iteration) ledger ledger' ∧
      ledger'.checked = ledger.checked ∧
        Holding host iteration ledger' lists { view with txPool := pool } holders := by
  -- Between two blocks the ledger takes the step at once, and within one it is put off.
  have late : ∀ {batch senders current},
      Underway host iteration ledger listed view batch senders current →
      Underway host iteration ledger lists { view with txPool := pool } batch senders current :=
    fun underway => {
      known := underway.known
      seen := by rw [underway.seen]
      ends := underway.ends
      served := underway.served.tail step
      root := underway.root }
  match holders, holding with
  | [], ⟨same, listing⟩ =>
    subst same listing
    exact ⟨_, .single (.serve step), rfl, rfl, rfl⟩
  | [.selecting _ senders], ⟨same, listing, known⟩ =>
    subst same listing
    exact ⟨_, .single (.serve step), rfl, rfl, rfl, more known⟩
  | [.executing _ batch], ⟨senders, current, underway⟩ =>
    exact ⟨ledger, .refl, rfl, senders, current, late underway⟩
  | [.publishing _], ⟨senders, current, underway⟩ =>
    exact ⟨ledger, .refl, rfl, senders, current, late underway⟩

/-- Where a block ends, the ledger mines it and then serves what has been put off. -/
theorem Underway.finish {senders : List Address} {current node : RpcState} {fuel : Nat}
    {ending : Ending Word}
    (underway : Underway host iteration ledger listed view batch senders current)
    (mined : ledger.node.mineListed host iteration fuel senders = some (ending, node))
    (kept : node.txPool = current.txPool) :
    Relation.ReflTransGen (BlockLedger.Step host iteration) ledger
      ⟨{ node with txPool := view.txPool }, ledger.checked, listed⟩ := by
  have block : BlockLedger.Step host iteration ledger { ledger with node } :=
    .mine senders fuel underway.known mined
  -- What the desk was served meanwhile is done behind the block.
  have served := underway.served
  rw [← kept] at served
  have served : Relation.ReflTransGen (Desk.Step iteration.pool) { ledger with node }.desk
    ⟨view.txPool, ledger.checked, listed⟩ := served
  exact .head block (steps_of_served served)

/-- The first transaction of a batch is executed. -/
theorem Underway.execute {transaction : PendingTx} {rest : List PendingTx}
    {senders : List Address} {current : RpcState} {fuel : Nat} {receipt : TxExecutionReceipt}
    {state : StateFork}
    (underway : Underway host iteration ledger listed view (transaction :: rest) senders current)
    (applied : applySignedTransaction host fuel view.state transaction.tx =
      .value (.ok receipt, state)) :
    Underway host iteration ledger listed (view.record transaction.tx receipt state) rest senders
      (current.record transaction.tx receipt state) where
  known := underway.known
  seen := by
    have seen := underway.seen
    rw [seen]
    rfl
  -- The rest of the batch ends the whole block, since the first transaction is its own.
  ends := by
    intro fuel' ended executed
    have seen : view.state = current.state := by rw [underway.seen]
    rw [seen] at applied
    obtain ⟨enough, whole⟩ := executeBatch_cons applied executed
    exact underway.ends enough ended whole
  served := underway.served
  root := underway.root

end Sections

section Refinement

variable {host : Host} {iteration : NodeOrder} {ledger : BlockLedger} {listed : List (List Address)}

/-- How a ledger can have gone on while one request moved, as seen from the others. -/
structure Followed (host : Host) (iteration : NodeOrder) (ledger : BlockLedger)
    (listed : List (List Address)) (node : RpcState) (own others : List Phase) (ledger' : BlockLedger)
    (listed' : List (List Address)) : Prop where
  steps : Relation.ReflTransGen (BlockLedger.Step host iteration) ledger ledger'
  checked : ledger.checked ⊆ ledger'.checked
  listed : listed ⊆ listed'
  vouched : ∀ phase ∈ own, Vouched ledger'.checked listed' phase
  alone : own.filter Phase.holdsState = [] ∨ others = []
  holding : Holding host iteration ledger' listed' node.ledger
    (own.filter Phase.holdsState ++ others)

/-- A request that changes nothing of the ledger, and that does not hold the state. -/
theorem Followed.idle {node node' : RpcState} {own others : List Phase}
    (holding : Holding host iteration ledger listed node.ledger others)
    (same : node'.ledger = node.ledger)
    (vouched : ∀ phase ∈ own, Vouched ledger.checked listed phase)
    (free : own.filter Phase.holdsState = []) :
    Followed host iteration ledger listed node' own others ledger listed where
  steps := .refl
  checked := List.Subset.refl _
  listed := List.Subset.refl _
  vouched := vouched
  alone := .inl free
  holding := by rw [free, same]; exact holding

/-- A request that keeps the state to itself, while the ledger waits for the end of its block. -/
theorem Followed.holding_on {node' : RpcState} {phase : Phase}
    (free : ∀ checked listed, Vouched checked listed phase)
    (holding : Holding host iteration ledger listed node'.ledger
      ([phase].filter Phase.holdsState ++ [])) :
    Followed host iteration ledger listed node' [phase] [] ledger listed where
  steps := .refl
  checked := List.Subset.refl _
  listed := List.Subset.refl _
  vouched := by
    intro other member
    obtain rfl := List.mem_singleton.mp member
    exact free _ _
  -- It is the one holder before as after.
  alone := .inr rfl
  holding := holding

/-- Where a block comes to its end, the ledger mines the whole of it. -/
theorem Underway.followed {node node' last current : RpcState} {batch : List PendingTx}
    {senders : List Address} {fuel : Nat} {ending : Ending Unit}
    (underway : Underway host iteration ledger listed node.ledger batch senders current)
    (ended : executeBatch host fuel batch current = some (ending, last))
    (kept : (last.endBlock host iteration.state ending).2.txPool = current.txPool)
    (same : node'.ledger =
      { (last.endBlock host iteration.state ending).2 with txPool := node.ledger.txPool }) :
    ∃ ledger' listed', Followed host iteration ledger listed node' [] [] ledger' listed' := by
  obtain ⟨enough, whole⟩ := underway.ends _ _ ended
  -- The ledger executes in one step what was executed transaction by transaction.
  have mined : ledger.node.mineListed host iteration enough senders = _ :=
    mineListed_of_executed whole
  refine ⟨_, listed, underway.finish mined kept, List.Subset.refl _, List.Subset.refl _,
    List.forall_mem_nil _, .inr rfl, same, rfl⟩

/-- The first selection of a block is that of the ledger. -/
theorem followed_of_selecting {node : RpcState} {reply : Option Word} {senders : List Address}
    (holding : Holding host iteration ledger listed node.ledger [.selecting reply senders]) :
    Followed host iteration ledger listed (mineBlock.select iteration.pool senders node).2
      [.executing reply (mineBlock.select iteration.pool senders node).1] [] ledger listed := by
  obtain ⟨same, listing, known⟩ := holding
  -- The batch and the raised number are the same as on the ledger.
  have view := ledger_select node iteration.pool senders
  rw [same] at view
  refine Followed.holding_on (fun _ _ => trivial)
    ⟨senders, (mineBlock.select iteration.pool senders ledger.node).2, ?_⟩
  constructor
  · rw [← listing]
    exact known
  · rw [view]
  · intro fuel ended executed
    refine ⟨fuel, ?_⟩
    rw [view] at executed ⊢
    exact executed
  · rw [view, listing]
  · rw [← same]
    rfl

/-- A block goes on with its next transaction, or ends with one that is turned down or aborts. -/
theorem followed_of_executing {fuel : Nat} {node node' : RpcState} {reply : Option Word}
    {batch : List PendingTx} {progress : Progress}
    (holding : Holding host iteration ledger listed node.ledger [.executing reply batch])
    (advanced : advance host iteration fuel true node (.executing reply batch) =
      some (node', progress)) :
    ∃ ledger' listed', Followed host iteration ledger listed node' progress.remaining []
      ledger' listed' := by
  obtain ⟨senders, current, underway⟩ := holding
  cases batch with
  | nil =>
    cases advanced
    exact ⟨_, _, .holding_on (fun _ _ => trivial) ⟨senders, current, underway⟩⟩
  | cons transaction rest =>
    -- The block under way has the state of the node.
    have seen : node.state = current.state := by
      show node.ledger.state = _
      rw [underway.seen]
    simp only [advance] at advanced
    split at advanced
    · rename_i receipt state applied
      cases advanced
      refine ⟨_, _, .holding_on (fun _ _ => trivial)
        ⟨senders, current.record transaction.tx receipt state, ?_⟩⟩
      rw [ledger_record]
      exact underway.execute applied
    · rename_i error state applied
      cases advanced
      -- The rest of the block is dropped, here and in the ledger.
      rw [seen] at applied
      have failed : executeBatch host fuel (transaction :: rest) current = some
          (.answered (.error ("transaction execution failed: " ++ error.debug)),
            { current with state }) := by
        unfold executeBatch
        rw [applied]
      refine underway.followed failed rfl ?_
      show { node.ledger with state } = _
      rw [underway.seen]
      rfl
    · rename_i cause aborted
      cases advanced
      -- Nobody is told, but the ledger has the same node behind the abort.
      rw [seen] at aborted
      have failed : executeBatch host fuel (transaction :: rest) current = some
          (.aborted cause,
            { current with state := abortedState host current.state transaction.tx }) := by
        unfold executeBatch
        rw [aborted]
      refine underway.followed failed rfl ?_
      rw [seen]
      show { node.ledger with state := abortedState host current.state transaction.tx } = _
      rw [underway.seen]
      rfl
    · cases advanced

/-- The head of a block is announced once all its transactions are executed. -/
theorem followed_of_publishing {node : RpcState} {reply : Option Word}
    (holding : Holding host iteration ledger listed node.ledger [.publishing reply]) :
    ∃ ledger' listed', Followed host iteration ledger listed
      (mineBlock.publish host iteration.state node) [] [] ledger' listed' := by
  obtain ⟨senders, current, underway⟩ := holding
  -- Nothing is left to execute, so the block ends with its head.
  have empty : executeBatch host 0 [] current = some (.answered (.ok ()), current) := rfl
  refine underway.followed empty rfl ?_
  show (mineBlock.publish host iteration.state node).ledger = _
  rw [ledger_publish, underway.seen]
  rfl

/-- A nonce is read while nobody holds the state, so it is that of the ledger. -/
theorem followed_of_checking {fuel : Nat} {node node' : RpcState} {tx : SignedTransaction}
    {raw : Bytes} {others : List Phase} {progress : Progress}
    (holding : Holding host iteration ledger listed node.ledger others)
    (advanced : advance host iteration fuel others.isEmpty node (.checking tx raw) =
      some (node', progress)) :
    ∃ ledger' listed', Followed host iteration ledger listed node' progress.remaining others
      ledger' listed' := by
  simp only [advance] at advanced
  split at advanced
  · rename_i free
    obtain rfl := List.isEmpty_iff.mp free
    split at advanced
    · -- A transaction that comes too late is turned down.
      cases advanced
      exact ⟨_, _, .idle holding rfl (List.forall_mem_nil _) rfl⟩
    · rename_i stands
      cases advanced
      obtain ⟨same, listing⟩ := holding
      have reads : ledger.node.state = node.state := by rw [← same]; rfl
      have check : BlockLedger.Step host iteration ledger
          { ledger with checked := tx :: ledger.checked } := by
        refine .check tx ?_
        rw [reads]
        exact Nat.not_lt.mp stands
      refine ⟨_, _, .single check, List.subset_cons_self _ _, List.Subset.refl _, ?_, .inl rfl,
        same, listing⟩
      intro phase member
      obtain rfl := List.mem_singleton.mp member
      exact List.mem_cons_self
  · cases advanced

/-- What has been checked is taken into the pool, and the desk takes it too. -/
theorem followed_of_inserting {fuel : Nat} {stateFree : Bool} {node node' : RpcState}
    {tx : SignedTransaction} {raw : Bytes} {others : List Phase} {progress : Progress}
    (checked : tx ∈ ledger.checked)
    (holding : Holding host iteration ledger listed node.ledger others)
    (advanced : advance host iteration fuel stateFree node (.inserting tx raw) =
      some (node', progress)) :
    ∃ ledger' listed', Followed host iteration ledger listed node' progress.remaining others
      ledger' listed' := by
  simp only [advance] at advanced
  split at advanced
  · cases advanced
    exact ⟨_, _, .idle holding rfl (List.forall_mem_nil _) rfl⟩
  · rename_i pool inserted
    cases advanced
    -- The desk inserts into the same pool, whether a block is under way or not.
    have step : Desk.Step iteration.pool ⟨node.ledger.txPool, ledger.checked, listed⟩
      ⟨pool, ledger.checked, listed⟩ := .insert tx raw checked inserted
    obtain ⟨ledger', steps, kept, held⟩ := holding.serve (List.Subset.refl _) step
    refine ⟨ledger', listed, steps, kept ▸ List.Subset.refl _, List.Subset.refl _, ?_,
      .inl rfl, held⟩
    intro phase member
    obtain rfl := List.mem_singleton.mp member
    trivial

/-- An announcement is followed by nothing, or by a request for a block. -/
theorem followed_of_announcing {fuel : Nat} {stateFree : Bool} {node node' : RpcState}
    {tx : SignedTransaction} {others : List Phase} {progress : Progress}
    (holding : Holding host iteration ledger listed node.ledger others)
    (advanced : advance host iteration fuel stateFree node (.announcing tx) =
      some (node', progress)) :
    Followed host iteration ledger listed node' progress.remaining others ledger listed := by
  cases advanced
  -- Events of the pool are no events of a block.
  have same : RpcState.ledger { node with events := node.events ++ [.pendingTx tx.hash] } =
      node.ledger := by
    unfold RpcState.ledger
    simp only [List.filter_append, List.filter_singleton, EvmEvent.ofBlock, cond_false,
      List.append_nil]
  cases node.autoMine with
  | false => exact .idle holding same (List.forall_mem_nil _) rfl
  | true =>
    refine .idle holding same (fun phase member => ?_) rfl
    obtain rfl := List.mem_singleton.mp member
    trivial

/-- Senders are listed from the pool, whether the state is held or not. -/
theorem followed_of_listing {node : RpcState} {reply : Option Word} {others : List Phase}
    (holding : Holding host iteration ledger listed node.ledger others) :
    ∃ ledger' listed', Followed host iteration ledger listed node
      [.locking reply (node.txPool.senders iteration.pool)] others ledger' listed' := by
  -- The ledger notes the list, in case that a block is mined from it later.
  have step : Desk.Step iteration.pool ⟨node.ledger.txPool, ledger.checked, listed⟩
    ⟨node.ledger.txPool, ledger.checked, node.txPool.senders iteration.pool :: listed⟩ := .list
  obtain ⟨ledger', steps, kept, held⟩ := holding.serve (List.subset_cons_self _ _) step
  refine ⟨ledger', _, steps, kept ▸ List.Subset.refl _, List.subset_cons_self _ _, ?_,
    .inl rfl, held⟩
  intro phase member
  obtain rfl := List.mem_singleton.mp member
  exact List.mem_cons_self

/-- A request that gets hold of the state finds the node of the ledger. -/
theorem followed_of_locking {fuel : Nat} {node node' : RpcState} {reply : Option Word}
    {senders : List Address} {others : List Phase} {progress : Progress}
    (known : senders ∈ listed)
    (holding : Holding host iteration ledger listed node.ledger others)
    (advanced : advance host iteration fuel others.isEmpty node (.locking reply senders) =
      some (node', progress)) :
    Followed host iteration ledger listed node' progress.remaining others ledger listed := by
  simp only [advance] at advanced
  split at advanced
  · rename_i free
    -- The lock is only had where nobody else holds the state.
    obtain rfl := List.isEmpty_iff.mp free
    cases advanced
    obtain ⟨same, listing⟩ := holding
    refine ⟨.refl, List.Subset.refl _, List.Subset.refl _, ?_, .inr rfl, same, listing, known⟩
    intro phase member
    obtain rfl := List.mem_singleton.mp member
    trivial
  · cases advanced

/-- Whatever a request does next, the ledger follows. -/
theorem followed_of_advance {fuel : Nat} {node node' : RpcState} {phase : Phase}
    {others : List Phase} {progress : Progress}
    (vouched : Vouched ledger.checked listed phase)
    (holding : Holding host iteration ledger listed node.ledger
      ([phase].filter Phase.holdsState ++ others))
    (advanced : advance host iteration fuel others.isEmpty node phase = some (node', progress)) :
    ∃ ledger' listed', Followed host iteration ledger listed node' progress.remaining others
      ledger' listed' := by
  cases phase with
  | checking tx raw => exact followed_of_checking holding advanced
  | inserting tx raw => exact followed_of_inserting vouched holding advanced
  | announcing tx => exact ⟨_, _, followed_of_announcing holding advanced⟩
  | listing reply =>
    cases advanced
    exact followed_of_listing holding
  | locking reply senders => exact ⟨_, _, followed_of_locking vouched holding advanced⟩
  -- From here on the request holds the state, so that no other one does.
  | selecting reply senders =>
    obtain rfl := holding.alone
    cases advanced
    exact ⟨ledger, listed, followed_of_selecting holding⟩
  | executing reply batch =>
    obtain rfl := holding.alone
    exact followed_of_executing holding advanced
  | publishing reply =>
    obtain rfl := holding.alone
    cases advanced
    exact followed_of_publishing holding

/-- A server that stands for a ledger, with the lists that its requests may go by. -/
structure Refines (host : Host) (iteration : NodeOrder) (server : Server) (ledger : BlockLedger)
    (listed : List (List Address)) : Prop where
  vouched : ∀ phase ∈ server.requests, Vouched ledger.checked listed phase
  holding : Holding host iteration ledger listed server.node.ledger server.holders

/-- One request among the others, and the holders among all of them. -/
theorem holders_around (node : RpcState) (before middle after : List Phase) :
    Server.holders ⟨node, before ++ middle ++ after⟩ = before.filter Phase.holdsState ++
      middle.filter Phase.holdsState ++ after.filter Phase.holdsState := by
  simp only [Server.holders, List.filter_append]

/-- Where either side is missing, it does not matter where the middle stands. -/
theorem around_eq {α : Type} {before middle after : List α}
    (alone : middle = [] ∨ before ++ after = []) :
    before ++ middle ++ after = middle ++ (before ++ after) := by
  rcases alone with rfl | none_
  · simp
  · obtain ⟨rfl, rfl⟩ := List.append_eq_nil_iff.mp none_
    simp

/-- A request holds the state only if no other one does. -/
theorem Holding.around {view : RpcState} {before after : List Phase} {phase : Phase}
    (holding : Holding host iteration ledger listed view
      (before ++ [phase].filter Phase.holdsState ++ after)) :
    [phase].filter Phase.holdsState = [] ∨ before ++ after = [] := by
  -- Two holders at once are excluded by the relation itself.
  cases holds : phase.holdsState with
  | false => exact .inl (by simp [holds])
  | true =>
    right
    simp only [List.filter_cons_of_pos holds, List.filter_nil] at holding
    cases before with
    | nil => simpa using holding.alone
    | cons first rest =>
      have nothing := holding.alone
      simp at nothing

/-- Every move of the server is followed by the ledger. -/
theorem Refines.moves {server server' : Server}
    (refines : Refines host iteration server ledger listed)
    {allowed : RpcState → List Phase → Phase → Prop}
    (moves : Server.Moves host iteration allowed server server') :
    ∃ ledger' listed', Relation.ReflTransGen (BlockLedger.Step host iteration) ledger ledger' ∧
      Refines host iteration server' ledger' listed' := by
  cases moves with
  | @sendRawTransaction node requests tx raw =>
    refine ⟨ledger, listed, .refl, ?_, ?_⟩
    · intro phase member
      rcases List.mem_append.mp member with old | new
      · exact refines.vouched phase old
      · obtain rfl := List.mem_singleton.mp new
        trivial
    · have same : Server.holders ⟨node, requests ++ [.checking tx raw]⟩ =
          Server.holders ⟨node, requests⟩ := by simp [Server.holders, Phase.holdsState]
      rw [same]
      exact refines.holding
  | @mine node requests =>
    refine ⟨ledger, listed, .refl, ?_, ?_⟩
    · intro phase member
      rcases List.mem_append.mp member with old | new
      · exact refines.vouched phase old
      · obtain rfl := List.mem_singleton.mp new
        trivial
    · have same : Server.holders ⟨node, requests ++ [.listing none]⟩ =
          Server.holders ⟨node, requests⟩ := by simp [Server.holders, Phase.holdsState]
      rw [same]
      exact refines.holding
  | setAutoMine enabled => exact ⟨ledger, listed, .refl, refines.vouched, refines.holding⟩
  | @request node node' progress before phase after fuel _ advanced =>
    obtain ⟨vouched, holding⟩ := refines
    rw [List.append_cons] at vouched holding
    rw [holders_around] at holding
    -- The request that moves is brought to the front.
    have alone := holding.around
    rw [around_eq alone, ← List.filter_append] at holding
    have free : (!(before ++ after).any Phase.holdsState) =
        ((before ++ after).filter Phase.holdsState).isEmpty := by
      rw [Bool.eq_iff_iff]
      simp only [Bool.not_eq_true', List.any_eq_false, List.isEmpty_iff, List.filter_eq_nil_iff]
    rw [free] at advanced
    obtain ⟨ledger', listed', followed⟩ := followed_of_advance
      (vouched phase (by simp)) holding advanced
    refine ⟨ledger', listed', followed.steps, ?_, ?_⟩
    · intro other member
      have either : other ∈ before ++ after ∨ other ∈ progress.remaining := by
        simp only [List.mem_append] at member ⊢
        tauto
      rcases either with old | new
      · refine (vouched other ?_).mono followed.checked followed.listed
        simp only [List.mem_append] at old ⊢
        tauto
      · exact followed.vouched other new
    · have alone := followed.alone
      rw [List.filter_append] at alone
      rw [holders_around, around_eq alone, ← List.filter_append]
      exact followed.holding

/-- So every run of the server is followed by a run of the ledger. -/
theorem refines_of_run {state : StateFork} {server : Server}
    {allowed : RpcState → List Phase → Phase → Prop}
    (run : Relation.ReflTransGen (Server.Moves host iteration allowed)
      ⟨RpcState.new state, []⟩ server) :
    ∃ ledger listed, Relation.ReflTransGen (BlockLedger.Step host iteration) (BlockLedger.new state) ledger ∧
      Refines host iteration server ledger listed := by
  -- The ledger moves along with each move of the server.
  induction run with
  | refl => exact ⟨_, [], .refl, fun _ member => (nomatch member), rfl, rfl⟩
  | tail _ moves ih =>
    obtain ⟨ledger, listed, steps, refines⟩ := ih
    obtain ⟨ledger', listed', more, refines'⟩ := refines.moves moves
    exact ⟨ledger', listed', steps.trans more, refines'⟩

/-- One request at most holds the state. -/
theorem holders_le_one {server : Server} (refines : Refines host iteration server ledger listed) :
    server.holders.length ≤ 1 := by
  have holding := refines.holding
  cases held : server.holders with
  | nil => exact Nat.zero_le 1
  | cons phase rest =>
    rw [held] at holding
    rw [holding.alone]
    exact Nat.le_refl 1

end Refinement

end MiniEvm
