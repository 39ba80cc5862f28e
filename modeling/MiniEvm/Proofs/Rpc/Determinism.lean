import MiniEvm.Proofs.Mempool.Selection
import MiniEvm.Proofs.Rpc.Mining
import MiniEvm.Proofs.State.Root
import MiniEvm.Proofs.Vm.Nonces

/-! The next block does not depend on the order in which hash maps are iterated. -/

namespace MiniEvm

open Collections Frames RpcState

/-- No two senders offer the same tip. -/
def DistinctTips (pending : List PendingTx) : Prop :=
  ∀ first ∈ pending, ∀ second ∈ pending,
    first.maxPriorityFeePerGas = second.maxPriorityFeePerGas → first.sender = second.sender

instance (pending : List PendingTx) : Decidable (DistinctTips pending) :=
  inferInstanceAs (Decidable (∀ first ∈ pending, ∀ second ∈ pending,
    first.maxPriorityFeePerGas = second.maxPriorityFeePerGas → first.sender = second.sender))

section Selecting

variable {iteration iteration' : PoolOrder} {activeNonces activeNonces' : HashMap Address Nat}
  {gasUsed limit : Nat} {pool : TxPool} {selection selection' : Selection}

/-- What a sender puts up is one of its pending transactions. -/
theorem pending_of_candidate {entry : Sigma fun _ : Address => Transactions}
    (listed : pool.bySender.lookup entry.1 = some entry.2) {candidate : Candidate}
    (puts : candidateOf activeNonces gasUsed limit entry = some candidate) :
    ∃ transaction ∈ pool.pending, entry.2.first = some (candidate.nonce, transaction) ∧
      transaction.sender = candidate.sender ∧ candidate.sender = entry.1 ∧
      transaction.maxPriorityFeePerGas = candidate.tip := by
  unfold candidateOf at puts
  -- A sender puts forward its first transaction, or nothing.
  split at puts
  · cases puts
  · rename_i nonce transaction front
    split at puts
    · cases puts
    · obtain rfl := Option.some.inj puts
      have member := SortedMap.first_mem front
      have filed := (pool.filed entry.1 entry.2 listed).2 _ member
      exact ⟨transaction, mem_filedIn.mpr ⟨_, entry.2, listed, nonce, member⟩, front, filed.1, rfl,
        rfl⟩

/-- Without a tie between senders there is one best candidate, however the senders are iterated. -/
theorem bestCandidate_eq_of_distinct (distinct : DistinctTips pool.pending)
    (same : ∀ sender, activeNonces.lookup sender = activeNonces'.lookup sender) :
    bestCandidate iteration activeNonces gasUsed limit pool.bySender =
      bestCandidate iteration' activeNonces' gasUsed limit pool.bySender := by
  have puts : candidateOf activeNonces gasUsed limit = candidateOf activeNonces' gasUsed limit := by
    funext entry
    unfold candidateOf
    rw [same]
  rw [bestCandidate_eq, bestCandidate_eq, puts]
  have perm := iteration.order_perm pool.bySender
  have listed : ∀ {entry}, entry ∈ iteration.order pool.bySender →
      pool.bySender.lookup entry.1 = some entry.2 :=
    fun member => AList.mem_lookup_iff.mpr (perm.mem_iff.mp member)
  refine foldl_keepBest_perm ((perm.trans (iteration'.order_perm pool.bySender).symm).map _) ?_
  intro first second member member' tips
  obtain ⟨entry, here, found⟩ := List.mem_map.mp member
  obtain ⟨entry', here', found'⟩ := List.mem_map.mp member'
  obtain ⟨transaction, pending, front, own, sender, tip⟩ :=
    pending_of_candidate (listed here) found
  obtain ⟨transaction', pending', front', own', sender', tip'⟩ :=
    pending_of_candidate (listed here') found'
  -- Equal tips come from one sender, and a sender puts up one transaction.
  have tied : first.tip = second.tip := BitVec.eq_of_toNat_eq tips
  have one : first.sender = second.sender := by
    rw [← own, ← own']
    exact distinct transaction pending transaction' pending' (by rw [tip, tip', tied])
  have entries : entry.2 = entry'.2 := by
    have lookup := listed here
    rw [← sender, one, sender', listed here'] at lookup
    exact (Option.some.inj lookup).symm
  rw [entries, front'] at front
  have nonces : second.nonce = first.nonce := congrArg Prod.fst (Option.some.inj front)
  obtain ⟨_, _, _⟩ := first
  obtain ⟨_, _, _⟩ := second
  simp only [Candidate.mk.injEq]
  exact ⟨one, nonces.symm, tied⟩

/-- Two selections that have got equally far, with their nonces in any order. -/
structure Selection.Same (selection selection' : Selection) : Prop where
  pool : selection.pool = selection'.pool
  active : ∀ sender, selection.activeNonces.lookup sender = selection'.activeNonces.lookup sender
  gas : selection.gasUsed = selection'.gasUsed
  selected : selection.selected = selection'.selected

/-- One round goes on equally far. -/
theorem Selection.Same.advance (same : selection.Same selection')
    (distinct : DistinctTips selection.pool.pending) :
    Option.Rel Selection.Same (selection.advance iteration limit)
      (selection'.advance iteration' limit) := by
  obtain ⟨pool, activeNonces, gasUsed, selected⟩ := selection
  obtain ⟨pool', activeNonces', gasUsed', selected'⟩ := selection'
  obtain ⟨rfl, active, rfl, rfl⟩ := same
  simp only at active
  have best := @bestCandidate_eq_of_distinct iteration iteration' _ _ gasUsed limit pool distinct
    active
  simp only [Selection.advance, best]
  cases bestCandidate iteration' activeNonces' gasUsed limit pool.bySender with
  | none => exact .none
  | some found =>
    simp only
    split
    · exact .none
    · rename_i transactions listed
      split
      · exact .none
      · -- Both take the same transaction, and count on from it.
        refine .some ⟨rfl, fun sender => ?_, rfl, rfl⟩
        simp only
        by_cases own : sender = found.sender
        · rw [own, AList.lookup_insert, AList.lookup_insert]
        · rw [AList.lookup_insert_ne own, AList.lookup_insert_ne own, active]

/-- What is left of a pool without ties has none. -/
theorem DistinctTips.advance {next : Selection} (distinct : DistinctTips selection.pool.pending)
    (advanced : selection.advance iteration limit = some next) :
    DistinctTips next.pool.pending := by
  obtain ⟨transaction, _, perm, _⟩ := advance_takes advanced
  intro first member second member'
  exact distinct first (perm.mem_iff.mpr (List.mem_cons_of_mem _ member)) second
    (perm.mem_iff.mpr (List.mem_cons_of_mem _ member'))

/-- All rounds together go equally far. -/
theorem Selection.Same.loop (rounds : Nat) (same : selection.Same selection')
    (distinct : DistinctTips selection.pool.pending) :
    (popExecutable.loop iteration limit rounds selection).Same
      (popExecutable.loop iteration' limit rounds selection') := by
  -- Both loops go on or stop together, and stay the same for a reader.
  induction rounds generalizing selection selection' with
  | zero => exact same
  | succ rounds ih =>
    have round := @Selection.Same.advance iteration iteration' limit _ _ same distinct
    simp only [popExecutable.loop]
    cases advanced : selection.advance iteration limit with
    | none =>
      rw [advanced] at round
      cases advanced' : selection'.advance iteration' limit with
      | none => exact same
      | some next' =>
        rw [advanced'] at round
        cases round
    | some next =>
      rw [advanced] at round
      cases advanced' : selection'.advance iteration' limit with
      | none =>
        rw [advanced'] at round
        cases round
      | some next' =>
        rw [advanced'] at round
        cases round with
        | some round => exact ih round (distinct.advance advanced)

/-- Without ties the selection depends on the nonces of the senders alone. -/
theorem popExecutable_eq (distinct : DistinctTips pool.pending)
    (same : ∀ sender, activeNonces.lookup sender = activeNonces'.lookup sender) :
    pool.popExecutable iteration activeNonces limit =
      pool.popExecutable iteration' activeNonces' limit := by
  have final := @Selection.Same.loop iteration iteration' limit
    { pool, activeNonces := activeNonces, gasUsed := 0, selected := [] }
    { pool, activeNonces := activeNonces', gasUsed := 0, selected := [] } pool.len
    ⟨rfl, same, rfl, rfl⟩ distinct
  exact Prod.ext final.selected final.pool

/-- The nonces of some senders, in whatever order they are read. -/
theorem lookup_readNonces (state : StateFork) (senders : List Address) (sender : Address) :
    (readNonces state senders).lookup sender =
      if sender ∈ senders then some (state.getAccount sender).nonce else none := by
  -- From the end: the sender that is read last is entered last.
  induction senders using List.reverseRecOn with
  | nil => rfl
  | append_singleton senders last ih =>
    have step : readNonces state (senders ++ [last]) =
        (readNonces state senders).insert last (state.getAccount last).nonce := by
      simp only [readNonces, List.foldl_append, List.foldl_cons, List.foldl_nil]
    rw [step]
    by_cases own : sender = last
    · subst own
      simp [AList.lookup_insert]
    · rw [AList.lookup_insert_ne own, ih]
      simp [own]

end Selecting

section Blocks

variable {host : Host} {iteration iteration' : NodeOrder} {fuel : Nat} {node : RpcState}

/-- The hash tells the keys of a state apart. -/
structure KeysDistinct (host : Host) (state : StateFork) : Prop where
  addresses : AddressesApart host state.addresses
  slots : ∀ address ∈ state.addresses, SlotsApart host (state.getAccount address).storage

/-- So a block starts out with the same transactions. -/
theorem select_eq (distinct : DistinctTips node.txPool.pending) :
    mineBlock.select iteration.pool (node.txPool.senders iteration.pool) node =
      mineBlock.select iteration'.pool (node.txPool.senders iteration'.pool) node := by
  -- The senders are the same in another order, so that the same nonces are read.
  have senders : ∀ sender, sender ∈ node.txPool.senders iteration.pool ↔
      sender ∈ node.txPool.senders iteration'.pool := by
    intro sender
    have perm := (iteration.pool.order_perm node.txPool.bySender).trans
      (iteration'.pool.order_perm node.txPool.bySender).symm
    exact (perm.map Sigma.fst).mem_iff
  have popped := @popExecutable_eq iteration.pool iteration'.pool
    (readNonces node.state (node.txPool.senders iteration.pool))
    (readNonces node.state (node.txPool.senders iteration'.pool)) blockGasLimit node.txPool distinct
    fun sender => by simp only [lookup_readNonces, senders]
  simp only [mineBlock.select, popped]

/--
Blocks do not depend on chance.

If no two senders offer the same tip, and the hash tells the keys of the resulting state apart, a
block comes out the same in whatever order the maps of the pool are iterated, and those from which the
state root is computed: the same answer, and the same node with its state root and its events.
The order in which frames copy their forks back is not varied: it belongs to the host.
-/
theorem blocks_are_determined (host : Host) (iteration iteration' : NodeOrder) (fuel : Nat)
    (node : RpcState) (distinct : DistinctTips node.txPool.pending)
    (answer : Except String Word) (after : RpcState)
    (mined : mineBlock host iteration fuel node = .value (answer, after))
    (apart : KeysDistinct host after.state) :
    mineBlock host iteration' fuel node = .value (answer, after) := by
  rw [mineBlock_eq] at mined ⊢
  have selected := @select_eq iteration iteration' node distinct
  have block : nextBlock iteration.pool node = nextBlock iteration'.pool node := by
    change (mineBlock.select iteration.pool _ node).1 = (mineBlock.select iteration'.pool _ node).1
    rw [selected]
  have begun : opened iteration.pool node = opened iteration'.pool node := by
    rw [opened, opened, selected]
  rw [← block, ← begun]
  obtain ⟨⟨outcome, executed⟩, ran, rest⟩ := Outcome.bind_eq_value mined
  rw [ran]
  cases outcome with
  | error message =>
    cases rest
    rfl
  | ok done =>
    cases rest
    -- Only the root is computed in some order, and it comes out the same in all of them.
    have apart : KeysDistinct host executed.state := apart
    have root : executed.state.computeStateRoot host iteration'.state =
        executed.state.computeStateRoot host iteration.state := by
      rw [StateFork.computeStateRoot, StateFork.computeStateRoot,
        StateFork.stateTrie_eq apart.addresses apart.slots iteration'.state iteration.state]
    have published : mineBlock.publish host iteration'.state executed =
        mineBlock.publish host iteration.state executed := by
      rw [mineBlock.publish, mineBlock.publish, root]
    change Outcome.value (_, mineBlock.publish host iteration'.state executed) = _
    rw [published]

/-- One transaction of a sender to itself. -/
def rival (sender : Address) (tip : Word) : SignedTransaction :=
  { callTransaction with sender, to_ := some sender, maxPriorityFeePerGas := tip }

/-- A node with transactions of two senders waiting. -/
def rivals : RpcState :=
  { RpcState.new {} with
    txPool := (TxPool.new.offered 0x0b (rival 0x0b 5)).offered 0x0c (rival 0x0c 10) }

/-- The hashes that the state root after their block asks for. -/
def rivalHost : Host :=
  let emptyRoot : Word := 0x56e81f171bcc55a6ff8345e692c0f86e5b48e01b996cadc001622fb5e363b421
  let emptyCode : Word := 0xc5d2460186f7233c927e7db2dcc703c0e500b653ca82273b7bfad8045d85a470
  -- An account that has sent one transaction, as a leaf.
  let leaf (path : Word) : Bytes := [0xf8, 0x69, 0xa0] ++ toBeBytes path ++
    [0xb8, 0x46, 0xf8, 0x44, 0x01, 0x80, 0xa0] ++ toBeBytes emptyRoot ++ [0xa0] ++
      toBeBytes emptyCode
  let first : Word := 0xabd0f67a8430b8030d8e68fcf98a59eb61b7fee66616e8efdb7c1704debb82d0
  let second : Word := 0xd19008c5cc78245ab0b3397743ca6539373f9e0c4d3b1e9db825c0be57216628
  tableHost [
    ([], emptyCode),
    ([0x80], emptyRoot),
    (beBytes 20 0x0b, 0x51ee1e08db014fc699587667b7256e7b9090e1755c587420cff5fbe0e20194fc),
    (beBytes 20 0x0c, 0xebd4d964df19c1598d3ce8354498f4f0cadb39d700af15ba6a42f8f6444c27d0),
    (leaf 0x31ee1e08db014fc699587667b7256e7b9090e1755c587420cff5fbe0e20194fc, first),
    (leaf 0x3bd4d964df19c1598d3ce8354498f4f0cadb39d700af15ba6a42f8f6444c27d0, second),
    ([0xf8, 0x4f] ++ List.replicate 5 0x80 ++ toBeBytes first ++ List.replicate 8 0x80 ++
      toBeBytes second ++ [0x80, 0x80],
      0x2329d9c1120a11bf4394d6279263f905593a17f47abd824daec5bbe6f319069a)]

/-- The senders of a pool from the last one listed to the first. -/
def PoolOrder.reversed : PoolOrder where
  order bySender := bySender.entries.reverse
  order_perm bySender := bySender.entries.reverse_perm

/-- Their block is mined, and lists the two senders with empty storages. -/
theorem exists_rivals_mined :
    ∃ answer after, mineBlock rivalHost .listed 10 rivals = .value (answer, after) ∧
      after.state.addresses = [0x0b, 0x0c] ∧
      (∀ address ∈ after.state.addresses, (after.state.getAccount address).storage.keys = []) ∧
      after.stateRoot = 0x2329d9c1120a11bf4394d6279263f905593a17f47abd824daec5bbe6f319069a := by
  -- The block is mined by evaluation, and its state is small enough to be listed.
  have checked : endsWith (mineBlock rivalHost .listed 10 rivals) (fun result =>
      decide (result.2.state.addresses = [0x0b, 0x0c]) &&
        (result.2.state.addresses.all fun address =>
          (result.2.state.getAccount address).storage.keys.isEmpty) &&
        decide (result.2.stateRoot =
          0x2329d9c1120a11bf4394d6279263f905593a17f47abd824daec5bbe6f319069a)) = true := by
    decide +kernel
  generalize mineBlock rivalHost .listed 10 rivals = mined at checked ⊢
  cases mined with
  | value result =>
    simp only [endsWith, Bool.and_eq_true, decide_eq_true_eq, List.all_eq_true,
      List.isEmpty_iff] at checked
    exact ⟨result.1, result.2, rfl, checked.1.1, checked.1.2, checked.2⟩
  | _ => cases checked

theorem blocks_are_determined_rivals :
    ∃ answer after, mineBlock rivalHost .listed 10 rivals = .value (answer, after) ∧
      after.stateRoot = 0x2329d9c1120a11bf4394d6279263f905593a17f47abd824daec5bbe6f319069a ∧
      mineBlock rivalHost { NodeOrder.listed with pool := .reversed } 10 rivals =
        .value (answer, after) := by
  obtain ⟨answer, after, mined, addresses, slots, root⟩ := exists_rivals_mined
  have distinct : DistinctTips rivals.txPool.pending := by decide +kernel
  -- Two addresses and no slot: both hashes are computed.
  have apart : KeysDistinct rivalHost after.state := by
    constructor
    · rw [addresses]
      have hashes : (([0x0b, 0x0c] : List Address).map fun address =>
          rivalHost.keccak256 (beBytes 20 address.toNat)).Nodup := by decide +kernel
      exact fun first member second member' =>
        List.inj_on_of_nodup_map hashes member member'
    · intro address member slot held
      rw [Set.mem_ofPred_eq, slots address member] at held
      cases held
  exact ⟨answer, after, mined, root, blocks_are_determined rivalHost .listed
    { NodeOrder.listed with pool := .reversed } 10 rivals distinct answer after mined apart⟩

-- With a tie the order decides who comes first.
example :
    let tied := (TxPool.new.offered 0x0b (rival 0x0b 5)).offered 0x0c (rival 0x0c 5)
    ((tied.popExecutable .listed ∅ blockGasLimit).1.map PendingTx.sender,
      (tied.popExecutable .reversed ∅ blockGasLimit).1.map PendingTx.sender) =
        ([0x0c, 0x0b], [0x0b, 0x0c]) := by
  decide +kernel

end Blocks

end MiniEvm
