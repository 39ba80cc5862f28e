import MiniEvm.Proofs.Mempool.Accounting
import MiniEvm.Proofs.Rpc.Ledger
import MiniEvm.Proofs.Vm.Gas

/-! Every request comes to an end: schedules are bounded, and some request can always move. -/

namespace MiniEvm

open Frames RpcState

/-- One request moves; none comes in. -/
inductive Server.Serves (host : Host) (iteration : NodeOrder) : Server → Server → Prop
  | request {node node' progress} (before : List Phase) (phase : Phase) (after : List Phase)
      (fuel : Nat) :
      advance host iteration fuel (!(before ++ after).any Phase.holdsState) node phase =
        some (node', progress) →
      Serves host iteration ⟨node, before ++ phase :: after⟩
        ⟨node', before ++ progress.remaining ++ after⟩

/-- How many more moves a request may take, apart from the transactions that are in the pool. -/
def Phase.work : Phase → Nat
  -- An insertion also leaves one more transaction to execute.
  | checking _ _ => 9
  | inserting _ _ => 8
  | announcing _ => 6
  | listing _ => 5
  | locking _ _ => 4
  | selecting _ _ => 3
  | executing _ batch => batch.length + 2
  | publishing _ => 1

/-- How many moves a server may take before all its requests have come to an end. -/
def Server.work (server : Server) : Nat :=
  (server.requests.map Phase.work).sum + server.node.txPool.len

section Work

variable {host : Host} {iteration : NodeOrder} {fuel : Nat} {stateFree : Bool}
  {node node' : RpcState} {phase : Phase} {progress : Progress}

theorem len_of_insert {pool pool' : TxPool} {sender : Address} {tx : SignedTransaction}
    {raw : Bytes} (inserted : pool.insert sender tx raw = .ok pool') : pool'.len = pool.len + 1 := by
  obtain ⟨pending, _, _, _, perm⟩ := pending_insert_perm inserted
  exact perm.length_eq

/-- What a block takes out of the pool it has to execute. -/
theorem len_of_select (iteration : PoolOrder) (senders : List Address) (node : RpcState) :
    (mineBlock.select iteration senders node).1.length +
      (mineBlock.select iteration senders node).2.txPool.len = node.txPool.len := by
  have perm : node.txPool.pending.Perm ((mineBlock.select iteration senders node).1 ++
      (mineBlock.select iteration senders node).2.txPool.pending) :=
    popExecutable_perm node.txPool (readNonces node.state senders)
  have length := perm.length_eq
  rw [List.length_append] at length
  exact length.symm

/-- Every move of a request leaves less to do. -/
theorem work_of_advance
    (advanced : advance host iteration fuel stateFree node phase = some (node', progress)) :
    (progress.remaining.map Phase.work).sum + node'.txPool.len < phase.work + node.txPool.len := by
  -- A phase weighs more than all that comes behind it, and a pooled transaction more than its
  -- batch.
  cases phase with
  | checking tx raw =>
    simp only [advance] at advanced
    split at advanced
    · split at advanced <;> cases advanced <;> simp [Progress.remaining, Phase.work]
    · cases advanced
  | inserting tx raw =>
    simp only [advance] at advanced
    split at advanced
    · cases advanced
      simp [Progress.remaining, Phase.work]
    · rename_i inserted
      cases advanced
      have len := len_of_insert inserted
      simp only [Progress.remaining, Phase.work, List.map_cons, List.map_nil, List.sum_cons,
        List.sum_nil]
      omega
  | announcing tx =>
    cases advanced
    cases node.autoMine <;> simp [Progress.remaining, Phase.work]
  | listing reply =>
    cases advanced
    simp [Progress.remaining, Phase.work]
  | locking reply senders =>
    simp only [advance] at advanced
    split at advanced
    · cases advanced
      simp [Progress.remaining, Phase.work]
    · cases advanced
  | selecting reply senders =>
    cases advanced
    have len := len_of_select iteration.pool senders node
    show (mineBlock.select iteration.pool senders node).1.length + 2 + 0 +
      (mineBlock.select iteration.pool senders node).2.txPool.len < 3 + node.txPool.len
    omega
  | executing reply batch =>
    cases batch with
    | nil =>
      cases advanced
      simp [Progress.remaining, Phase.work]
    | cons transaction rest =>
      simp only [advance] at advanced
      split at advanced
      · cases advanced
        simp [Progress.remaining, Phase.work, RpcState.record]
      · cases advanced
        simp [Progress.remaining, Phase.work]
      · cases advanced
        simp [Progress.remaining, Phase.work]
      · cases advanced
  | publishing reply =>
    cases advanced
    simp [Progress.remaining, Phase.work, mineBlock.publish]

theorem Server.Serves.work_lt {server server' : Server}
    (serves : Server.Serves host iteration server server') : server'.work < server.work := by
  cases serves with
  | request before phase after fuel advanced =>
    have less := work_of_advance advanced
    simp only [Server.work, List.map_append, List.map_cons, List.sum_append, List.sum_cons]
    omega

/-- Along a schedule, the moves that were made and the work that is left stay within the work. -/
theorem Server.work_of_schedule {schedule : List Server} {server last : Server}
    (chain : List.IsChain (Server.Serves host iteration) (server :: schedule))
    (ends : (server :: schedule).getLast? = some last) :
    last.work + schedule.length ≤ server.work := by
  -- Each move of the schedule takes at least one unit of work off.
  induction schedule generalizing server with
  | nil =>
    obtain rfl : server = last := by simpa using ends
    exact Nat.le_refl _
  | cons next rest ih =>
    obtain ⟨serves, chain⟩ := List.isChain_cons_cons.mp chain
    have less := serves.work_lt
    have later := ih chain (by simpa using ends)
    rw [List.length_cons]
    omega

end Work

section Progressing

variable {host : Host} {iteration : NodeOrder} {node : RpcState} {phase : Phase}

/-- Some fuel is enough for a transaction. -/
theorem applySignedTransaction_finishes (host : Host) (state : StateFork) (tx : SignedTransaction) :
    ∃ fuel, applySignedTransaction host fuel state tx ≠ .outOfFuel := by
  -- Only the run of the frame needs fuel, and some fuel is enough for it.
  cases checked : rejection state tx with
  | some error =>
    refine ⟨0, ?_⟩
    rw [applySignedTransaction_of_rejection checked]
    simp
  | none =>
    cases bumps : bumpNonce host tx.nonce with
    | outOfFuel =>
      unfold bumpNonce at bumps
      split at bumps
      · cases bumps
      · split at bumps <;> cases bumps
    | fault cause =>
      refine ⟨0, ?_⟩
      rw [applySignedTransaction_of_accepted checked, bumps]
      simp
    | value bumped =>
      obtain ⟨fuel, _, finished⟩ :=
        run_finishes host (transactionVm (chargeSender state tx bumped) tx)
      refine ⟨fuel, ?_⟩
      rw [applySignedTransaction_of_accepted checked, bumps, Outcome.value_bind]
      cases ran : run host fuel (transactionVm (chargeSender state tx bumped) tx) with
      | outOfFuel => exact absurd ran finished
      | fault cause => simp [ran]
      | value ended => simp [ran]

/-- A request can move where the state is free, and the holder of the state can move anyway. -/
theorem exists_advanced (host : Host) (iteration : NodeOrder) (node : RpcState) (phase : Phase)
    (stateFree : Bool) (free : phase.holdsState = false → stateFree = true) :
    ∃ fuel moved, advance host iteration fuel stateFree node phase = some moved := by
  cases phase with
  | checking tx raw =>
    simp only [advance, free rfl, if_true]
    split <;> exact ⟨0, _, rfl⟩
  | inserting tx raw =>
    simp only [advance]
    split <;> exact ⟨0, _, rfl⟩
  | announcing tx => exact ⟨0, _, rfl⟩
  | listing reply => exact ⟨0, _, rfl⟩
  | locking reply senders =>
    simp only [advance, free rfl, if_true]
    exact ⟨0, _, rfl⟩
  | selecting reply senders => exact ⟨0, _, rfl⟩
  | executing reply batch =>
    cases batch with
    | nil => exact ⟨0, _, rfl⟩
    | cons transaction rest =>
      -- With enough fuel the next transaction is executed, turned down, or aborts.
      obtain ⟨fuel, finished⟩ := applySignedTransaction_finishes host node.state transaction.tx
      refine ⟨fuel, ?_⟩
      simp only [advance]
      cases applied : applySignedTransaction host fuel node.state transaction.tx with
      | outOfFuel => exact absurd applied finished
      | fault cause => exact ⟨_, rfl⟩
      | value ended =>
        obtain ⟨answer, state⟩ := ended
        cases answer <;> exact ⟨_, rfl⟩
  | publishing reply => exact ⟨0, _, rfl⟩

/-- On a server with requests, one of them can move. -/
theorem exists_serves {server : Server} (busy : server.requests ≠ []) :
    ∃ next, Server.Serves host iteration server next := by
  obtain ⟨node, requests⟩ := server
  cases held : requests.find? Phase.holdsState with
  | none =>
    -- Nobody holds the state, so the first request can move.
    cases requests with
    | nil => exact absurd rfl busy
    | cons phase rest =>
      rw [List.find?_eq_none] at held
      have free : (!([] ++ rest).any Phase.holdsState) = true := by
        simp only [List.nil_append, Bool.not_eq_true', List.any_eq_false]
        exact fun other member => held other (List.mem_cons_of_mem _ member)
      obtain ⟨fuel, moved, advanced⟩ :=
        exists_advanced host iteration node phase _ fun _ => free
      exact ⟨_, .request [] phase rest fuel advanced⟩
  | some holder =>
    obtain ⟨holds, before, after, rfl, _⟩ := List.find?_eq_some_iff_append.mp held
    have waits : holder.holdsState = false → (!(before ++ after).any Phase.holdsState) = true := by
      rw [holds]
      exact fun free => absurd free.symm Bool.false_ne_true
    obtain ⟨fuel, moved, advanced⟩ := exists_advanced host iteration node holder _ waits
    exact ⟨_, .request before holder after fuel advanced⟩

/-- Whoever moves next, the work runs out. -/
theorem exists_idle (server : Server) :
    ∃ last, Relation.ReflTransGen (Server.Serves host iteration) server last ∧
      last.requests = [] := by
  -- Every move leaves less work, which bounds the induction.
  induction left : server.work using Nat.strongRecOn generalizing server with
  | ind work ih =>
    by_cases idle : server.requests = []
    · exact ⟨server, .refl, idle⟩
    · obtain ⟨next, serves⟩ := exists_serves idle
      obtain ⟨last, rest, ended⟩ := ih next.work (left ▸ serves.work_lt) next rfl
      exact ⟨last, .head serves rest, ended⟩

/--
Every request comes to an end.

No schedule makes more moves than there is work, as long as there are requests one of them can move,
and from every server on some schedule leads to one on which none is left: all have been answered,
or their tasks have panicked.
-/
theorem requests_are_answered (host : Host) (iteration : NodeOrder) (server : Server) :
    (∀ schedule, List.IsChain (Server.Serves host iteration) (server :: schedule) →
      schedule.length ≤ server.work) ∧
    (server.requests ≠ [] → ∃ next, Server.Serves host iteration server next) ∧
    ∃ last, Relation.ReflTransGen (Server.Serves host iteration) server last ∧
      last.requests = [] := by
  refine ⟨fun schedule chain => ?_, exists_serves, exists_idle server⟩
  -- A schedule has a last server, up to which the work bounds its length.
  cases ends : (server :: schedule).getLast? with
  | none => simp at ends
  | some last =>
    have bound := Server.work_of_schedule chain ends
    omega

end Progressing

end MiniEvm
