import MiniEvm.Collections.Best
import MiniEvm.Proofs.Mempool.Pool

/-! The selection for a block is sound and maximal: which transaction is taken at each moment. -/

namespace MiniEvm

open Collections

section Candidates

variable {activeNonces : HashMap Address Nat} {gasUsed limit : Nat}

/-- The candidate that a sender puts up, if its lowest transaction is next and fits. -/
def candidateOf (activeNonces : HashMap Address Nat) (gasUsed blockGasLimit : Nat)
    (entry : Sigma fun _ : Address => Transactions) : Option Candidate :=
  match entry.2.first with
  | none => none
  | some (nonce, transaction) =>
    if nonce ≠ (activeNonces.lookup entry.1).getD 0 ∨
      saturatingAdd gasUsed transaction.gasLimit > blockGasLimit then none
    else some ⟨entry.1, nonce, transaction.maxPriorityFeePerGas⟩

/-- Considering a sender holds on to the better of two candidates. -/
theorem considerSender_eq (best : Option Candidate) (entry : Sigma fun _ : Address => Transactions) :
    considerSender activeNonces gasUsed limit best entry =
      keepBest (fun candidate => candidate.tip.toNat) best
        (candidateOf activeNonces gasUsed limit entry) := by
  unfold considerSender candidateOf
  -- A sender without a lowest transaction changes nothing.
  cases entry.2.first with
  | none => rfl
  | some lowest =>
    obtain ⟨nonce, transaction⟩ := lowest
    simp only
    split
    · rfl
    · cases best with
      | none => rfl
      | some held => rfl

/-- The best candidate is the best of what the senders put up. -/
theorem bestCandidate_eq (iteration : PoolOrder) (bySender : HashMap Address Transactions) :
    bestCandidate iteration activeNonces gasUsed limit bySender =
      ((iteration.order bySender).map (candidateOf activeNonces gasUsed limit)).foldl
        (keepBest fun candidate => candidate.tip.toNat) none := by
  unfold bestCandidate
  rw [List.foldl_map]
  congr 1
  funext best entry
  exact considerSender_eq best entry

end Candidates

/-- The gas limits of some transactions together. -/
def gasSum (transactions : List PendingTx) : Nat :=
  transactions.foldl (fun sum transaction => sum + transaction.gasLimit) 0

/--
A transaction that may be taken next.

It is the lowest of its sender among those that wait, its nonce follows those taken before, and it
fits into what is left of the block.
-/
structure Executable (current : Address → Nat) (limit : Nat) (taken waiting : List PendingTx)
    (transaction : PendingTx) : Prop where
  waits : transaction ∈ waiting
  lowest : ∀ other ∈ waiting, other.sender = transaction.sender →
    transaction.nonce ≤ other.nonce
  next : transaction.nonce = current transaction.sender + countFrom transaction.sender taken
  fits : gasSum taken + transaction.gasLimit ≤ limit

/-- Only what waits matters, not in which order. -/
theorem Executable.of_perm {current : Address → Nat} {limit : Nat}
    {taken waiting waiting' : List PendingTx} {transaction : PendingTx}
    (executable : Executable current limit taken waiting transaction)
    (same : waiting.Perm waiting') : Executable current limit taken waiting' transaction where
  waits := same.mem_iff.mp executable.waits
  lowest := fun other member => executable.lowest other (same.mem_iff.mpr member)
  next := executable.next
  fits := executable.fits

section Moments

variable {current : Address → Nat} {limit : Nat} {selection next : Selection}
  {iteration : PoolOrder}

/-- The tables of a selection say what it has taken so far. -/
structure Sound (current : Address → Nat) (selection : Selection) : Prop where
  active : ∀ pending ∈ selection.pool.pending,
    (selection.activeNonces.lookup pending.sender).getD 0 =
      current pending.sender + countFrom pending.sender selection.selected
  gas : selection.gasUsed = gasSum selection.selected
  range : ∀ pending ∈ selection.pool.pending, pending.nonce ≤ u64Max

/-- The pending transactions of a sender are those listed under it. -/
theorem mem_pending_iff {pool : TxPool} {transaction : PendingTx} :
    transaction ∈ pool.pending ↔ ∃ transactions,
      pool.bySender.lookup transaction.sender = some transactions ∧
        (transaction.nonce, transaction) ∈ transactions.entries := by
  constructor
  · intro member
    obtain ⟨sender, transactions, listed, nonce, entry⟩ := mem_filedIn.mp member
    -- Every entry is filed under its own sender and its own nonce.
    obtain ⟨belongs, named, _⟩ := (pool.filed sender transactions listed).2 _ entry
    simp only at belongs named
    subst belongs named
    exact ⟨transactions, listed, entry⟩
  · rintro ⟨transactions, listed, entry⟩
    exact mem_filedIn.mpr ⟨_, transactions, listed, _, entry⟩

/-- The lowest pending transaction of a sender is the first one of its list. -/
theorem first_of_lowest {pool : TxPool} {transaction : PendingTx} {transactions : Transactions}
    (listed : pool.bySender.lookup transaction.sender = some transactions)
    (entry : (transaction.nonce, transaction) ∈ transactions.entries)
    (lowest : ∀ other ∈ pool.pending, other.sender = transaction.sender →
      transaction.nonce ≤ other.nonce) :
    transactions.first = some (transaction.nonce, transaction) := by
  cases front : transactions.first with
  | none =>
    have empty : transactions.entries = [] := List.head?_eq_none_iff.mp front
    rw [empty] at entry
    cases entry
  | some smallest =>
    obtain ⟨nonce, other⟩ := smallest
    have member := SortedMap.first_mem front
    obtain ⟨belongs, named, _⟩ := (pool.filed _ _ listed).2 _ member
    simp only at belongs named
    have le := SortedMap.first_le front entry
    have waits : other ∈ pool.pending := mem_filedIn.mpr ⟨_, transactions, listed, nonce, member⟩
    have ge := lowest other waits belongs
    -- The two have the same nonce, under which there is one transaction.
    obtain rfl : nonce = transaction.nonce := by
      simp only at le
      omega
    have one := SortedMap.lookup_eq_some_iff.mpr member
    have two := SortedMap.lookup_eq_some_iff.mpr entry
    rw [Option.some.inj (one.symm.trans two)]

/-- The first transaction of a list is the lowest pending one of its sender. -/
theorem lowest_of_first {pool : TxPool} {sender : Address} {transactions : Transactions}
    {nonce : Nat} {transaction : PendingTx}
    (listed : pool.bySender.lookup sender = some transactions)
    (front : transactions.first = some (nonce, transaction)) :
    transaction.sender = sender ∧ transaction.nonce = nonce ∧ transaction ∈ pool.pending ∧
      ∀ other ∈ pool.pending, other.sender = transaction.sender →
        transaction.nonce ≤ other.nonce := by
  have member := SortedMap.first_mem front
  obtain ⟨belongs, named, _⟩ := (pool.filed _ _ listed).2 _ member
  simp only at belongs named
  refine ⟨belongs, named, mem_filedIn.mpr ⟨_, _, listed, _, member⟩, fun other waits own => ?_⟩
  -- Another pending transaction of the sender is on the same list, behind the first.
  obtain ⟨found, there, entry⟩ := mem_pending_iff.mp waits
  rw [own, belongs, listed] at there
  obtain rfl := Option.some.inj there
  rw [named]
  exact SortedMap.first_le front entry

/-- Whatever may be taken is a candidate, with its tip. -/
theorem candidate_of_executable (sound : Sound current selection)
    {transaction : PendingTx}
    (executable : Executable current limit selection.selected selection.pool.pending transaction) :
    some ⟨transaction.sender, transaction.nonce, transaction.maxPriorityFeePerGas⟩ ∈
      (iteration.order selection.pool.bySender).map
        (candidateOf selection.activeNonces selection.gasUsed limit) := by
  obtain ⟨transactions, listed, entry⟩ := mem_pending_iff.mp executable.waits
  have front := first_of_lowest listed entry executable.lowest
  have active := sound.active transaction executable.waits
  have fits := executable.fits
  refine List.mem_map.mpr ⟨⟨transaction.sender, transactions⟩, ?_, ?_⟩
  · exact (iteration.order_perm _).mem_iff.mpr (AList.mem_lookup_iff.mp listed)
  · simp only [candidateOf, front]
    -- The gas fits and the nonce is the next one, so that neither check turns it away.
    rw [if_neg]
    rw [active, ← executable.next, sound.gas, saturatingAdd]
    omega

/-- A candidate is a transaction that may be taken, under its sender and nonce. -/
theorem executable_of_candidate (small : limit < u64Max) (sound : Sound current selection)
    {candidate : Candidate} (put : some candidate ∈
      (iteration.order selection.pool.bySender).map
        (candidateOf selection.activeNonces selection.gasUsed limit)) :
    ∃ transactions transaction,
      selection.pool.bySender.lookup candidate.sender = some transactions ∧
      transactions.first = some (candidate.nonce, transaction) ∧
      transaction.sender = candidate.sender ∧ transaction.nonce = candidate.nonce ∧
      transaction.maxPriorityFeePerGas = candidate.tip ∧
      Executable current limit selection.selected selection.pool.pending transaction := by
  obtain ⟨⟨sender, transactions⟩, member, put⟩ := List.mem_map.mp put
  have listed : selection.pool.bySender.lookup sender = some transactions :=
    AList.mem_lookup_iff.mpr ((iteration.order_perm _).mem_iff.mp member)
  simp only [candidateOf] at put
  split at put
  · cases put
  · rename_i nonce transaction front
    split at put
    · cases put
    · rename_i passes
      cases put
      obtain ⟨belongs, named, waits, lowest⟩ := lowest_of_first listed front
      obtain ⟨expected, fits⟩ := not_or.mp passes
      have active := sound.active transaction waits
      have gas := sound.gas
      refine ⟨transactions, transaction, listed, front, belongs, named, rfl, waits, lowest,
        ?_, ?_⟩
      · rw [named, ← active, belongs]
        exact Decidable.of_not_not expected
      · -- A sum that saturates would not fit below the largest number.
        unfold saturatingAdd at fits
        omega

/-- The tables are right after one more transaction has been taken. -/
theorem Sound.taken (small : limit < u64Max) (sound : Sound current selection)
    {transaction : PendingTx} {pool : TxPool} {sender : Address} {nonce : Nat}
    (belongs : transaction.sender = sender) (named : transaction.nonce = nonce)
    (executable : Executable current limit selection.selected selection.pool.pending transaction)
    (left : selection.pool.pending.Perm (transaction :: pool.pending))
    (higher : ∀ pending ∈ pool.pending, pending.sender = sender → nonce < pending.nonce) :
    Sound current {
      pool
      activeNonces := selection.activeNonces.insert sender (saturatingAdd nonce 1)
      gasUsed := saturatingAdd selection.gasUsed transaction.gasLimit
      selected := selection.selected ++ [transaction] } := by
  subst belongs named
  have stays : ∀ pending ∈ pool.pending, pending ∈ selection.pool.pending :=
    fun pending member => left.mem_iff.mpr (List.mem_cons_of_mem _ member)
  constructor
  · intro pending member
    have range := sound.range pending (stays pending member)
    simp only [countFrom_append, countFrom_cons]
    by_cases own : pending.sender = transaction.sender
    · -- Something of this sender is left, so its next nonce is still in range.
      have above := higher pending member own
      have next := executable.next
      rw [own, AList.lookup_insert, Option.getD_some, if_pos rfl, saturatingAdd]
      simp only [countFrom, List.countP_nil] at next ⊢
      omega
    · rw [AList.lookup_insert_ne own, if_neg (Ne.symm own)]
      exact sound.active pending (stays pending member)
  · have fits := executable.fits
    have gas := sound.gas
    simp only [gasSum, List.foldl_append, List.foldl_cons, List.foldl_nil, saturatingAdd]
      at fits gas ⊢
    omega
  · exact fun pending member => sound.range pending (stays pending member)

/-- One round takes a transaction that may be taken and has the highest tip of those. -/
theorem advance_takes_best (small : limit < u64Max) (sound : Sound current selection)
    (advanced : selection.advance iteration limit = some next) :
    ∃ transaction, next.selected = selection.selected ++ [transaction] ∧
      selection.pool.pending.Perm (transaction :: next.pool.pending) ∧
      Executable current limit selection.selected selection.pool.pending transaction ∧
      (∀ other, Executable current limit selection.selected selection.pool.pending other →
        other.maxPriorityFeePerGas ≤ transaction.maxPriorityFeePerGas) ∧
      Sound current next := by
  unfold Selection.advance at advanced
  split at advanced
  · cases advanced
  · rename_i best chosen
    rw [bestCandidate_eq] at chosen
    obtain ⟨transactions, transaction, listed, front, belongs, named, tip, executable⟩ :=
      executable_of_candidate small sound
        ((mem_of_foldl_keepBest chosen).resolve_left (by simp))
    have found := SortedMap.lookup_eq_some_iff.mpr (SortedMap.first_mem front)
    split at advanced
    · cases advanced
    · rename_i transactions' listed'
      obtain rfl := Option.some.inj (listed.symm.trans listed')
      rw [found] at advanced
      obtain rfl := Option.some.inj advanced
      have left := withoutTransaction_perm listed found
      refine ⟨transaction, rfl, left, executable, fun other also => ?_, ?_⟩
      · -- Another transaction that may be taken was a candidate too.
        obtain ⟨kept, same, le⟩ := foldl_keepBest_of_mem (candidate_of_executable sound also) none
        obtain rfl := Option.some.inj (chosen.symm.trans same)
        rw [tip]
        exact le
      · refine sound.taken small belongs named executable left fun pending member own => ?_
        exact lt_of_withoutTransaction selection.pool.filed listed front member own

/--
Each transaction of a list was the best one when its turn came.

Before its turn the ones in front of it had been taken, and the rest of the list and what was left
at the end were still waiting.
-/
def BestInTurn (current : Address → Nat) (limit : Nat) (taken chosen left : List PendingTx) :
    Prop :=
  ∀ before transaction after, chosen = before ++ transaction :: after →
    Executable current limit (taken ++ before) (transaction :: after ++ left) transaction ∧
    ∀ other, Executable current limit (taken ++ before) (transaction :: after ++ left) other →
      other.maxPriorityFeePerGas ≤ transaction.maxPriorityFeePerGas

theorem BestInTurn.nil {taken left : List PendingTx} : BestInTurn current limit taken [] left := by
  intro before transaction after split
  simp at split

/-- A best transaction comes first, and those that follow are chosen as if it had been taken. -/
theorem BestInTurn.cons {taken chosen left waiting : List PendingTx} {transaction : PendingTx}
    (waits : waiting.Perm (transaction :: chosen ++ left))
    (executable : Executable current limit taken waiting transaction)
    (best : ∀ other, Executable current limit taken waiting other →
      other.maxPriorityFeePerGas ≤ transaction.maxPriorityFeePerGas)
    (later : BestInTurn current limit (taken ++ [transaction]) chosen left) :
    BestInTurn current limit taken (transaction :: chosen) left := by
  intro before found after split
  cases before with
  | nil =>
    -- Its own turn is the first one.
    obtain ⟨rfl, rfl⟩ := List.cons.inj split
    rw [List.append_nil]
    exact ⟨executable.of_perm waits, fun other also => best other (also.of_perm waits.symm)⟩
  | cons first before =>
    obtain ⟨rfl, rest⟩ := List.cons.inj split
    have turn := later before found after rest
    rw [List.append_assoc] at turn
    exact turn

/-- The rounds of a selection take the best transaction, one after the other. -/
theorem loop_takes_best (small : limit < u64Max) (rounds : Nat)
    (sound : Sound current selection) :
    ∃ chosen,
      (popExecutable.loop iteration limit rounds selection).selected =
        selection.selected ++ chosen ∧
      BestInTurn current limit selection.selected chosen
        (popExecutable.loop iteration limit rounds selection).pool.pending ∧
      Sound current (popExecutable.loop iteration limit rounds selection) := by
  -- By induction on the rounds: the first one takes the best, the others go on from there.
  induction rounds generalizing selection with
  | zero => exact ⟨[], (List.append_nil _).symm, .nil, sound⟩
  | succ rounds ih =>
    simp only [popExecutable.loop]
    cases advanced : selection.advance iteration limit with
    | none => exact ⟨[], (List.append_nil _).symm, .nil, sound⟩
    | some next =>
      obtain ⟨transaction, taken, left, executable, best, sound'⟩ :=
        advance_takes_best small sound advanced
      obtain ⟨chosen, selected, later, final⟩ := ih sound'
      refine ⟨transaction :: chosen, ?_, ?_, final⟩
      · simp only
        rw [selected, taken, List.append_assoc, List.singleton_append]
      · -- What waited after the round is chosen later or left at the end.
        have kept := @loop_perm iteration limit rounds next
        rw [selected, List.append_assoc] at kept
        have waits := (List.perm_append_left_iff _).mp kept
        rw [taken] at later
        exact BestInTurn.cons (left.trans (waits.cons _)) executable best later

/-- In what was chosen the nonces of a sender follow one another. -/
theorem BestInTurn.sequential {chosen left : List PendingTx}
    (best : BestInTurn current limit [] chosen left) (sender : Address) :
    ((chosen.filter fun transaction => transaction.sender = sender).map PendingTx.nonce) =
      List.range' (current sender) (countFrom sender chosen) := by
  -- From the end: the last one waits until all before it have been taken.
  induction chosen using List.reverseRecOn generalizing left with
  | nil => rfl
  | append_singleton chosen last ih =>
    have before : BestInTurn current limit [] chosen (last :: left) := by
      intro front transaction after split
      have turn := best front transaction (after ++ [last]) (by simp [split])
      simpa using turn
    have next := (best chosen last [] rfl).1.next
    have earlier := ih before
    rw [List.filter_append, List.map_append, earlier, countFrom_append, countFrom_cons]
    by_cases own : last.sender = sender
    · rw [List.nil_append, own] at next
      simp only [own, decide_true, List.filter_cons_of_pos, List.filter_nil, List.map_cons,
        List.map_nil, next, if_true, countFrom, List.countP_nil, Nat.zero_add]
      exact (List.range'_1_concat).symm
    · simp [own, countFrom]

/-- What was chosen fits into the block. -/
theorem BestInTurn.gasSum_le {chosen left : List PendingTx}
    (best : BestInTurn current limit [] chosen left) : gasSum chosen ≤ limit := by
  rcases List.eq_nil_or_concat' chosen with rfl | ⟨front, last, rfl⟩
  · exact Nat.zero_le _
  · -- The last one was only taken because the sum still fitted.
    have fits := (best front last [] rfl).1.fits
    simpa [gasSum] using fits

/-- What may be taken is taken in the next round. -/
theorem not_executable_of_exhausted (sound : Sound current selection)
    (small : limit < u64Max)
    (exhausted : selection.advance iteration limit = none) (transaction : PendingTx) :
    ¬ Executable current limit selection.selected selection.pool.pending transaction := by
  intro executable
  -- There is a best candidate, and the pool holds it.
  obtain ⟨kept, chosen, _⟩ := foldl_keepBest_of_mem (candidate_of_executable sound executable) none
  obtain ⟨transactions, found, listed, front, _⟩ := executable_of_candidate small sound
    ((mem_of_foldl_keepBest chosen).resolve_left (by simp))
  have entry := SortedMap.lookup_eq_some_iff.mpr (SortedMap.first_mem front)
  unfold Selection.advance at exhausted
  rw [bestCandidate_eq, chosen] at exhausted
  simp only at exhausted
  split at exhausted
  · rename_i missing
    rw [listed] at missing
    cases missing
  · rename_i transactions' listed'
    obtain rfl := Option.some.inj (listed.symm.trans listed')
    rw [entry] at exhausted
    cases exhausted

end Moments

/-- The pools that insertions and selections lead to. -/
inductive PoolReached : TxPool → Prop
  | new : PoolReached .new
  | withMinTip (minTip : Word) : PoolReached (.withMinTip minTip)
  /-- A transaction is filed; its nonce is a 64-bit number. -/
  | insert {pool pool' : TxPool} {sender : Address} {tx : SignedTransaction} {raw : Bytes} :
      PoolReached pool → tx.nonce ≤ u64Max → pool.insert sender tx raw = .ok pool' →
        PoolReached pool'
  /-- Transactions are taken out for some block. -/
  | popExecutable {pool : TxPool} (iteration : PoolOrder) (currentNonces : HashMap Address Nat)
      (blockGasLimit : Nat) :
      PoolReached pool →
        PoolReached (pool.popExecutable iteration currentNonces blockGasLimit).2

/-- The nonces in such a pool are 64-bit numbers. -/
theorem PoolReached.nonce_le {pool : TxPool} (reached : PoolReached pool) {pending : PendingTx}
    (member : pending ∈ pool.pending) : pending.nonce ≤ u64Max := by
  induction reached with
  | new => cases member
  | withMinTip minTip => cases member
  | insert before range inserted ih =>
    rcases mem_pending_of_insert inserted member with ⟨_, _, named⟩ | old
    · omega
    · exact ih old
  | popExecutable iteration currentNonces blockGasLimit before ih =>
    -- What is left was there before.
    exact ih ((popExecutable_perm _ currentNonces).mem_iff.mpr
      (List.mem_append_right _ member))

/-- Where the nonces of a sender start: at the listed one, else at zero. -/
def currentNonce (currentNonces : HashMap Address Nat) (sender : Address) : Nat :=
  (currentNonces.lookup sender).getD 0

/--
The selection for a block is sound and maximal.

What is taken and what is left are the pool; the nonces of each sender follow one another from the
current one; the gas limits fit into the block; each transaction has the highest tip of those that
could be taken in its turn; and nothing that is left could be taken.
-/
theorem selection_sound_and_maximal (pool : TxPool) (reached : PoolReached pool)
    (iteration : PoolOrder) (currentNonces : HashMap Address Nat) (blockGasLimit : Nat)
    (small : blockGasLimit < u64Max) (taken : List PendingTx) (left : TxPool)
    (popped : pool.popExecutable iteration currentNonces blockGasLimit = (taken, left)) :
    pool.pending.Perm (taken ++ left.pending) ∧
    (∀ sender, ((taken.filter fun transaction => transaction.sender = sender).map
        PendingTx.nonce) =
      List.range' (currentNonce currentNonces sender) (countFrom sender taken)) ∧
    gasSum taken ≤ blockGasLimit ∧
    BestInTurn (currentNonce currentNonces) blockGasLimit [] taken left.pending ∧
    ∀ transaction, ¬ Executable (currentNonce currentNonces) blockGasLimit taken left.pending
      transaction := by
  have sound : Sound (currentNonce currentNonces)
      { pool, activeNonces := currentNonces, gasUsed := 0, selected := [] } :=
    ⟨fun pending _ => rfl, rfl, fun pending member => reached.nonce_le member⟩
  obtain ⟨chosen, selected, best, final⟩ :=
    @loop_takes_best _ _ _ iteration small pool.len sound
  have exhausted := not_executable_of_exhausted final small
    (@loop_exhausts iteration blockGasLimit _ _ (Nat.le_refl pool.len))
  have perm := @popExecutable_perm iteration blockGasLimit pool currentNonces
  rw [popped] at perm
  -- What was chosen is the whole result.
  obtain ⟨rfl, rfl⟩ := Prod.mk.inj popped
  rw [List.nil_append] at selected
  rw [← selected] at best
  exact ⟨perm, best.sequential, best.gasSum_le, best, exhausted⟩

/-- A transaction with a nonce and a tip. -/
def bid (nonce : Nat) (tip : Word) : SignedTransaction where
  hash := 0
  txType := .legacy
  chainId := some 1
  nonce
  gasLimit := 21000
  maxFeePerGas := tip
  maxPriorityFeePerGas := tip
  to_ := none
  value := 0
  data := []
  sender := 0

/-- A pool after a transaction was offered, whether it was taken or not. -/
def TxPool.offered (pool : TxPool) (sender : Address) (tx : SignedTransaction) : TxPool :=
  (pool.insert sender tx []).toOption.getD pool

theorem PoolReached.offered {pool : TxPool} (reached : PoolReached pool) (sender : Address)
    {tx : SignedTransaction} (range : tx.nonce ≤ u64Max) :
    PoolReached (pool.offered sender tx) := by
  unfold TxPool.offered
  cases inserted : pool.insert sender tx [] with
  | error reason => exact reached
  | ok pool' => exact reached.insert range inserted

/-- Two transactions of one sender, the later one with the highest tip, and one of another. -/
def threeBids : TxPool :=
  ((TxPool.new.offered 1 (bid 0 1)).offered 1 (bid 1 100)).offered 2 (bid 0 10)

/-- The better of the two lowest ones is taken first, and the highest tip waits for its nonce. -/
theorem selection_of_three_bids :
    ((threeBids.popExecutable .listed ∅ 63000).1.map fun transaction =>
      (transaction.sender, transaction.nonce)) = [(2, 0), (1, 0), (1, 1)] ∧
    BestInTurn (currentNonce ∅) 63000 [] (threeBids.popExecutable .listed ∅ 63000).1
      (threeBids.popExecutable .listed ∅ 63000).2.pending := by
  -- The pool is reached by offering the three transactions to an empty one.
  have reached : PoolReached threeBids :=
    ((PoolReached.new.offered 1 (by decide)).offered 1 (by decide)).offered 2 (by decide)
  constructor
  · decide +kernel
  · exact (selection_sound_and_maximal threeBids reached .listed ∅ 63000 (by decide) _ _ rfl).2.2.2.1

end MiniEvm
