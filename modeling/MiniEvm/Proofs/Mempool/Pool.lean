import MiniEvm.Mempool.Pool

/-! The selection of transactions: what is taken out and what stays behind. -/

namespace MiniEvm

open Collections

variable {iteration : PoolOrder} {limit : Nat}

/-- One sender's transactions and those of all others make up the files. -/
theorem filedIn_perm {bySender : HashMap Address Transactions} {sender : Address}
    {transactions : Transactions} (listed : bySender.lookup sender = some transactions) :
    (filedIn bySender).Perm (transactions.values ++ filedIn (bySender.erase sender)) := by
  have present : sender ∈ bySender.entries.keys :=
    AList.lookup_isSome.mp (Option.isSome_of_eq_some listed)
  obtain ⟨found, before, after, fresh, split, erased⟩ := List.exists_of_kerase present
  -- The sender is listed once, so what is found there is what was looked up.
  have here : (⟨sender, found⟩ : Sigma fun _ : Address => Transactions) ∈ bySender.entries := by
    rw [split]
    exact List.mem_append_right _ List.mem_cons_self
  have same : found = transactions := by
    have looked : bySender.lookup sender = some found := AList.mem_lookup_iff.mpr here
    rw [listed] at looked
    exact (Option.some.inj looked).symm
  subst same
  have rest : (bySender.erase sender).entries = before ++ after := erased
  simp only [filedIn, split, rest, List.flatMap_append, List.flatMap_cons]
  -- The sender's own transactions are brought to the front.
  rw [← List.append_assoc, ← List.append_assoc]
  exact List.perm_append_comm.append_right _

/-- Taking a transaction out leaves all others where they were. -/
theorem withoutTransaction_perm {bySender : HashMap Address Transactions} {sender : Address}
    {transactions : Transactions} {nonce : Nat} {transaction : PendingTx}
    (listed : bySender.lookup sender = some transactions)
    (found : transactions.lookup nonce = some transaction) :
    (filedIn bySender).Perm
      (transaction :: filedIn (withoutTransaction bySender sender transactions nonce)) := by
  have own : transactions.values.Perm (transaction :: (transactions.remove nonce).values) :=
    (SortedMap.perm_remove (SortedMap.lookup_eq_some_iff.mp found)).map Prod.snd
  apply ((filedIn_perm listed).trans (own.append_right _)).trans
  rw [List.cons_append]
  apply List.Perm.cons
  simp only [withoutTransaction]
  split
  · -- Nothing of the sender is left, and the sender is gone.
    rename_i none_
    rw [List.isEmpty_iff] at none_
    simp [SortedMap.values, none_]
  · simp only [filedIn, AList.entries_insert, List.flatMap_cons]
    exact List.Perm.refl _

/-- A filed transaction is one of its sender's. -/
theorem mem_filedIn {bySender : HashMap Address Transactions} {pending : PendingTx} :
    pending ∈ filedIn bySender ↔ ∃ sender transactions,
      bySender.lookup sender = some transactions ∧ ∃ nonce, (nonce, pending) ∈ transactions.entries := by
  simp only [filedIn, List.mem_flatMap, SortedMap.values, List.mem_map]
  constructor
  · rintro ⟨⟨sender, transactions⟩, listed, ⟨nonce, _⟩, member, rfl⟩
    exact ⟨sender, transactions, AList.mem_lookup_iff.mpr listed, nonce, member⟩
  · rintro ⟨sender, transactions, listed, nonce, member⟩
    exact ⟨⟨sender, transactions⟩, AList.mem_lookup_iff.mp listed, _, member, rfl⟩

/-- A pool that took a transaction holds that one and what it held before. -/
theorem mem_pending_of_insert {pool pool' : TxPool} {sender : Address} {tx : SignedTransaction}
    {raw : Bytes} {pending : PendingTx} (inserted : pool.insert sender tx raw = .ok pool')
    (member : pending ∈ pool'.pending) :
    (pending.sender = sender ∧ pending.tx = tx ∧ pending.nonce = tx.nonce) ∨
      pending ∈ pool.pending := by
  unfold TxPool.insert at inserted
  split at inserted
  · cases inserted
  · simp only at inserted
    split at inserted
    · cases inserted
    · cases inserted
      obtain ⟨other, transactions, listed, nonce, filed⟩ := mem_filedIn.mp member
      simp only at listed
      by_cases same : other = sender
      · subst same
        rw [AList.lookup_insert] at listed
        obtain rfl := Option.some.inj listed
        -- The sender's list has the new entry beside the old ones.
        rcases SortedMap.mem_insert filed with new | old
        · cases new
          exact .inl ⟨rfl, rfl, rfl⟩
        · cases before : pool.bySender.lookup other with
          | none =>
            rw [before] at old
            cases old
          | some found =>
            rw [before] at old
            exact .inr (mem_filedIn.mpr ⟨other, found, before, nonce, old⟩)
      · rw [AList.lookup_insert_ne same] at listed
        exact .inr (mem_filedIn.mpr ⟨other, transactions, listed, nonce, filed⟩)

/-- A candidate is the lowest transaction of its sender. -/
def Lowest (bySender : HashMap Address Transactions) (candidate : Candidate) : Prop :=
  ∃ transactions transaction, bySender.lookup candidate.sender = some transactions ∧
    transactions.first = some (candidate.nonce, transaction)

/-- The best candidate is the lowest transaction of its sender. -/
theorem lowest_of_bestCandidate {activeNonces : HashMap Address Nat} {gasUsed : Nat}
    {bySender : HashMap Address Transactions} {candidate : Candidate}
    (best : bestCandidate iteration activeNonces gasUsed limit bySender = some candidate) :
    Lowest bySender candidate := by
  -- So is every candidate on the way.
  have sofar : ∀ found, bestCandidate iteration activeNonces gasUsed limit bySender = some found →
      Lowest bySender found := by
    unfold bestCandidate
    refine List.foldlRecOn (motive := fun best : Option Candidate =>
      ∀ found, best = some found → Lowest bySender found) _ _ (fun _ none_ => by cases none_) ?_
    intro best before entry member found considered
    have listed : bySender.lookup entry.1 = some entry.2 :=
      AList.mem_lookup_iff.mpr ((iteration.order_perm bySender).mem_iff.mp member)
    simp only [considerSender] at considered
    split at considered
    · exact before found considered
    · rename_i first
      split at considered
      · exact before found considered
      · split at considered
        · cases considered
          exact ⟨entry.2, _, listed, first⟩
        · split at considered
          · cases considered
            exact ⟨entry.2, _, listed, first⟩
          · exact before found considered
  exact sofar candidate best

/-- What stays of a sender lies above the lowest transaction, which was taken. -/
theorem lt_of_withoutTransaction {bySender : HashMap Address Transactions} (filed : Filed bySender)
    {sender : Address} {transactions : Transactions} {nonce : Nat} {transaction : PendingTx}
    (listed : bySender.lookup sender = some transactions)
    (first : transactions.first = some (nonce, transaction)) {pending : PendingTx}
    (member : pending ∈ filedIn (withoutTransaction bySender sender transactions nonce))
    (own : pending.sender = sender) : nonce < pending.nonce := by
  obtain ⟨other, found, there, key, entry⟩ := mem_filedIn.mp member
  obtain ⟨_, entries⟩ := filed.without nonce listed other found there
  obtain ⟨belongs, named, _⟩ := entries _ entry
  simp only at belongs named
  obtain rfl : other = sender := belongs.symm.trans own
  -- The sender is still listed, so its list is what was left of it.
  have rest : found = transactions.remove nonce := by
    simp only [withoutTransaction] at there
    split at there
    · rw [AList.lookup_erase] at there
      cases there
    · rw [AList.lookup_insert] at there
      exact (Option.some.inj there).symm
  subst rest
  obtain ⟨old, ne⟩ := SortedMap.mem_remove.mp entry
  have le : nonce ≤ key := SortedMap.first_le first old
  simp only at ne
  omega

/-- One round takes one transaction out of the pool, the lowest of its sender. -/
theorem advance_takes {selection next : Selection}
    (advanced : selection.advance iteration limit = some next) :
    ∃ transaction, next.selected = selection.selected ++ [transaction] ∧
      selection.pool.pending.Perm (transaction :: next.pool.pending) ∧
      ∀ pending ∈ next.pool.pending, pending.sender = transaction.sender →
        transaction.nonce < pending.nonce := by
  unfold Selection.advance at advanced
  split at advanced
  · cases advanced
  · rename_i best chosen
    split at advanced
    · cases advanced
    · rename_i transactions listed
      split at advanced
      · cases advanced
      · rename_i transaction found
        obtain rfl := Option.some.inj advanced
        refine ⟨transaction, rfl, withoutTransaction_perm listed found, ?_⟩
        intro pending member own
        obtain ⟨_, entries⟩ := selection.pool.filed best.sender transactions listed
        obtain ⟨belongs, named, _⟩ := entries _ (SortedMap.lookup_eq_some_iff.mp found)
        -- The candidate came first in its list.
        obtain ⟨transactions', lowest, listed', first⟩ := lowest_of_bestCandidate chosen
        obtain rfl := Option.some.inj (listed.symm.trans listed')
        rw [named]
        exact lt_of_withoutTransaction selection.pool.filed listed first member
          (own.trans belongs)

/-- Whatever is no longer in the pool has been selected, and nothing else. -/
theorem loop_perm (rounds : Nat) (selection : Selection) :
    (selection.selected ++ selection.pool.pending).Perm
      ((popExecutable.loop iteration limit rounds selection).selected ++
        (popExecutable.loop iteration limit rounds selection).pool.pending) := by
  induction rounds generalizing selection with
  | zero => exact List.Perm.refl _
  | succ rounds ih =>
    simp only [popExecutable.loop]
    cases advanced : selection.advance iteration limit with
    | none => exact List.Perm.refl _
    | some next =>
      obtain ⟨transaction, taken, left, _⟩ := advance_takes advanced
      -- What a round takes it appends to the selection, and the later rounds do so too.
      apply List.Perm.trans _ (ih next)
      rw [taken, List.append_assoc]
      exact left.append_left _

/-- Selected and left behind, together, are what was in the pool. -/
theorem popExecutable_perm (pool : TxPool) (currentNonces : HashMap Address Nat) :
    pool.pending.Perm ((pool.popExecutable iteration currentNonces limit).1 ++
      (pool.popExecutable iteration currentNonces limit).2.pending) :=
  loop_perm pool.len { pool, activeNonces := currentNonces, gasUsed := 0, selected := [] }

/-- How many of some transactions are by one sender. -/
def countFrom (sender : Address) (transactions : List PendingTx) : Nat :=
  transactions.countP fun transaction => transaction.sender = sender

theorem countFrom_append (sender : Address) (first second : List PendingTx) :
    countFrom sender (first ++ second) = countFrom sender first + countFrom sender second :=
  List.countP_append

theorem countFrom_cons (sender : Address) (transaction : PendingTx) (rest : List PendingTx) :
    countFrom sender (transaction :: rest) = countFrom sender rest +
      if transaction.sender = sender then 1 else 0 := by
  simp [countFrom, List.countP_cons]

/-- Every pending transaction lies above a floor by as many nonces as its sender has selected. -/
def Above (floor : Address → Nat) (selected : List PendingTx) (pool : TxPool) : Prop :=
  ∀ pending ∈ pool.pending, floor pending.sender + countFrom pending.sender selected ≤ pending.nonce

/-- Taking the lowest transaction of a sender leaves the others above it. -/
theorem Above.advance {floor : Address → Nat} {selection next : Selection}
    (above : Above floor selection.selected selection.pool)
    (advanced : selection.advance iteration limit = some next) :
    Above floor next.selected next.pool := by
  obtain ⟨transaction, taken, left, lowest⟩ := advance_takes advanced
  intro pending member
  have taken' := above transaction (left.mem_iff.mpr List.mem_cons_self)
  have before := above pending (left.mem_iff.mpr (List.mem_cons_of_mem _ member))
  rw [taken, countFrom_append, countFrom_cons]
  -- The count of a sender grows with its own transactions only.
  split
  · rename_i own
    have higher := lowest pending member own.symm
    rw [own] at taken'
    simp only [countFrom, List.countP_nil]
    simp only [countFrom] at taken'
    omega
  · simp only [countFrom, List.countP_nil]
    simp only [countFrom] at before
    omega

/-- So does any number of rounds. -/
theorem Above.loop {floor : Address → Nat} (rounds : Nat) {selection : Selection}
    (above : Above floor selection.selected selection.pool) :
    Above floor (popExecutable.loop iteration limit rounds selection).selected
      (popExecutable.loop iteration limit rounds selection).pool := by
  induction rounds generalizing selection with
  | zero => exact above
  | succ rounds ih =>
    simp only [popExecutable.loop]
    cases advanced : selection.advance iteration limit with
    | none => exact above
    | some next => exact ih (above.advance advanced)

/-- A selection leaves every pending transaction above those that it took from its sender. -/
theorem above_popExecutable {floor : Address → Nat} {pool : TxPool}
    (currentNonces : HashMap Address Nat) (above : Above floor [] pool) :
    Above floor (pool.popExecutable iteration currentNonces limit).1
      (pool.popExecutable iteration currentNonces limit).2 :=
  Above.loop pool.len above

/-- The selection goes on until nothing more fits. -/
theorem loop_exhausts {rounds : Nat} {selection : Selection}
    (enough : selection.pool.len ≤ rounds) :
    (popExecutable.loop iteration limit rounds selection).advance iteration limit = none := by
  induction rounds generalizing selection with
  | zero =>
    simp only [popExecutable.loop]
    cases advanced : selection.advance iteration limit with
    | none => rfl
    | some next =>
      -- A round would have needed a transaction to take.
      obtain ⟨transaction, _, left, _⟩ := advance_takes advanced
      have length := left.length_eq
      simp only [TxPool.len] at enough
      simp only [List.length_cons] at length
      omega
  | succ rounds ih =>
    simp only [popExecutable.loop]
    cases advanced : selection.advance iteration limit with
    | none => exact advanced
    | some next =>
      obtain ⟨transaction, _, left, _⟩ := advance_takes advanced
      have length := left.length_eq
      apply ih
      simp only [TxPool.len] at enough ⊢
      simp only [List.length_cons] at length
      omega

end MiniEvm
