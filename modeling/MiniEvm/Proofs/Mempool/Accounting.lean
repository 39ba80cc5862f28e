import MiniEvm.Proofs.Mempool.Pool

/-! What the pool holds: one insertion adds one transaction, and takes no other one away. -/

namespace MiniEvm

open Collections

/-- Filing a sender's list anew replaces what was filed under that sender before. -/
theorem filedIn_insert_perm {bySender : HashMap Address Transactions} {sender : Address}
    {pending : PendingTx} {nonce : Nat}
    (fresh : ((bySender.lookup sender).getD .empty).contains nonce = false) :
    (filedIn (bySender.insert sender
      (((bySender.lookup sender).getD .empty).insert nonce pending))).Perm
        (pending :: filedIn bySender) := by
  have own : (((bySender.lookup sender).getD .empty).insert nonce pending).values.Perm
      (pending :: ((bySender.lookup sender).getD .empty).values) :=
    (SortedMap.perm_insert fresh).map Prod.snd
  have split : filedIn (bySender.insert sender
      (((bySender.lookup sender).getD .empty).insert nonce pending)) =
        (((bySender.lookup sender).getD .empty).insert nonce pending).values ++
          filedIn (bySender.erase sender) := by
    simp only [filedIn, AList.entries_insert, List.flatMap_cons]
    rfl
  rw [split]
  refine (own.append_right _).trans ?_
  rw [List.cons_append]
  apply List.Perm.cons
  -- What was filed under the sender is still there, beside what was filed under all others.
  cases listed : bySender.lookup sender with
  | some transactions => exact (filedIn_perm listed).symm
  | none =>
    have absent : sender ∉ bySender.entries.keys := by
      intro present
      have found := AList.lookup_isSome.mpr present
      rw [listed] at found
      cases found
    have same : bySender.erase sender = bySender :=
      AList.ext (List.kerase_of_notMem_keys absent)
    rw [same]
    exact List.Perm.refl _

/-- A pool that took a transaction holds that one, once, beside all that it held before. -/
theorem pending_insert_perm {pool pool' : TxPool} {sender : Address} {tx : SignedTransaction}
    {raw : Bytes} (inserted : pool.insert sender tx raw = .ok pool') :
    ∃ pending : PendingTx, pending.tx = tx ∧ pending.sender = sender ∧ pending.raw = raw ∧
      pool'.pending.Perm (pending :: pool.pending) := by
  unfold TxPool.insert at inserted
  split at inserted
  · cases inserted
  · simp only at inserted
    split at inserted
    · cases inserted
    · rename_i absent
      cases inserted
      exact ⟨_, rfl, rfl, rfl, filedIn_insert_perm (by simpa using absent)⟩

end MiniEvm
