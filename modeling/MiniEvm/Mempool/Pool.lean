import MiniEvm.Collections.SortedMap
import MiniEvm.Vm.Runner

/-! The pool of pending transactions: filing them, and taking out what a block can execute. -/

namespace MiniEvm

open Collections

/-- A transaction that waits for a block, with what the selection goes by. -/
structure PendingTx where
  raw : Bytes
  tx : SignedTransaction
  sender : Address
  nonce : Nat
  maxPriorityFeePerGas : Word
  gasLimit : Nat

/-- The transactions of one sender, lowest nonce first. -/
abbrev Transactions := SortedMap Nat PendingTx

/-- A pending transaction repeats what its transaction says. -/
structure PendingTx.Faithful (pending : PendingTx) : Prop where
  nonce : pending.nonce = pending.tx.nonce
  gasLimit : pending.gasLimit = pending.tx.gasLimit
  tip : pending.maxPriorityFeePerGas = pending.tx.maxPriorityFeePerGas

/-- Every transaction is filed under its sender and its nonce, and no sender is listed in vain. -/
def Filed (bySender : HashMap Address Transactions) : Prop :=
  ∀ sender transactions, bySender.lookup sender = some transactions →
    transactions.entries ≠ [] ∧ ∀ entry ∈ transactions.entries,
      entry.2.sender = sender ∧ entry.2.nonce = entry.1 ∧ entry.2.Faithful

/-- Everything filed, sender after sender. -/
def filedIn (bySender : HashMap Address Transactions) : List PendingTx :=
  bySender.entries.flatMap fun entry => entry.2.values

/-- Filing a transaction under its own sender and nonce keeps the files in order. -/
theorem Filed.insert {bySender : HashMap Address Transactions} (filed : Filed bySender)
    {sender : Address} {pending : PendingTx} (own : pending.sender = sender)
    (faithful : pending.Faithful) :
    Filed (bySender.insert sender
      (((bySender.lookup sender).getD .empty).insert pending.nonce pending)) := by
  intro other transactions found
  by_cases same : other = sender
  · subst same
    rw [AList.lookup_insert] at found
    obtain rfl := Option.some.inj found
    constructor
    · -- Whatever was there before, there is one entry now.
      generalize (bySender.lookup other).getD .empty = before
      simp only [SortedMap.insert]
      cases before.entries with
      | nil => simp [SortedMap.insertEntry]
      | cons entry rest =>
        simp only [SortedMap.insertEntry]
        split
        · simp
        · split <;> simp
    · intro entry member
      rcases SortedMap.mem_insert member with rfl | old
      · exact ⟨own, rfl, faithful⟩
      · cases listed : bySender.lookup other with
        | none =>
          rw [listed] at old
          cases old
        | some before =>
          rw [listed] at old
          exact (filed other before listed).2 entry old
  · rw [AList.lookup_insert_ne same] at found
    exact filed other transactions found

/-- The files without one transaction, and without its sender if that was the last one. -/
def withoutTransaction (bySender : HashMap Address Transactions) (sender : Address)
    (transactions : Transactions) (nonce : Nat) : HashMap Address Transactions :=
  let rest := transactions.remove nonce
  if rest.entries.isEmpty then bySender.erase sender else bySender.insert sender rest

/-- Taking a transaction out keeps the files in order. -/
theorem Filed.without {bySender : HashMap Address Transactions} (filed : Filed bySender)
    {sender : Address} {transactions : Transactions} (nonce : Nat)
    (listed : bySender.lookup sender = some transactions) :
    Filed (withoutTransaction bySender sender transactions nonce) := by
  intro other found lookup
  simp only [withoutTransaction] at lookup
  by_cases same : other = sender
  · subst same
    -- The sender is gone together with its last transaction.
    split at lookup
    · rw [AList.lookup_erase] at lookup
      cases lookup
    · rename_i left
      rw [AList.lookup_insert] at lookup
      obtain rfl := Option.some.inj lookup
      refine ⟨by simpa using left, fun entry member => ?_⟩
      exact (filed other transactions listed).2 entry (SortedMap.mem_remove.mp member).1
  · split at lookup
    · rw [AList.lookup_erase_ne same] at lookup
      exact filed other found lookup
    · rw [AList.lookup_insert_ne same] at lookup
      exact filed other found lookup

/-- The pool, whose transactions are filed under their senders and nonces. -/
structure TxPool where
  bySender : HashMap Address Transactions
  minTip : Word
  filed : Filed bySender

/-- The order in which the senders of a pool happen to be iterated. -/
structure PoolOrder where
  order : HashMap Address Transactions → List (Sigma fun _ : Address => Transactions)
  order_perm : ∀ bySender, (order bySender).Perm bySender.entries

/-- The senders of a pool as they are listed. -/
def PoolOrder.listed : PoolOrder where
  order bySender := bySender.entries
  order_perm _ := List.Perm.refl _

namespace TxPool

def new : TxPool where
  bySender := ∅
  minTip := 0
  filed := by
    intro sender transactions found
    simp at found

/-- An empty pool that asks for a tip. -/
def withMinTip (minTip : Word) : TxPool := { new with minTip }

/-- Files a transaction under its sender and nonce, unless that place is taken. -/
def insert (pool : TxPool) (sender : Address) (tx : SignedTransaction) (raw : Bytes) :
    Except String TxPool :=
  -- The tip is compared with the minimum before the place is looked at.
  if tx.maxPriorityFeePerGas < pool.minTip then
    .error "transaction tip is below the pool minimum"
  else
    let transactions := (pool.bySender.lookup sender).getD .empty
    if transactions.contains tx.nonce then .error "replacement transactions are not supported"
    else
      let pending : PendingTx := {
        raw
        tx
        sender
        nonce := tx.nonce
        maxPriorityFeePerGas := tx.maxPriorityFeePerGas
        gasLimit := tx.gasLimit }
      .ok { pool with
        bySender := pool.bySender.insert sender (transactions.insert pending.nonce pending)
        filed := pool.filed.insert rfl ⟨rfl, rfl, rfl⟩ }

def senders (iteration : PoolOrder) (pool : TxPool) : List Address :=
  (iteration.order pool.bySender).map Sigma.fst

def pending (pool : TxPool) : List PendingTx := filedIn pool.bySender

def len (pool : TxPool) : Nat := pool.pending.length

end TxPool

/-- The best candidate so far: its sender, its nonce and its tip. -/
structure Candidate where
  sender : Address
  nonce : Nat
  tip : Word

/-- Compares the lowest transaction of one sender with the best candidate so far. -/
def considerSender (activeNonces : HashMap Address Nat) (gasUsed blockGasLimit : Nat)
    (best : Option Candidate) (entry : Sigma fun _ : Address => Transactions) : Option Candidate :=
  -- A sender that was not listed counts from zero.
  let expectedNonce := (activeNonces.lookup entry.1).getD 0
  match entry.2.first with
  | none => best
  | some (nonce, transaction) =>
    -- A gap or a stale nonce blocks the sender, whatever comes behind it.
    if nonce ≠ expectedNonce ∨ saturatingAdd gasUsed transaction.gasLimit > blockGasLimit then best
    else
      let candidate : Candidate := ⟨entry.1, nonce, transaction.maxPriorityFeePerGas⟩
      match best with
      | none => some candidate
      -- Between equal tips the first one found stays.
      | some found => if found.tip < candidate.tip then some candidate else best

/-- The transaction to take next, if any fits. -/
def bestCandidate (iteration : PoolOrder) (activeNonces : HashMap Address Nat)
    (gasUsed blockGasLimit : Nat) (bySender : HashMap Address Transactions) : Option Candidate :=
  (iteration.order bySender).foldl (considerSender activeNonces gasUsed blockGasLimit) none

/-- What the selection has done so far. -/
structure Selection where
  pool : TxPool
  activeNonces : HashMap Address Nat
  gasUsed : Nat
  selected : List PendingTx

/-- Takes one more transaction, or nothing when none fits. -/
def Selection.advance (iteration : PoolOrder) (blockGasLimit : Nat) (selection : Selection) :
    Option Selection :=
  match bestCandidate iteration selection.activeNonces selection.gasUsed blockGasLimit
      selection.pool.bySender with
  | none => none
  | some best =>
    match listed : selection.pool.bySender.lookup best.sender with
    -- Candidates come from the pool, so both of these are found.
    | none => none
    | some transactions =>
      match transactions.lookup best.nonce with
      | none => none
      | some transaction => some {
          pool := { selection.pool with
            bySender := withoutTransaction selection.pool.bySender best.sender transactions
              best.nonce
            filed := selection.pool.filed.without best.nonce listed }
          activeNonces := selection.activeNonces.insert best.sender (saturatingAdd best.nonce 1)
          -- What counts is the limit that a transaction asks for, whatever it will use.
          gasUsed := saturatingAdd selection.gasUsed transaction.gasLimit
          selected := selection.selected ++ [transaction] }

/-- Takes transactions until none fits; every round takes one, so their number bounds the rounds. -/
def popExecutable.loop (iteration : PoolOrder) (blockGasLimit : Nat) : Nat → Selection → Selection
  | 0, selection => selection
  | rounds + 1, selection =>
    match selection.advance iteration blockGasLimit with
    | none => selection
    | some next => loop iteration blockGasLimit rounds next

/-- Takes out the transactions for one block, best tip first and nonces in sequence. -/
def TxPool.popExecutable (iteration : PoolOrder) (pool : TxPool)
    (currentNonces : HashMap Address Nat) (blockGasLimit : Nat) : List PendingTx × TxPool :=
  let final := popExecutable.loop iteration blockGasLimit pool.len
    { pool, activeNonces := currentNonces, gasUsed := 0, selected := [] }
  (final.selected, final.pool)

end MiniEvm
