import Mathlib.Algebra.Order.BigOperators.Group.Finset
import MiniEvm.Proofs.State.Fork

/-! The ether in a fork: the sum of all balances, and what single writes do to it. -/

namespace MiniEvm

namespace StateFork

/-- The accounts that a fork knows, in either of its layers. -/
def accounts (fork : StateFork) : Finset Address :=
  fork.baseState.keys.toFinset ∪ fork.dirtyState.keys.toFinset

/-- The sum of all balances. -/
def totalBalance (fork : StateFork) : Nat :=
  ∑ account ∈ fork.accounts, (fork.getBalance account).toNat

/-- An account that the fork does not know has no balance. -/
theorem getBalance_of_notMem {fork : StateFork} {account : Address}
    (unknown : account ∉ fork.accounts) : fork.getBalance account = 0 := by
  -- Neither layer has the account, so its reader gets the empty one.
  simp only [accounts, Finset.mem_union, List.mem_toFinset, not_or] at unknown
  have base : fork.baseState.lookup account = none := AList.lookup_eq_none.mpr unknown.1
  have dirty : fork.dirtyState.lookup account = none := AList.lookup_eq_none.mpr unknown.2
  simp only [getBalance, getAccount, dirty, base, Option.getD_none]

/-- The sum may be taken over any larger set of accounts. -/
theorem totalBalance_eq_sum {fork : StateFork} {larger : Finset Address}
    (covers : fork.accounts ⊆ larger) :
    fork.totalBalance = ∑ account ∈ larger, (fork.getBalance account).toNat := by
  -- The additional accounts are unknown, and contribute nothing.
  refine Finset.sum_subset covers fun account _ unknown => ?_
  rw [getBalance_of_notMem unknown]
  rfl

/-- Changing one balance changes the sum by the difference. -/
theorem totalBalance_of_update {fork changed : StateFork} (addr : Address)
    (others : ∀ account, account ≠ addr → changed.getBalance account = fork.getBalance account) :
    changed.totalBalance + (fork.getBalance addr).toNat =
      fork.totalBalance + (changed.getBalance addr).toNat := by
  -- Both sums are taken over one set, and split at the account that changed.
  have inFork : fork.accounts ⊆ insert addr (fork.accounts ∪ changed.accounts) :=
    Finset.subset_union_left.trans (Finset.subset_insert _ _)
  have inChanged : changed.accounts ⊆ insert addr (fork.accounts ∪ changed.accounts) :=
    Finset.subset_union_right.trans (Finset.subset_insert _ _)
  rw [totalBalance_eq_sum inFork, totalBalance_eq_sum inChanged,
    ← Finset.add_sum_erase _ _ (Finset.mem_insert_self addr _),
    ← Finset.add_sum_erase _ _ (Finset.mem_insert_self addr _)]
  -- Away from that account the two sums have the same terms.
  have rest : ∑ account ∈ (insert addr (fork.accounts ∪ changed.accounts)).erase addr,
      (changed.getBalance account).toNat =
        ∑ account ∈ (insert addr (fork.accounts ∪ changed.accounts)).erase addr,
          (fork.getBalance account).toNat := by
    refine Finset.sum_congr rfl fun account member => ?_
    rw [others account (Finset.ne_of_mem_erase member)]
  omega

/-- Forks with the same balances hold the same sum. -/
theorem totalBalance_congr {fork changed : StateFork}
    (same : ∀ account, changed.getBalance account = fork.getBalance account) :
    changed.totalBalance = fork.totalBalance := by
  -- Any account serves as the one that changed, by nothing at all.
  have updated := totalBalance_of_update 0 fun account _ => same account
  rw [same 0] at updated
  omega

/-- A balance is part of the sum. -/
theorem getBalance_le_totalBalance (fork : StateFork) (account : Address) :
    (fork.getBalance account).toNat ≤ fork.totalBalance := by
  have covers : fork.accounts ⊆ insert account fork.accounts := Finset.subset_insert _ _
  rw [totalBalance_eq_sum covers]
  exact Finset.single_le_sum (f := fun other => (fork.getBalance other).toNat)
    (fun _ _ => Nat.zero_le _) (Finset.mem_insert_self account fork.accounts)

/-- Writing one balance. -/
theorem totalBalance_setBalance (fork : StateFork) (addr : Address) (balance : Word) :
    (fork.setBalance addr balance).totalBalance + (fork.getBalance addr).toNat =
      fork.totalBalance + balance.toNat := by
  have others : ∀ account, account ≠ addr →
      (fork.setBalance addr balance).getBalance account = fork.getBalance account := by
    intro account other
    rw [getBalance_setBalance, if_neg other]
  have updated := totalBalance_of_update addr others
  rwa [getBalance_setBalance, if_pos rfl] at updated

/-- A transfer that the payer can afford keeps the sum, which leaves the payee no overflow. -/
theorem totalBalance_transfer (fork : StateFork) (payer payee : Address) (amount : Word)
    (bounded : fork.totalBalance < 2 ^ 256) (afforded : amount ≤ fork.getBalance payer) :
    let debited := fork.setBalance payer (fork.getBalance payer - amount)
    (debited.setBalance payee (debited.getBalance payee + amount)).totalBalance =
      fork.totalBalance := by
  intro debited
  -- Payer and payee may be the same account, so the two writes are taken one after the other.
  have paid : debited.totalBalance + _ = _ := totalBalance_setBalance fork payer _
  have received := totalBalance_setBalance debited payee (debited.getBalance payee + amount)
  have held := getBalance_le_totalBalance debited payee
  have remains : (fork.getBalance payer - amount).toNat =
      (fork.getBalance payer).toNat - amount.toNat := BitVec.toNat_sub_of_le afforded
  have enough : amount.toNat ≤ (fork.getBalance payer).toNat := afforded
  have debit : debited.totalBalance + amount.toNat = fork.totalBalance := by
    rw [remains] at paid
    omega
  -- The payee's new balance is still part of the old sum, and so below the word size.
  have credit : (debited.getBalance payee + amount).toNat =
      (debited.getBalance payee).toNat + amount.toNat := by
    rw [BitVec.toNat_add, Nat.mod_eq_of_lt (by omega)]
  rw [credit] at received
  omega

end StateFork

end MiniEvm
