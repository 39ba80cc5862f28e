import MiniEvm.Proofs.Vm.Completion

/-! What an access to memory costs in either build, and when it is turned down for that. -/

namespace MiniEvm

open EvmM Frames Frames.Program

section Built

variable {host : Host}

/-- An unchecked 64-bit result as the build computes it, unless the build aborts. -/
def builtU64 (host : Host) (result : Nat) : Option Nat :=
  if result ≤ u64Max then some result
  else if host.overflowChecks then none
  else some (result % 2 ^ 64)

/-- An unchecked 64-bit difference as the build computes it, unless the build aborts. -/
def builtSub (host : Host) (a b : Nat) : Option Nat :=
  if b ≤ a then some (a - b)
  else if host.overflowChecks then none
  else some ((a + 2 ^ 64 - b) % 2 ^ 64)

/-- The cost of so many words as the build computes it. -/
def builtMemoryCost (host : Host) (words : Nat) : Option Nat :=
  (builtU64 host (3 * words)).bind fun linear =>
    (builtU64 host (words * words)).bind fun square => builtU64 host (linear + square / 512)

/-- The price of growing to so many words as the build computes it. -/
def builtGrowthPrice (host : Host) (length words : Nat) : Option Nat :=
  (builtMemoryCost host words).bind fun costNew =>
    (builtMemoryCost host (length / 32)).bind fun costOld => builtSub host costNew costOld

/-- Goes on with a number, or aborts. -/
def orAbort (built : Option Nat) : EvmM Nat := built.elim (fault .arithmeticOverflow) pure

/-- A missing intermediate result aborts, as a missing result does. -/
theorem orAbort_bind (built : Option Nat) (next : Nat → Option Nat) :
    orAbort (built.bind next) = orAbort built >>= fun value => orAbort (next value) := by
  -- An abort is passed through.
  cases built <;> rfl

/-- What a build makes of a sum is its value or an abort. -/
theorem uncheckedU64_eq (result : Nat) :
    uncheckedU64 host result = orAbort (builtU64 host result) := by
  -- In range, aborting and wrapping are the three ways out of both.
  unfold uncheckedU64 builtU64
  split
  · rfl
  · split <;> rfl

/-- What a build makes of a difference is its value or an abort. -/
theorem uncheckedSub_eq (a b : Nat) : uncheckedSub host a b = orAbort (builtSub host a b) := by
  -- The same three ways, for a difference.
  unfold uncheckedSub builtSub
  split
  · rfl
  · split <;> rfl

/-- What a build makes of the cost of a memory is its value or an abort. -/
theorem memoryCost_eq (words : Nat) :
    memoryCost host words = orAbort (builtMemoryCost host words) := by
  unfold memoryCost builtMemoryCost
  -- The three operations are the same ones, in the same order.
  simp only [uncheckedU64_eq, orAbort_bind]

end Built

section Touching

variable {host : Host} {evm : Evm} {offset size : Nat}

/-- The price of a range; one that memory covers is free. -/
def touchPrice (host : Host) (length offset size : Nat) : Option Nat :=
  if wordsFor (offset + size) ≤ length / 32 then some 0
  else builtGrowthPrice host length (wordsFor (offset + size))

/-- A range is turned down, for where it ends or for its price. -/
def PricedOut (host : Host) (evm : Evm) (offset size : Nat) : Prop :=
  size ≠ 0 ∧ (u64Max < offset + size + 31 ∨
    ∃ price, touchPrice host evm.memory.length offset size = some price ∧ evm.gasLeft < price)

/-- A range is let through. -/
def Affordable (host : Host) (evm : Evm) (offset size : Nat) : Prop :=
  size = 0 ∨ (offset + size + 31 ≤ u64Max ∧
    ∃ price, touchPrice host evm.memory.length offset size = some price ∧ price ≤ evm.gasLeft)

/-- What can be paid is not refused for its price. -/
theorem Affordable.not_pricedOut (affordable : Affordable host evm offset size) :
    ¬ PricedOut host evm offset size := by
  intro ⟨nonempty, out⟩
  obtain empty | ⟨fits, price, priced, paid⟩ := affordable
  · exact nonempty empty
  -- There is one price.
  obtain outside | ⟨price', priced', short⟩ := out
  · omega
  · rw [priced] at priced'
    cases priced'
    omega

/-- Only gas and memory differ, and memory covers a range. -/
structure Touched (offset size : Nat) (before after : Evm) : Prop where
  only : ∃ gas memory, after = { before with gasLeft := gas, memory := memory }
  covers : size ≠ 0 → offset + size ≤ after.memory.length

/-- Whatever looks at neither gas nor memory reads the same. -/
theorem Touched.read {γ : Type} {after : Evm} (touched : Touched offset size evm after)
    (field : Evm → γ)
    (blind : ∀ evm gas memory, field { evm with gasLeft := gas, memory := memory } = field evm) :
    field after = field evm := by
  obtain ⟨⟨gas, memory, rfl⟩, _⟩ := touched
  exact blind evm gas memory

/-- Growing asks for the price that the build computes. -/
theorem touchMemory_of_uncovered (nonempty : size ≠ 0) (fits : offset + size + 31 ≤ u64Max)
    (uncovered : ¬ wordsFor (offset + size) ≤ evm.memory.length / 32) :
    touchMemory host offset size evm = (do
      let price ← orAbort (touchPrice host evm.memory.length offset size)
      charge price
      modify fun evm =>
        { evm with memory := resize evm.memory (wordsFor (offset + size) * 32) }) evm := by
  rw [touchMemory_of_growing nonempty fits (Nat.not_le.mp uncovered), touchPrice,
    if_neg uncovered, builtGrowthPrice]
  -- Both costs and their difference are one computation, which may abort at three places.
  simp only [memoryCost_eq, uncheckedSub_eq, orAbort_bind]
  cases builtMemoryCost host (wordsFor (offset + size)) with
  | none => rfl
  | some costNew => cases builtMemoryCost host (evm.memory.length / 32) <;> rfl

/-- A range is turned down and nothing has changed, or it is let through, or the build aborts. -/
theorem touchMemory_cases (host : Host) (evm : Evm) (offset size : Nat) :
    (PricedOut host evm offset size ∧ touchMemory host offset size evm = .exit .outOfGas evm) ∨
      (Affordable host evm offset size ∧
        ∃ after, touchMemory host offset size evm = .next () after ∧
          Touched offset size evm after) ∨
      (¬ PricedOut host evm offset size ∧ ¬ Affordable host evm offset size ∧
        ∃ cause, touchMemory host offset size evm = .fault cause) := by
  -- An empty range is let through before anything is looked at.
  by_cases empty : size = 0
  · refine .inr (.inl ⟨.inl empty, evm, ?_, ⟨evm.gasLeft, evm.memory, rfl⟩, fun some_ =>
      absurd empty some_⟩)
    unfold touchMemory
    rw [if_pos empty]
    rfl
  -- A range whose end leaves the 64-bit range is turned down whatever the gas.
  by_cases fits : offset + size + 31 ≤ u64Max
  swap
  · have outside := Nat.not_le.mp fits
    exact .inl ⟨⟨empty, .inl outside⟩, touchMemory_of_outside empty outside⟩
  -- What memory covers is free.
  by_cases covered : wordsFor (offset + size) ≤ evm.memory.length / 32
  · have free : touchPrice host evm.memory.length offset size = some 0 := if_pos covered
    have inside : touchedWords offset size ≤ evm.memory.length / 32 := by
      rw [touchedWords, if_neg empty]
      exact covered
    refine .inr (.inl ⟨.inr ⟨fits, 0, free, Nat.zero_le _⟩, evm,
      touchMemory_of_covered fits inside, ⟨evm.gasLeft, evm.memory, rfl⟩, fun _ => ?_⟩)
    unfold wordsFor at covered
    omega
  -- Past memory the price decides, if there is one.
  rw [touchMemory_of_uncovered empty fits covered]
  cases priced : touchPrice host evm.memory.length offset size with
  -- Without a price the build has aborted.
  | none =>
    refine .inr (.inr ⟨?_, ?_, .arithmeticOverflow, rfl⟩)
    · rintro ⟨_, outside | ⟨_, found, _⟩⟩
      · omega
      · rw [priced] at found
        cases found
    · rintro (nothing | ⟨_, _, found, _⟩)
      · exact empty nothing
      · rw [priced] at found
        cases found
  | some price =>
    by_cases paid : price ≤ evm.gasLeft
    · refine .inr (.inl ⟨.inr ⟨fits, price, priced, paid⟩, _,
        bind_of_next (charge_of_enough paid), ⟨_, _, rfl⟩, fun _ => ?_⟩)
      exact (le_wordsFor (offset + size)).trans (Nat.le_of_eq (length_resize _ _).symm)
    · have short := Nat.not_le.mp paid
      refine .inl ⟨⟨empty, .inr ⟨price, priced, short⟩⟩, ?_⟩
      show (charge price >>= _) evm = _
      simp only [charge, bind_apply, get_apply, Tree.bind, if_pos short, exit_apply]

end Touching

section Access

variable {host : Host} {evm : Evm} {cost offset size : Nat}

/-- A failure: anything but the end of the code, a return or a revert. -/
def ExecutionResult.isFailure : ExecutionResult → Bool
  | halt => false
  | return_ _ => false
  | revert _ => false
  | _ => true

/-- The frame is ended by a failure, with this memory. -/
def Refuses {α : Type} (memory : Bytes) (tree : Tree Evm ExecutionResult Fault α) : Prop :=
  ∃ result after, tree = .exit result after ∧ result.isFailure = true ∧ after.memory = memory

/-- The program does not end its frame by a failure, and opens no other frame. -/
def Harmless {α : Type} (program : EvmM α) (evm : Evm) (post : α → Evm → Prop) : Prop :=
  program.Meets evm (fun _ => True) (fun result _ => result.isFailure = false) post

/-- What does no harm refuses nothing. -/
theorem Harmless.not_refuses {α : Type} {program : EvmM α} {post : α → Evm → Prop} {memory : Bytes}
    (harmless : Harmless program evm post) : ¬ Refuses memory (program evm) := by
  intro ⟨result, after, ended, failed, _⟩
  -- Its early end would be a failure and none at once.
  unfold Harmless Meets at harmless
  rw [ended] at harmless
  rw [show result.isFailure = false from harmless] at failed
  cases failed

/-- Charges a cost; one out of the 64-bit range counts as too little gas. -/
def chargeWithin (cost : Nat) : EvmM Unit := if cost ≤ u64Max then charge cost else exit .outOfGas

/-- Charges a cost, and then touches a range. -/
def access (host : Host) (cost offset size : Nat) : EvmM Unit := do
  chargeWithin cost
  touchMemory host offset size

/-- An access is turned down for its cost or for its range. -/
def AccessRefused (host : Host) (evm : Evm) (cost offset size : Nat) : Prop :=
  min evm.gasLeft u64Max < cost ∨ PricedOut host (evm.spend cost) offset size

/-- An access is let through. -/
def AccessGranted (host : Host) (evm : Evm) (cost offset size : Nat) : Prop :=
  cost ≤ min evm.gasLeft u64Max ∧ Affordable host (evm.spend cost) offset size

/-- What is granted is not refused. -/
theorem AccessGranted.not_refused (granted : AccessGranted host evm cost offset size) :
    ¬ AccessRefused host evm cost offset size := by
  rintro (unpaid | out)
  · exact absurd granted.1 (Nat.not_le.mpr unpaid)
  · exact granted.2.not_pricedOut out

/-- What touches a range after paying for something else has touched it. -/
theorem Touched.of_spend {after : Evm} (touched : Touched offset size (evm.spend cost) after) :
    Touched offset size evm after := by
  -- What was spent is gone from the gas, which may differ anyway.
  obtain ⟨⟨gas, memory, rfl⟩, covers⟩ := touched
  exact ⟨⟨gas, memory, rfl⟩, covers⟩

/-- An access is turned down and memory has not changed, or it is let through, or it aborts. -/
theorem access_cases (host : Host) (evm : Evm) (cost offset size : Nat) :
    (AccessRefused host evm cost offset size ∧
        ∃ after, access host cost offset size evm = .exit .outOfGas after ∧
          after.memory = evm.memory) ∨
      (AccessGranted host evm cost offset size ∧
        ∃ after, access host cost offset size evm = .next () after ∧
          Touched offset size evm after) ∨
      (¬ AccessRefused host evm cost offset size ∧ ¬ AccessGranted host evm cost offset size ∧
        ∃ cause, access host cost offset size evm = .fault cause) := by
  unfold access chargeWithin
  -- A cost that is no 64-bit number is refused, as is one that is not there.
  by_cases within : cost ≤ u64Max
  swap
  · refine .inl ⟨.inl (by omega), evm, ?_, rfl⟩
    rw [if_neg within]
    rfl
  rw [if_pos within]
  by_cases paid : cost ≤ evm.gasLeft
  swap
  · refine .inl ⟨.inl (by omega), evm, ?_, rfl⟩
    simp only [charge, bind_apply, get_apply, Tree.bind, if_pos (Nat.not_le.mp paid), exit_apply]
  -- Once the cost is paid, the range decides.
  have enough : cost ≤ min evm.gasLeft u64Max := by omega
  rw [bind_of_next (charge_of_enough paid)]
  obtain ⟨out, ended⟩ | ⟨affordable, after, ended, touched⟩ |
    ⟨notOut, notAffordable, cause, ended⟩ := touchMemory_cases host (evm.spend cost) offset size
  · exact .inl ⟨.inr out, evm.spend cost, ended, rfl⟩
  · exact .inr (.inl ⟨⟨enough, affordable⟩, after, ended, touched.of_spend⟩)
  · refine .inr (.inr ⟨?_, fun granted => notAffordable granted.2, cause, ended⟩)
    rintro (unpaid | out)
    · omega
    · exact notOut out

/-- What goes on harmlessly after an access fails just where the access is turned down. -/
theorem refuses_access_iff {rest : EvmM Unit} {post : Unit → Evm → Prop}
    (harmless : ∀ after, Touched offset size evm after → Harmless rest after post) :
    Refuses evm.memory ((access host cost offset size >>= fun _ => rest) evm) ↔
      AccessRefused host evm cost offset size := by
  -- Only the first of the three outcomes is a failure.
  obtain ⟨refused, after, ended, memory⟩ | ⟨granted, after, ended, touched⟩ |
    ⟨notRefused, _, cause, ended⟩ := access_cases host evm cost offset size
  · refine iff_of_true ⟨.outOfGas, after, ?_, rfl, memory⟩ refused
    rw [bind_apply, ended]
    rfl
  · rw [bind_of_next ended]
    exact iff_of_false (harmless after touched).not_refuses granted.not_refused
  · refine iff_of_false ?_ notRefused
    intro ⟨result, after, exited, _⟩
    rw [bind_apply, ended] at exited
    cases exited

/-- An access that is let through has touched its range. -/
theorem AccessGranted.ends (granted : AccessGranted host evm cost offset size) :
    ∃ after, access host cost offset size evm = .next () after ∧ Touched offset size evm after := by
  obtain ⟨refused, _⟩ | ⟨_, touches⟩ | ⟨_, notGranted, _⟩ := access_cases host evm cost offset size
  · exact absurd refused granted.not_refused
  · exact touches
  · exact absurd granted notGranted

/-- What follows an access is reached just where the access is let through. -/
theorem ends_access {rest : EvmM Unit} {final : Evm}
    (ended : (access host cost offset size >>= fun _ => rest) evm = .next () final) :
    AccessGranted host evm cost offset size ∧
      ∃ after, Touched offset size evm after ∧ rest after = .next () final := by
  -- Only the second of the three outcomes goes on.
  obtain ⟨_, after, stands, _⟩ | ⟨granted, after, stands, touched⟩ | ⟨_, _, cause, stands⟩ :=
    access_cases host evm cost offset size
  · rw [bind_apply, stands] at ended
    cases ended
  · rw [bind_of_next stands] at ended
    exact ⟨granted, after, touched, ended⟩
  · rw [bind_apply, stands] at ended
    cases ended

end Access

end MiniEvm
