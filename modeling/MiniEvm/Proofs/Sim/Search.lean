import MiniEvm.Collections.Best
import MiniEvm.Proofs.Vm.Runs
import MiniEvm.Sim.Engine

/-! Which inputs the search for the best one tries, and which of them it returns. -/

namespace MiniEvm

namespace ArbSimulator

open Frames Collections

/-- The amounts that a search tries, one for each step. -/
def triedAmounts (minIn maxIn : Word) (steps : Nat) : List Word :=
  (List.range (max steps 1 + 1)).map (searchAmount minIn maxIn (max steps 1))

/-- The profit of a route with some input, if its simulation succeeds. -/
def profitOf (host : Host) (fuel : Nat) (simulator : ArbSimulator) (route : ArbRoute)
    (amount : Word) : Option I256 :=
  match simulateRoute host fuel simulator { route with initialAmount := amount } with
  | .value result => if result.success then some result.netProfitOrLoss else none
  | _ => none

section Amounts

variable {minIn maxIn : Word} {count step : Nat}

/-- The amount of a step over the integers, but for the product, which wraps. -/
theorem toNat_searchAmount (le : minIn ≤ maxIn) (positive : 0 < count) (small : count < 2 ^ 256)
    (before : step ≤ count) :
    (searchAmount minIn maxIn count step).toNat =
      minIn.toNat + (maxIn.toNat - minIn.toNat) * step % 2 ^ 256 / count := by
  have width : (maxIn - minIn).toNat = maxIn.toNat - minIn.toNat := BitVec.toNat_sub_of_le le
  have steps : (BitVec.ofNat 256 step).toNat = step := by
    rw [BitVec.toNat_ofNat]
    omega
  have divisor : (BitVec.ofNat 256 count).toNat = count := by
    rw [BitVec.toNat_ofNat]
    omega
  -- What is added is no more than the width, so the sum is a word.
  have inside : (maxIn.toNat - minIn.toNat) * step % 2 ^ 256 / count ≤
      maxIn.toNat - minIn.toNat :=
    calc (maxIn.toNat - minIn.toNat) * step % 2 ^ 256 / count
        ≤ (maxIn.toNat - minIn.toNat) * count / count :=
          Nat.div_le_div_right ((Nat.mod_le _ _).trans (Nat.mul_le_mul_left _ before))
      _ = maxIn.toNat - minIn.toNat := Nat.mul_div_cancel _ positive
  have bound := maxIn.isLt
  have ordered : minIn.toNat ≤ maxIn.toNat := le
  rw [searchAmount, BitVec.toNat_add, BitVec.toNat_udiv, BitVec.toNat_mul, width, steps, divisor]
  apply Nat.mod_eq_of_lt
  omega

/-- Where no product wraps, the amounts go from one end of the range to the other. -/
theorem toNat_searchAmount_of_fits (le : minIn ≤ maxIn) (positive : 0 < count)
    (small : count < 2 ^ 256) (fits : (maxIn.toNat - minIn.toNat) * count < 2 ^ 256)
    (before : step ≤ count) :
    (searchAmount minIn maxIn count step).toNat =
      minIn.toNat + (maxIn.toNat - minIn.toNat) * step / count := by
  have product : (maxIn.toNat - minIn.toNat) * step < 2 ^ 256 :=
    Nat.lt_of_le_of_lt (Nat.mul_le_mul_left _ before) fits
  rw [toNat_searchAmount le positive small before, Nat.mod_eq_of_lt product]

/-- The last amount is the upper end just when the last product does not wrap. -/
theorem searchAmount_last_iff (le : minIn ≤ maxIn) (positive : 0 < count)
    (small : count < 2 ^ 256) :
    searchAmount minIn maxIn count count = maxIn ↔
      (maxIn.toNat - minIn.toNat) * count < 2 ^ 256 := by
  have ordered : minIn.toNat ≤ maxIn.toNat := le
  constructor
  · intro last
    by_contra wraps
    have value := toNat_searchAmount le positive small (Nat.le_refl count)
    -- A product that has wrapped is short of the full distance.
    have short : (maxIn.toNat - minIn.toNat) * count % 2 ^ 256 / count <
        maxIn.toNat - minIn.toNat := by
      apply Nat.div_lt_of_lt_mul
      rw [Nat.mul_comm count]
      exact Nat.lt_of_lt_of_le (Nat.mod_lt _ (by decide)) (Nat.not_lt.mp wraps)
    rw [last] at value
    omega
  · intro fits
    apply BitVec.eq_of_toNat_eq
    rw [toNat_searchAmount_of_fits le positive small fits (Nat.le_refl count),
      Nat.mul_div_cancel _ positive]
    omega

end Amounts

section Scan

variable {host : Host} {fuel : Nat} {simulator : ArbSimulator} {route : ArbRoute}
  {minIn maxIn : Word} {count : Nat}

/-- Every profit is above the one that a search starts with. -/
theorem i128Min_lt_signedDifference (left right : Word) : i128Min < signedDifference left right := by
  have range : ∀ value : Word, 0 ≤ clampedI128 value ∧ clampedI128 value ≤ i128Max := by
    intro value
    unfold clampedI128
    split <;> simp only [i128Max] at * <;> omega
  have first := range left
  have second := range right
  simp only [signedDifference, i128Max, i128Min] at *
  omega

/-- A simulation that succeeds reports the difference of its balances. -/
theorem simulateRoute_of_success {result : ArbSimulationResult}
    (simulated : simulateRoute host fuel simulator route = .value result)
    (succeeded : result.success = true) :
    result.netProfitOrLoss = signedDifference result.endingBalance result.startingBalance := by
  obtain ⟨starting, _, rest⟩ := Outcome.bind_eq_value simulated
  obtain ⟨hops, _, rest⟩ := Outcome.bind_eq_value rest
  -- A hop that fails ends the route with a failed result.
  cases hops with
  | error failed =>
    obtain ⟨gas, index, reason⟩ := failed
    cases rest
    cases succeeded
  | ok progress =>
    obtain ⟨ending, _, rest⟩ := Outcome.bind_eq_value rest
    cases rest
    rfl

/-- The search so far: what it holds of the amounts that it tried, and the route but for its
input. -/
structure SearchAt (host : Host) (fuel : Nat) (simulator : ArbSimulator) (route : ArbRoute)
    (minIn : Word) (tried : List Word) (search : Search) : Prop where
  simulated : ∀ amount ∈ tried, ∃ result,
    simulateRoute host fuel simulator { route with initialAmount := amount } = .value result
  held : Scanned (profitOf host fuel simulator route) (minIn, i128Min) tried
    (search.bestAmount, search.bestProfit)
  route : ∀ amount, { search.route with initialAmount := amount } =
    { route with initialAmount := amount }

variable {tried : List Word} {search next : Search} {index : Nat}

/-- One step tries one amount more. -/
theorem SearchAt.step (holds : SearchAt host fuel simulator route minIn tried search)
    (stepped : searchStep host fuel simulator minIn maxIn count search index = .value next) :
    SearchAt host fuel simulator route minIn (tried ++ [searchAmount minIn maxIn count index])
      next := by
  obtain ⟨result, simulated, rest⟩ := Outcome.bind_eq_value stepped
  rw [holds.route] at simulated
  -- The amount that is tried is the next one, whatever amount the route came with.
  have worth : profitOf host fuel simulator route (searchAmount minIn maxIn count index) =
      if result.success then some result.netProfitOrLoss else none := by
    rw [profitOf, simulated]
  have all : ∀ amount ∈ tried ++ [searchAmount minIn maxIn count index], ∃ result,
      simulateRoute host fuel simulator { route with initialAmount := amount } = .value result := by
    intro amount member
    rcases List.mem_append.mp member with before | last
    · exact holds.simulated amount before
    · exact ⟨result, List.mem_singleton.mp last ▸ simulated⟩
  -- The step holds on to the better of the two results.
  split at rest
  next better =>
    cases rest
    exact ⟨all, holds.held.take (by rw [worth, if_pos better.1]) better.2, holds.route⟩
  next no_better =>
    cases rest
    refine ⟨all, holds.held.pass ?_ ?_, holds.route⟩
    · intro value worthy
      rw [worth] at worthy
      split at worthy
      next succeeded =>
        cases worthy
        exact Int.not_lt.mp fun more => no_better ⟨succeeded, more⟩
      next => cases worthy
    · intro value worthy
      rw [worth] at worthy
      split at worthy
      next succeeded =>
        cases worthy
        -- Any real profit is above the one that the search starts with.
        rw [simulateRoute_of_success simulated succeeded]
        exact i128Min_lt_signedDifference _ _
      next => cases worthy

/-- And the whole search all of them. -/
theorem SearchAt.steps (steps : List Nat) {tried : List Word} {search final : Search}
    (holds : SearchAt host fuel simulator route minIn tried search)
    (searched : steps.foldlM (searchStep host fuel simulator minIn maxIn count) search =
      .value final) :
    SearchAt host fuel simulator route minIn
      (tried ++ steps.map (searchAmount minIn maxIn count)) final := by
  induction steps generalizing tried search with
  | nil =>
    cases searched
    simpa using holds
  | cons step rest ih =>
    rw [List.foldlM_cons] at searched
    obtain ⟨middle, stepped, searched⟩ := Outcome.bind_eq_value searched
    simpa using ih (holds.step stepped) searched

/-- It returns if every simulation does. -/
theorem search_returns (steps : List Nat) (search : Search)
    (same : ∀ amount, { search.route with initialAmount := amount } =
      { route with initialAmount := amount })
    (simulated : ∀ amount ∈ steps.map (searchAmount minIn maxIn count), ∃ result,
      simulateRoute host fuel simulator { route with initialAmount := amount } = .value result) :
    ∃ final, steps.foldlM (searchStep host fuel simulator minIn maxIn count) search =
      .value final := by
  induction steps generalizing search with
  | nil => exact ⟨search, rfl⟩
  | cons step rest ih =>
    obtain ⟨result, here⟩ := simulated _ List.mem_cons_self
    have stepped : ∃ next, searchStep host fuel simulator minIn maxIn count search step =
        .value next ∧ ∀ amount, { next.route with initialAmount := amount } =
          { route with initialAmount := amount } := by
      simp only [searchStep, same, here, Outcome.value_bind, Outcome.pure_eq]
      split
      · exact ⟨_, rfl, fun _ => rfl⟩
      · exact ⟨_, rfl, fun _ => rfl⟩
    obtain ⟨next, stepped, same⟩ := stepped
    obtain ⟨final, searched⟩ :=
      ih next same fun amount member => simulated amount (List.mem_cons_of_mem _ member)
    refine ⟨final, ?_⟩
    rw [List.foldlM_cons, stepped, Outcome.value_bind, searched]

end Scan

/-- The tried amounts go through the range in order, from end to end, and the search returns the
first of them that no other is more profitable than. -/
structure Explores (host : Host) (fuel : Nat) (simulator : ArbSimulator) (route : ArbRoute)
    (minIn maxIn : Word) (steps : Nat) : Prop where
  within : ∀ amount ∈ triedAmounts minIn maxIn steps, minIn ≤ amount ∧ amount ≤ maxIn
  sorted : (triedAmounts minIn maxIn steps).Pairwise (· ≤ ·)
  first : (triedAmounts minIn maxIn steps).head? = some minIn
  last : (triedAmounts minIn maxIn steps).getLast? = some maxIn
  found : ∀ pair final,
    findOptimalInputAmount host fuel simulator route minIn maxIn steps = .value (pair, final) →
      (∀ amount ∈ triedAmounts minIn maxIn steps, ∃ result,
        simulateRoute host fuel simulator { route with initialAmount := amount } = .value result) ∧
      Scanned (profitOf host fuel simulator route) (minIn, i128Min)
        (triedAmounts minIn maxIn steps) pair
  returns : (∀ amount ∈ triedAmounts minIn maxIn steps, ∃ result,
      simulateRoute host fuel simulator { route with initialAmount := amount } = .value result) →
    ∃ found, findOptimalInputAmount host fuel simulator route minIn maxIn steps = .value found

section Exploration

variable {host : Host} {fuel : Nat} {simulator : ArbSimulator} {route : ArbRoute}
  {minIn maxIn : Word} {steps : Nat}

theorem getLast?_triedAmounts (minIn maxIn : Word) (steps : Nat) :
    (triedAmounts minIn maxIn steps).getLast? =
      some (searchAmount minIn maxIn (max steps 1) (max steps 1)) := by
  rw [triedAmounts, List.range_succ, List.map_append, List.map_singleton, List.getLast?_concat]

/-- What the search returns is the first best of the amounts that it tried. -/
theorem search_found {pair : Word × I256} {final : ArbRoute}
    (searched : findOptimalInputAmount host fuel simulator route minIn maxIn steps =
      .value (pair, final)) :
    (∀ amount ∈ triedAmounts minIn maxIn steps, ∃ result,
        simulateRoute host fuel simulator { route with initialAmount := amount } = .value result) ∧
      Scanned (profitOf host fuel simulator route) (minIn, i128Min)
        (triedAmounts minIn maxIn steps) pair := by
  obtain ⟨search, scanned, rest⟩ := Outcome.bind_eq_value searched
  cases rest
  have start : SearchAt host fuel simulator route minIn []
      { bestAmount := minIn, bestProfit := i128Min, route } :=
    ⟨by simp, .inr ⟨by simp, rfl⟩, fun _ => rfl⟩
  have done := start.steps _ scanned
  exact ⟨done.simulated, done.held⟩

/-- Where the last product does not wrap, the amounts are spread over the whole range, in order. -/
theorem explores_of_fits (le : minIn ≤ maxIn) (small : steps ≤ u64Max)
    (fits : (maxIn.toNat - minIn.toNat) * max steps 1 < 2 ^ 256) :
    Explores host fuel simulator route minIn maxIn steps := by
  have positive : 0 < max steps 1 := by omega
  have bounded : max steps 1 < 2 ^ 256 := by
    simp only [u64Max] at small
    omega
  have value : ∀ step ≤ max steps 1, (searchAmount minIn maxIn (max steps 1) step).toNat =
      minIn.toNat + (maxIn.toNat - minIn.toNat) * step / max steps 1 :=
    fun step before => toNat_searchAmount_of_fits le positive bounded fits before
  have ordered : minIn.toNat ≤ maxIn.toNat := le
  constructor
  · intro amount member
    obtain ⟨step, below, rfl⟩ := List.mem_map.mp member
    have before := Nat.lt_succ_iff.mp (List.mem_range.mp below)
    have inside : (maxIn.toNat - minIn.toNat) * step / max steps 1 ≤ maxIn.toNat - minIn.toNat :=
      Nat.div_le_of_le_mul (by
        rw [Nat.mul_comm (max steps 1)]
        exact Nat.mul_le_mul_left _ before)
    rw [BitVec.le_def, BitVec.le_def, value step before]
    refine ⟨Nat.le_add_right _ _, (Nat.add_le_add_left inside _).trans ?_⟩
    rw [Nat.add_sub_of_le ordered]
  · -- A later step adds no smaller a part of the distance.
    rw [triedAmounts, List.pairwise_map]
    refine List.Pairwise.imp_of_mem ?_ List.pairwise_lt_range
    intro step later _ below lt
    have before := Nat.lt_succ_iff.mp (List.mem_range.mp below)
    rw [BitVec.le_def, value step (by omega), value later before]
    exact Nat.add_le_add_left (Nat.div_le_div_right (Nat.mul_le_mul_left _ lt.le)) _
  · have start : searchAmount minIn maxIn (max steps 1) 0 = minIn := by
      apply BitVec.eq_of_toNat_eq
      rw [value 0 (Nat.zero_le _), Nat.mul_zero, Nat.zero_div, Nat.add_zero]
    rw [triedAmounts, List.range_succ_eq_map, List.map_cons, List.head?_cons, start]
  · rw [getLast?_triedAmounts, (searchAmount_last_iff le positive bounded).mpr fits]
  · exact fun _ _ searched => search_found searched
  · intro simulated
    obtain ⟨search, scanned⟩ := search_returns _
      { bestAmount := minIn, bestProfit := i128Min, route } (fun _ => rfl) simulated
    exact ⟨_, by rw [findOptimalInputAmount, scanned]; rfl⟩

/-- The search explores its range just when the last product does not wrap. -/
theorem explores_iff (host : Host) (fuel : Nat) (simulator : ArbSimulator) (route : ArbRoute)
    (minIn maxIn : Word) (steps : Nat) (le : minIn ≤ maxIn) (small : steps ≤ u64Max) :
    Explores host fuel simulator route minIn maxIn steps ↔
      (maxIn.toNat - minIn.toNat) * max steps 1 < 2 ^ 256 := by
  -- The last amount alone tells that its product has not wrapped.
  refine ⟨fun explores => ?_, explores_of_fits le small⟩
  have last := explores.last
  rw [getLast?_triedAmounts] at last
  have bounded : max steps 1 < 2 ^ 256 := by
    simp only [u64Max] at small
    omega
  exact (searchAmount_last_iff le (by omega) bounded).mp (Option.some.inj last)

/-- A route without hops. -/
def emptyRoute : ArbRoute where
  borrowCapital := none
  startingToken := 0x01
  initialAmount := 0
  hops := []

/-- A route with one hop, which swaps a token for another one. -/
def oneHop : ArbRoute where
  borrowCapital := none
  startingToken := 0x01
  initialAmount := 0
  hops := [{ targetDex := 0x03, tokenIn := 0x01, tokenOut := 0x04, amountIn := none,
             minAmountOut := 0, calldata := [] }]

theorem explores_iff_small :
    Explores (tableHost []) 5 { baseState := {}, sender := 0x02 } oneHop 10 20 4 ↔
      (20 - 10) * 4 < 2 ^ 256 :=
  explores_iff (tableHost []) 5 { baseState := {}, sender := 0x02 } oneHop 10 20 4 (by decide)
    (by decide)

/-- Over all words in two steps, the search does not get past the middle. -/
theorem explores_half :
    ¬ Explores (tableHost []) 5 { baseState := {}, sender := 0x02 } emptyRoute 0
      (BitVec.allOnes 256) 2 := by
  intro explores
  have last := explores.last
  rw [getLast?_triedAmounts] at last
  revert last
  decide

end Exploration

end ArbSimulator

end MiniEvm
