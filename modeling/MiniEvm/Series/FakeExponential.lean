import Mathlib.Algebra.BigOperators.Group.Finset.Basic
import Mathlib.Algebra.Order.BigOperators.Group.Finset
import Mathlib.Order.Lattice.Nat

/-! The integer exponential of a fraction: a series of rounded terms, summed until one is zero. -/

namespace FakeExponential

open Finset

/-- What the loop accumulates: each term is the last one times the fraction, divided by its
index. -/
def term (factor numerator denominator : Nat) : Nat → Nat
  | 0 => factor * denominator
  | k + 1 => term factor numerator denominator k * numerator / (denominator * (k + 1))

/-- The first terms together. -/
def partialSum (factor numerator denominator count : Nat) : Nat :=
  ∑ k ∈ range count, term factor numerator denominator k

/-- How many rounds the loop takes: it is left at the first term that is zero. -/
noncomputable def rounds (factor numerator denominator : Nat) : Nat :=
  sInf {count | term factor numerator denominator count = 0}

/-- The factor times the exponential of the fraction, rounded down at every step. -/
noncomputable def fakeExponential (factor numerator denominator : Nat) : Nat :=
  partialSum factor numerator denominator (rounds factor numerator denominator) / denominator

variable {factor numerator larger denominator count more : Nat}

section Ends

/-- A term that is zero is followed by zeros only. -/
theorem term_eq_zero (zero : term factor numerator denominator count = 0) (le : count ≤ more) :
    term factor numerator denominator more = 0 := by
  induction le with
  | refl => exact zero
  | step _ ih => rw [term, ih, Nat.zero_mul, Nat.zero_div]

/-- Once the index is past the fraction, a term is smaller than the last one. -/
theorem term_succ_lt (past : numerator < denominator * (count + 1))
    (positive : 0 < term factor numerator denominator count) :
    term factor numerator denominator (count + 1) < term factor numerator denominator count := by
  rw [term]
  exact Nat.div_lt_of_lt_mul (by
    rw [Nat.mul_comm (denominator * (count + 1))]
    exact Nat.mul_lt_mul_of_pos_left past positive)

/-- So the loop ends for every fraction. -/
theorem exists_term_eq_zero (positive : 0 < denominator) (factor numerator : Nat) :
    ∃ count, term factor numerator denominator count = 0 := by
  -- From the numerator on the terms fall, and they can only do so for as long as they are positive.
  have falls : ∀ bound count, numerator ≤ count →
      term factor numerator denominator count ≤ bound →
      ∃ count, term factor numerator denominator count = 0 := by
    intro bound
    induction bound with
    | zero => exact fun count _ small => ⟨count, Nat.le_zero.mp small⟩
    | succ bound ih =>
      intro count le small
      by_cases zero : term factor numerator denominator count = 0
      · exact ⟨count, zero⟩
      · have past : numerator < denominator * (count + 1) :=
          Nat.lt_of_lt_of_le (Nat.lt_succ_of_le le) (Nat.le_mul_of_pos_left _ positive)
        have less := term_succ_lt past (Nat.pos_of_ne_zero zero)
        exact ih (count + 1) (Nat.le_succ_of_le le) (by omega)
  exact falls _ numerator (Nat.le_refl _) (Nat.le_refl _)

/-- After these rounds the terms have vanished. -/
theorem term_rounds (positive : 0 < denominator) (factor numerator : Nat) :
    term factor numerator denominator (rounds factor numerator denominator) = 0 :=
  Nat.sInf_mem (s := {count | term factor numerator denominator count = 0})
    (exists_term_eq_zero positive factor numerator)

/-- Terms behind a zero add nothing. -/
theorem partialSum_eq (zero : term factor numerator denominator count = 0) (le : count ≤ more) :
    partialSum factor numerator denominator more = partialSum factor numerator denominator count := by
  unfold partialSum
  refine (sum_subset (range_subset_range.mpr le) fun k _ outside => ?_).symm
  exact term_eq_zero zero (Nat.not_lt.mp (mt mem_range.mpr outside))

/-- The value may be summed up to any zero. -/
theorem fakeExponential_eq (zero : term factor numerator denominator count = 0) :
    fakeExponential factor numerator denominator =
      partialSum factor numerator denominator count / denominator := by
  have le : rounds factor numerator denominator ≤ count := Nat.sInf_le zero
  have last : term factor numerator denominator (rounds factor numerator denominator) = 0 :=
    Nat.sInf_mem (s := {count | term factor numerator denominator count = 0}) ⟨count, zero⟩
  unfold fakeExponential
  rw [partialSum_eq last le]

/-- A sum has one more term than the one before. -/
theorem partialSum_succ (factor numerator denominator count : Nat) :
    partialSum factor numerator denominator (count + 1) =
      partialSum factor numerator denominator count + term factor numerator denominator count :=
  sum_range_succ _ count

/-- Sums grow with the number of terms. -/
theorem partialSum_mono (le : count ≤ more) :
    partialSum factor numerator denominator count ≤ partialSum factor numerator denominator more :=
  sum_le_sum_of_subset (range_subset_range.mpr le)

/-- No partial sum exceeds the value by more than the last division hides. -/
theorem partialSum_div_le (positive : 0 < denominator) :
    partialSum factor numerator denominator count / denominator ≤
      fakeExponential factor numerator denominator := by
  apply Nat.div_le_div_right
  rcases Nat.le_total count (rounds factor numerator denominator) with le | le
  · exact partialSum_mono le
  · exact Nat.le_of_eq (partialSum_eq (term_rounds positive factor numerator) le)

end Ends

section Monotonicity

/-- Every term grows with the numerator. -/
theorem term_mono (le : numerator ≤ larger) (count : Nat) :
    term factor numerator denominator count ≤ term factor larger denominator count := by
  induction count with
  | zero => exact Nat.le_refl _
  | succ count ih => exact Nat.div_le_div_right (Nat.mul_le_mul ih le)

/-- Sums grow with the numerator. -/
theorem partialSum_le (le : numerator ≤ larger) (count : Nat) :
    partialSum factor numerator denominator count ≤ partialSum factor larger denominator count :=
  sum_le_sum fun k _ => term_mono le k

/-- And so does the value. -/
theorem fakeExponential_mono (positive : 0 < denominator) (le : numerator ≤ larger) :
    fakeExponential factor numerator denominator ≤ fakeExponential factor larger denominator := by
  -- Where the terms of the larger one end, those of the smaller one have ended too.
  have last := term_rounds positive factor larger
  have zero := Nat.le_zero.mp (last ▸ term_mono le (rounds factor larger denominator))
  rw [fakeExponential_eq zero]
  exact Nat.div_le_div_right (partialSum_le le _)

end Monotonicity

section Evaluation

/-- A run of the series: where it stands, the sum so far, and the largest product so far. -/
structure Run where
  index : Nat
  accum : Nat
  sum : Nat
  largest : Nat

def Run.start (factor denominator : Nat) : Run := ⟨0, factor * denominator, 0, 0⟩

/-- One term more. -/
def Run.round (numerator denominator : Nat) (run : Run) : Run where
  index := run.index + 1
  accum := run.accum * numerator / (denominator * (run.index + 1))
  sum := run.sum + run.accum
  largest := max run.largest (run.accum * numerator)

def Run.rounds (numerator denominator : Nat) : Nat → Run → Run
  | 0, run => run
  | count + 1, run => Run.rounds numerator denominator count (run.round numerator denominator)

/-- What a run has computed after so many terms. -/
structure Run.At (factor numerator denominator : Nat) (run : Run) : Prop where
  accum : run.accum = term factor numerator denominator run.index
  sum : run.sum = partialSum factor numerator denominator run.index
  largest : ∀ k < run.index, term factor numerator denominator k * numerator ≤ run.largest

/-- A round computes the next term and adds the present one. -/
theorem Run.At.round {run : Run} (holds : run.At factor numerator denominator) :
    (run.round numerator denominator).At factor numerator denominator := by
  obtain ⟨accum, sum, largest⟩ := holds
  constructor
  · simp only [Run.round, accum, term]
  · simp only [Run.round, accum, sum, partialSum_succ]
  · intro k below
    rcases Nat.lt_succ_iff_lt_or_eq.mp below with before | rfl
    · exact (largest k before).trans (Nat.le_max_left _ _)
    · exact accum ▸ Nat.le_max_right _ _

/-- So many rounds compute so many terms. -/
theorem Run.At.rounds {run : Run} (holds : run.At factor numerator denominator) (count : Nat) :
    (Run.rounds numerator denominator count run).At factor numerator denominator ∧
      (Run.rounds numerator denominator count run).index = run.index + count := by
  induction count generalizing run with
  | zero => exact ⟨holds, rfl⟩
  | succ count ih =>
    obtain ⟨last, index⟩ := ih holds.round
    refine ⟨last, index.trans ?_⟩
    simp only [Run.round]
    omega

/-- At the start the first term is held. -/
theorem Run.at_start (factor numerator denominator : Nat) :
    (Run.start factor denominator).At factor numerator denominator :=
  ⟨rfl, rfl, fun k below => absurd below (Nat.not_lt_zero k)⟩

/-- So running the series computes its terms and sums. -/
theorem Run.at_rounds (factor numerator denominator count : Nat) :
    (Run.rounds numerator denominator count (.start factor denominator)).At factor numerator
        denominator ∧
      (Run.rounds numerator denominator count (.start factor denominator)).index = count := by
  obtain ⟨holds, index⟩ := (Run.at_start factor numerator denominator).rounds count
  exact ⟨holds, index.trans (Nat.zero_add count)⟩

end Evaluation

end FakeExponential
