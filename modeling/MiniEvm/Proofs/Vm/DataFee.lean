import MiniEvm.Series.FakeExponential
import MiniEvm.Vm.DataFee

/-! When the base fee of blobs is the exponential it stands for: until a product leaves its
range. -/

namespace MiniEvm

open FakeExponential calcDataFee

/-- The fee of some excess blob gas over the unbounded integers. -/
noncomputable def exactDataFee (excess : Nat) : Nat :=
  fakeExponential minBlobBaseFee excess blobBaseFeeUpdateFraction

/-- The terms of that fee. -/
def feeTerm (excess : Nat) : Nat → Nat := term minBlobBaseFee excess blobBaseFeeUpdateFraction

/-- Their sums. -/
def feeSum (excess : Nat) : Nat → Nat := partialSum minBlobBaseFee excess blobBaseFeeUpdateFraction

/-- The most excess blob gas for which every product of the series is a word. -/
def largestExactExcess : Nat := 486854878

/-- The most excess blob gas for which the fee itself is one. -/
def largestPricedExcess : Nat := 592398315

section Thresholds

/-- The series computed for so many rounds. -/
def feeRun (excess count : Nat) : Run :=
  Run.rounds excess blobBaseFeeUpdateFraction count
    (Run.start minBlobBaseFee blobBaseFeeUpdateFraction)

/-- It stands where the rounds have brought it. -/
theorem feeRun_at (excess count : Nat) :
    (feeRun excess count).At minBlobBaseFee excess blobBaseFeeUpdateFraction ∧
      (feeRun excess count).index = count :=
  Run.at_rounds minBlobBaseFee excess blobBaseFeeUpdateFraction count

/-- It holds the term that comes next. -/
theorem feeRun_accum (excess count : Nat) : (feeRun excess count).accum = feeTerm excess count := by
  obtain ⟨holds, index⟩ := feeRun_at excess count
  rw [holds.accum, index, feeTerm]

/-- It holds the sum of the terms before that. -/
theorem feeRun_sum (excess count : Nat) : (feeRun excess count).sum = feeSum excess count := by
  obtain ⟨holds, index⟩ := feeRun_at excess count
  rw [holds.sum, index, feeSum]

/-- It holds the largest product that it came across, or more. -/
theorem feeRun_largest {excess count k : Nat} (below : k < count) :
    feeTerm excess k * excess ≤ (feeRun excess count).largest := by
  obtain ⟨holds, index⟩ := feeRun_at excess count
  rw [← index] at below
  exact holds.largest k below

/-- A run to the end of the series evaluates the fee. -/
theorem exactDataFee_of_run {excess : Nat} (count : Nat) (zero : (feeRun excess count).accum = 0) :
    exactDataFee excess = (feeRun excess count).sum / blobBaseFeeUpdateFraction := by
  -- A run that holds a zero has summed up the whole series.
  rw [feeRun_accum] at zero
  rw [feeRun_sum]
  exact fakeExponential_eq zero

/-- Every term grows with the excess. -/
theorem feeTerm_mono {excess larger : Nat} (le : excess ≤ larger) (k : Nat) :
    feeTerm excess k ≤ feeTerm larger k := term_mono le k

/-- Every sum grows with the excess. -/
theorem feeSum_mono {excess larger : Nat} (le : excess ≤ larger) (count : Nat) :
    feeSum excess count ≤ feeSum larger count := partialSum_le le count

/-- A series over at most this much is over within 408 terms, and no number in it needs more
bits. -/
theorem series_fits {excess : Nat} (le : excess ≤ largestExactExcess) :
    feeTerm excess 408 = 0 ∧ feeSum excess 408 < 2 ^ 256 ∧
      ∀ k < 408, feeTerm excess k * excess < 2 ^ 256 := by
  -- The terms grow with the excess, so the run for the largest one bounds them all.
  have computed : (feeRun largestExactExcess 408).accum = 0 ∧
      (feeRun largestExactExcess 408).sum < 2 ^ 256 ∧
      (feeRun largestExactExcess 408).largest < 2 ^ 256 := by decide +kernel
  obtain ⟨accum, sum, largest⟩ := computed
  rw [feeRun_accum] at accum
  rw [feeRun_sum] at sum
  have last : feeTerm excess 408 ≤ 0 := accum ▸ feeTerm_mono le 408
  refine ⟨Nat.le_zero.mp last, Nat.lt_of_le_of_lt (feeSum_mono le 408) sum, fun k below => ?_⟩
  have product : feeTerm excess k * excess ≤ feeTerm largestExactExcess k * largestExactExcess :=
    Nat.mul_le_mul (feeTerm_mono le k) le
  exact Nat.lt_of_le_of_lt (product.trans (feeRun_largest below)) largest

/-- The product behind term 145 of a series over more than this is no word. -/
theorem series_overflows {excess : Nat} (above : largestExactExcess < excess) :
    2 ^ 256 ≤ feeTerm excess 145 * excess := by
  -- The terms grow with the excess, so the next one decides.
  have computed : 2 ^ 256 ≤
      (feeRun (largestExactExcess + 1) 145).accum * (largestExactExcess + 1) := by decide +kernel
  rw [feeRun_accum] at computed
  exact computed.trans (Nat.mul_le_mul (feeTerm_mono above 145) above)

/-- The fee grows with the excess. -/
theorem exactDataFee_mono {excess larger : Nat} (le : excess ≤ larger) :
    exactDataFee excess ≤ exactDataFee larger :=
  fakeExponential_mono (by decide) le

/-- The fee over the integers is a word up to its own bound. -/
theorem exactDataFee_lt_iff (excess : Nat) :
    exactDataFee excess < 2 ^ 256 ↔ excess ≤ largestPricedExcess := by
  -- Both series on the bound are over within 494 terms.
  constructor
  · -- Above the bound the fee is at least that of the next excess, which is no word.
    intro small
    by_contra above
    have first : 2 ^ 256 ≤ exactDataFee (largestPricedExcess + 1) := by
      rw [exactDataFee_of_run 494 (by decide +kernel)]
      decide +kernel
    have grown := exactDataFee_mono (Nat.succ_le_of_lt (Nat.not_le.mp above))
    exact absurd small (Nat.not_lt.mpr (first.trans grown))
  · intro le
    have last : exactDataFee largestPricedExcess < 2 ^ 256 := by
      rw [exactDataFee_of_run 494 (by decide +kernel)]
      decide +kernel
    exact Nat.lt_of_le_of_lt (exactDataFee_mono le) last

end Thresholds

section Loop

variable {excess : Word} {series : Series} {k : Nat}

/-- What the variables of the loop hold before its round number `k`, counted from zero. -/
structure SeriesAt (excess : Word) (k : Nat) (series : Series) : Prop where
  accum : series.numeratorAccum.toNat = feeTerm excess.toNat k
  output : series.output.toNat = feeSum excess.toNat k % 2 ^ 256
  i : series.i.toNat = k + 1

/-- Before its first round the loop holds the first term. -/
theorem seriesAt_start (excess : Word) : SeriesAt excess 0 .start := ⟨rfl, rfl, rfl⟩

/-- A round adds the term it holds. -/
theorem SeriesAt.output_round (holds : SeriesAt excess k series) :
    (series.round excess).output.toNat = feeSum excess.toNat (k + 1) % 2 ^ 256 := by
  have next : feeSum excess.toNat (k + 1) = feeSum excess.toNat k + feeTerm excess.toNat k :=
    partialSum_succ ..
  show (series.output + series.numeratorAccum).toNat = _
  rw [BitVec.toNat_add, holds.output, holds.accum, next, Nat.mod_add_mod]

/-- Where the product is a word, a round computes the next term. -/
theorem SeriesAt.round (holds : SeriesAt excess k series) (early : k < 408)
    (fits : feeTerm excess.toNat k * excess.toNat < 2 ^ 256) :
    SeriesAt excess (k + 1) (series.round excess) := by
  -- The divisor stays far below a word in the first 408 rounds.
  have divisor : (denominator * series.i).toNat = blobBaseFeeUpdateFraction * (k + 1) := by
    rw [BitVec.toNat_mul, holds.i]
    have value : denominator.toNat = 3338477 := rfl
    rw [value, blobBaseFeeUpdateFraction]
    omega
  have nonzero : denominator * series.i ≠ 0 := by
    intro zero
    have none_left : blobBaseFeeUpdateFraction * (k + 1) = 0 := by
      rw [← divisor, zero]
      rfl
    rw [blobBaseFeeUpdateFraction] at none_left
    omega
  refine ⟨?_, holds.output_round, ?_⟩
  · rw [← holds.accum] at fits
    have product : (series.numeratorAccum * excess).toNat =
        feeTerm excess.toNat k * excess.toNat := by
      rw [BitVec.toNat_mul, Nat.mod_eq_of_lt fits, holds.accum]
    simp only [Series.round, Word.checkedMul, if_pos fits, Option.bind_some, Word.checkedDiv,
      if_neg nonzero, Option.getD_some, BitVec.toNat_udiv, product, divisor]
    rfl
  · -- The counter is small, and does not wrap.
    have next : (series.round excess).i.toNat = (k + 1 + 1) % 2 ^ 256 := by
      show (series.i + 1).toNat = _
      rw [BitVec.toNat_add, holds.i]
      rfl
    omega

/-- Where it is none, the series ends. -/
theorem SeriesAt.round_of_overflow (holds : SeriesAt excess k series)
    (large : 2 ^ 256 ≤ feeTerm excess.toNat k * excess.toNat) :
    (series.round excess).numeratorAccum = 0 := by
  rw [← holds.accum] at large
  simp only [Series.round, Word.checkedMul, if_neg (Nat.not_lt.mpr large), Option.bind_none,
    Option.getD_none]

/-- The loop returns when its term is zero. -/
theorem loop_of_zero (zero : series.numeratorAccum.toNat = 0) (rounds : Nat) :
    loop excess (rounds + 1) series = some (series.output / denominator) := by
  apply if_neg
  intro positive
  exact absurd zero (Nat.ne_of_gt (BitVec.lt_def.mp positive))

/-- Before that it goes round once more. -/
theorem loop_of_positive (positive : 0 < series.numeratorAccum.toNat) (rounds : Nat) :
    loop excess (rounds + 1) series = loop excess rounds (series.round excess) :=
  if_pos (show (0 : Word) < series.numeratorAccum from BitVec.lt_def.mpr positive)

/-- The last term the loop adds: the series ends with it, or the product behind it is no word. -/
structure LastTerm (excess last : Nat) : Prop where
  before : ∀ j < last, 0 < feeTerm excess j ∧ feeTerm excess j * excess < 2 ^ 256
  ends : feeTerm excess last = 0 ∨ 2 ^ 256 ≤ feeTerm excess last * excess

/-- Some term is the last, and it is among the first 409. -/
theorem exists_lastTerm (excess : Nat) : ∃ last ≤ 408, LastTerm excess last := by
  classical
  -- A series within the bound vanishes, and one beyond it overflows before.
  have some_end : ∃ last ≤ 408,
      feeTerm excess last = 0 ∨ 2 ^ 256 ≤ feeTerm excess last * excess := by
    rcases Nat.lt_or_ge largestExactExcess excess with above | le
    · exact ⟨145, by decide, Or.inr (series_overflows above)⟩
    · exact ⟨408, Nat.le_refl _, Or.inl (series_fits le).1⟩
  obtain ⟨bounded, ends⟩ := Nat.find_spec some_end
  refine ⟨Nat.find some_end, bounded, fun j below => ?_, ends⟩
  have goes_on := Nat.find_min some_end below
  push Not at goes_on
  obtain ⟨nonzero, fits⟩ := goes_on (by omega)
  exact ⟨Nat.pos_of_ne_zero nonzero, fits⟩

/-- Up to its last term the loop follows the series. -/
theorem loop_follows {excess : Word} {last : Nat} (ends : LastTerm excess.toNat last)
    (early : last ≤ 408) :
    ∀ k ≤ last, ∃ series, SeriesAt excess k series ∧
      ∀ more, loop excess (k + more) .start = loop excess more series := by
  intro k
  induction k with
  | zero => exact fun _ => ⟨.start, seriesAt_start excess, fun more => by rw [Nat.zero_add]⟩
  | succ k ih =>
    intro le
    -- Before its last term the loop neither stops nor overflows.
    obtain ⟨series, holds, same⟩ := ih (by omega)
    obtain ⟨positive, fits⟩ := ends.before k le
    refine ⟨series.round excess, holds.round (by omega) fits, fun more => ?_⟩
    rw [Nat.add_right_comm, Nat.add_assoc, same, loop_of_positive (holds.accum ▸ positive)]

/-- Then it returns what it has added. -/
theorem calcDataFee_eq {excess : Word} {last : Nat} (ends : LastTerm excess.toNat last)
    (early : last ≤ 408) {rounds : Nat} (enough : last + 2 ≤ rounds) :
    calcDataFee rounds excess =
      some (BitVec.ofNat 256 (feeSum excess.toNat (last + 1)) / denominator) := by
  obtain ⟨series, holds, same⟩ := loop_follows ends early last (Nat.le_refl _)
  obtain ⟨more, rfl⟩ := Nat.exists_eq_add_of_le enough
  have output : ∀ output : Word, output.toNat = feeSum excess.toNat (last + 1) % 2 ^ 256 →
      output = BitVec.ofNat 256 (feeSum excess.toNat (last + 1)) :=
    fun _ value => BitVec.eq_of_toNat_eq value
  rw [calcDataFee, Nat.add_assoc, same, Nat.add_comm 2 more]
  rcases Nat.eq_zero_or_pos (feeTerm excess.toNat last) with zero | positive
  · -- The loop is left before it adds the zero.
    rw [loop_of_zero (holds.accum ▸ zero), ← output _ (holds.output.trans ?_)]
    have next : feeSum excess.toNat (last + 1) = feeSum excess.toNat last + feeTerm excess.toNat last :=
      partialSum_succ ..
    rw [next, zero, Nat.add_zero]
  · have large := ends.ends.resolve_left (Nat.ne_of_gt positive)
    rw [loop_of_positive (holds.accum ▸ positive),
      loop_of_zero (congrArg BitVec.toNat (holds.round_of_overflow large)),
      ← output _ holds.output_round]

/-- More rounds than enough change nothing. -/
theorem loop_mono {rounds : Nat} {fee : Word} (returned : loop excess rounds series = some fee)
    (more : Nat) : loop excess (rounds + more) series = some fee := by
  -- The induction follows the rounds that were enough.
  induction rounds generalizing series with
  | zero => exact nomatch returned
  | succ rounds ih =>
    rw [Nat.add_right_comm]
    rcases Nat.eq_zero_or_pos series.numeratorAccum.toNat with zero | positive
    · rw [loop_of_zero zero] at returned ⊢
      exact returned
    · rw [loop_of_positive positive] at returned ⊢
      exact ih returned

/-- So whatever it returns is that. -/
theorem calcDataFee_returns {excess : Word} {last : Nat} (ends : LastTerm excess.toNat last)
    (early : last ≤ 408) {rounds : Nat} {fee : Word} (returned : calcDataFee rounds excess = some fee) :
    fee.toNat = feeSum excess.toNat (last + 1) % 2 ^ 256 / blobBaseFeeUpdateFraction := by
  -- Given still more rounds, it is the run whose fee is known.
  have same := loop_mono returned (last + 2)
  rw [← calcDataFee, calcDataFee_eq ends early (Nat.le_add_left _ _)] at same
  rw [← Option.some.inj same]
  rfl

end Loop

section Exactness

variable {excess : Word}

/-- The loop comes to a fee; where the exact fee is a word, it is that one, and no smaller excess has
a larger one. -/
structure DataFeeExact (excess : Word) : Prop where
  terminates : ∃ rounds fee, ∀ more ≥ rounds, calcDataFee more excess = some fee
  exact : ∀ rounds fee, calcDataFee rounds excess = some fee →
    exactDataFee excess.toNat < 2 ^ 256 → fee.toNat = exactDataFee excess.toNat
  monotone : ∀ smaller ≤ excess, ∀ rounds less fee, calcDataFee rounds smaller = some less →
    calcDataFee rounds excess = some fee → exactDataFee excess.toNat < 2 ^ 256 → less ≤ fee

/-- Every product of the series is a word: the fee is exact. -/
theorem calcDataFee_exact (le : excess.toNat ≤ largestExactExcess) {rounds : Nat} {fee : Word}
    (returned : calcDataFee rounds excess = some fee) :
    fee.toNat = exactDataFee excess.toNat := by
  obtain ⟨last, early, ends⟩ := exists_lastTerm excess.toNat
  obtain ⟨vanished, sum, fits⟩ := series_fits le
  -- Within the bound nothing overflows, so that the last term is a zero.
  have zero : feeTerm excess.toNat last = 0 := by
    rcases Nat.lt_or_eq_of_le early with below | rfl
    · exact ends.ends.resolve_right (Nat.not_le.mpr (fits last below))
    · exact vanished
  have value : feeSum excess.toNat (last + 1) = feeSum excess.toNat last :=
    partialSum_eq zero (Nat.le_succ last)
  have small : feeSum excess.toNat last < 2 ^ 256 := Nat.lt_of_le_of_lt (partialSum_mono early) sum
  rw [calcDataFee_returns ends early returned, value, Nat.mod_eq_of_lt small]
  exact (fakeExponential_eq zero).symm

/-- Some product is no word: the term behind it is lost, which is worth more than the last division
hides. -/
theorem calcDataFee_lt (above : largestExactExcess < excess.toNat) {rounds : Nat} {fee : Word}
    (returned : calcDataFee rounds excess = some fee) :
    fee.toNat < exactDataFee excess.toNat := by
  obtain ⟨last, early, ends⟩ := exists_lastTerm excess.toNat
  have product := series_overflows above
  -- The overflow comes at term 145 or before.
  have index : last ≤ 145 := by
    by_contra later
    have fits := (ends.before 145 (Nat.not_le.mp later)).2
    omega
  have positive : feeTerm excess.toNat last ≠ 0 := by
    intro zero
    have none_left : feeTerm excess.toNat 145 = 0 := term_eq_zero zero index
    rw [none_left, Nat.zero_mul] at product
    exact absurd product (by decide)
  -- The lost term is worth a unit of the fee.
  have lost : blobBaseFeeUpdateFraction ≤ feeTerm excess.toNat (last + 1) := by
    have large := ends.ends.resolve_left positive
    have divisor : 0 < blobBaseFeeUpdateFraction * (last + 1) := by
      rw [blobBaseFeeUpdateFraction]
      omega
    have room : blobBaseFeeUpdateFraction * (blobBaseFeeUpdateFraction * (last + 1)) ≤ 2 ^ 256 :=
      calc blobBaseFeeUpdateFraction * (blobBaseFeeUpdateFraction * (last + 1))
          ≤ blobBaseFeeUpdateFraction * (blobBaseFeeUpdateFraction * 146) :=
            Nat.mul_le_mul_left _ (Nat.mul_le_mul_left _ (Nat.succ_le_succ index))
        _ ≤ 2 ^ 256 := by decide
    have value : feeTerm excess.toNat (last + 1) =
        feeTerm excess.toNat last * excess.toNat / (blobBaseFeeUpdateFraction * (last + 1)) := rfl
    rw [value]
    exact (Nat.le_div_iff_mul_le divisor).mpr (room.trans large)
  have sums : feeSum excess.toNat (last + 1) + blobBaseFeeUpdateFraction ≤
      feeSum excess.toNat (last + 2) := by
    have next : feeSum excess.toNat (last + 2) =
        feeSum excess.toNat (last + 1) + feeTerm excess.toNat (last + 1) := partialSum_succ ..
    omega
  rw [calcDataFee_returns ends early returned]
  calc feeSum excess.toNat (last + 1) % 2 ^ 256 / blobBaseFeeUpdateFraction
      ≤ feeSum excess.toNat (last + 1) / blobBaseFeeUpdateFraction :=
        Nat.div_le_div_right (Nat.mod_le _ _)
    _ < (feeSum excess.toNat (last + 1) + blobBaseFeeUpdateFraction) / blobBaseFeeUpdateFraction := by
        rw [Nat.add_div_right _ (by decide)]
        exact Nat.lt_succ_self _
    _ ≤ feeSum excess.toNat (last + 2) / blobBaseFeeUpdateFraction := Nat.div_le_div_right sums
    _ ≤ exactDataFee excess.toNat := partialSum_div_le (by decide)

/-- So the loop ends for every excess. -/
theorem calcDataFee_terminates (excess : Word) :
    ∃ rounds fee, ∀ more ≥ rounds, calcDataFee more excess = some fee := by
  obtain ⟨last, early, ends⟩ := exists_lastTerm excess.toNat
  exact ⟨last + 2, _, fun _ enough => calcDataFee_eq ends early enough⟩

/-- The fee is the exponential it stands for, where that is a word at all, up to the most excess blob
gas for which every product of the series is one. -/
theorem dataFee_exact_iff (excess : Word) :
    DataFeeExact excess ↔
      excess.toNat ≤ largestExactExcess ∨ largestPricedExcess < excess.toNat := by
  constructor
  · -- Between the bounds the fee is a word, but the loop falls short of it.
    intro holds
    by_contra between
    push Not at between
    obtain ⟨rounds, fee, returned⟩ := holds.terminates
    have value := holds.exact rounds fee (returned rounds (Nat.le_refl _))
      ((exactDataFee_lt_iff _).mpr between.2)
    exact absurd value (Nat.ne_of_lt (calcDataFee_lt between.1 (returned rounds (Nat.le_refl _))))
  · rintro (le | above)
    · refine ⟨calcDataFee_terminates excess, fun _ _ returned _ => calcDataFee_exact le returned, ?_⟩
      intro smaller below rounds less fee first second _
      rw [BitVec.le_def] at below ⊢
      rw [calcDataFee_exact (below.trans le) first, calcDataFee_exact le second]
      exact exactDataFee_mono below
    · have large : ¬ exactDataFee excess.toNat < 2 ^ 256 :=
        fun small => absurd ((exactDataFee_lt_iff _).mp small) (Nat.not_le.mpr above)
      exact ⟨calcDataFee_terminates excess, fun _ _ _ small => absurd small large,
        fun _ _ _ _ _ _ _ small => absurd small large⟩

/-- At half a billion the fee is a word, but not the one the loop comes to. -/
theorem dataFee_inexact : ¬ DataFeeExact 500000000 := by
  intro holds
  obtain ⟨rounds, fee, returned⟩ := holds.terminates
  have value := holds.exact rounds fee (returned rounds (Nat.le_refl _))
    ((exactDataFee_lt_iff _).mpr (by decide))
  exact absurd value (Nat.ne_of_lt (calcDataFee_lt (by decide) (returned rounds (Nat.le_refl _))))

end Exactness

end MiniEvm
