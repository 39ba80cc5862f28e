import Mathlib.Data.Nat.ModEq
import Mathlib.Tactic.Ring
import MiniEvm.Loops.While
import MiniEvm.Proofs.Vm.Operands

/-! Modular arithmetic without wider words, and the two loops that double and that square. -/

namespace MiniEvm

open Loops

section Residues

/-- A sum of words, where it is a word itself. -/
def sumInRange (a b : Word) : Option Word := if a.toNat + b.toNat < 2 ^ 256 then some (a + b) else none

/-- A difference of words, where it is not negative. -/
def differenceInRange (a b : Word) : Option Word := if b ≤ a then some (a - b) else none

/-- The sum of two residues as ADDMOD and MULMOD form it. -/
def residueSum (modulus a b : Word) : Word :=
  if a ≥ modulus - b then a - (modulus - b) else a + b

/-- The same sum, which fails as soon as an addition or a subtraction leaves its range. -/
def residueSumChecked (modulus a b : Word) : Option Word := do
  let gap ← differenceInRange modulus b
  if a ≥ gap then differenceInRange a gap else sumInRange a b

variable {modulus a b : Word}

/-- A difference not below zero is in range. -/
theorem differenceInRange_of_le (le : b ≤ a) : differenceInRange a b = some (a - b) := if_pos le

/-- A sum below 2^256 is in range. -/
theorem sumInRange_of_lt (small : a.toNat + b.toNat < 2 ^ 256) :
    sumInRange a b = some (a + b) := if_pos small

/-- Where no check fails, the sum is the unchecked one. -/
theorem residueSum_of_checked {sum : Word} (checked : residueSumChecked modulus a b = some sum) :
    sum = residueSum modulus a b := by
  unfold residueSumChecked differenceInRange sumInRange at checked
  simp only [Option.bind_eq_bind, Option.bind_eq_some_iff, Option.ite_none_right_eq_some,
    Option.some.injEq] at checked
  obtain ⟨gap, ⟨_, rfl⟩, rest⟩ := checked
  unfold residueSum
  -- The comparison is the same in both, and the checks only guard what is returned.
  by_cases reaches : a ≥ modulus - b
  · rw [if_pos reaches] at rest ⊢
    simp only [Option.ite_none_right_eq_some, Option.some.injEq] at rest
    exact rest.2.symm
  · rw [if_neg reaches] at rest ⊢
    simp only [Option.ite_none_right_eq_some, Option.some.injEq] at rest
    exact rest.2.symm

/-- What is missing to the modulus, as a number. -/
theorem toNat_gap (residue : b < modulus) : (modulus - b).toNat = modulus.toNat - b.toNat :=
  BitVec.toNat_sub_of_le (BitVec.le_of_lt residue)

/-- For residues no operation leaves its range. -/
theorem residueSumChecked_eq (right : b < modulus) :
    residueSumChecked modulus a b = some (residueSum modulus a b) := by
  unfold residueSumChecked residueSum
  rw [differenceInRange_of_le (BitVec.le_of_lt right), Option.bind_eq_bind, Option.bind_some]
  -- The comparison decides whether the sum would reach the modulus.
  by_cases reaches : a ≥ modulus - b
  · rw [if_pos reaches, if_pos reaches, differenceInRange_of_le reaches]
  · rw [if_neg reaches, if_neg reaches]
    apply sumInRange_of_lt
    -- Below the gap the sum stays below the modulus, which is a word itself.
    have below := BitVec.lt_def.mp (BitVec.not_le.mp reaches)
    rw [toNat_gap right] at below
    have bound := modulus.isLt
    omega

/-- It is the sum modulo the modulus. -/
theorem toNat_residueSum (left : a < modulus) (right : b < modulus) :
    (residueSum modulus a b).toNat = (a.toNat + b.toNat) % modulus.toNat := by
  have gap := toNat_gap right
  have small := BitVec.lt_def.mp left
  have small' := BitVec.lt_def.mp right
  unfold residueSum
  by_cases reaches : a ≥ modulus - b
  · -- The modulus is taken off once, which is enough for two residues.
    have above := BitVec.le_def.mp reaches
    rw [if_pos reaches, BitVec.toNat_sub_of_le reaches, gap]
    rw [gap] at above
    rw [Nat.mod_eq_sub_mod (by omega), Nat.mod_eq_of_lt (by omega)]
    omega
  · -- Nothing to take off: the sum is below the modulus already.
    have below := BitVec.lt_def.mp (BitVec.not_le.mp reaches)
    rw [gap] at below
    have bound := modulus.isLt
    rw [if_neg reaches, BitVec.toNat_add_of_lt (by omega), Nat.mod_eq_of_lt (by omega)]

/-- So it is a residue again. -/
theorem residueSum_lt (left : a < modulus) (right : b < modulus) :
    residueSum modulus a b < modulus := by
  rw [BitVec.lt_def, toNat_residueSum left right]
  exact Nat.mod_lt _ (Nat.lt_of_le_of_lt (Nat.zero_le _) (BitVec.lt_def.mp left))

/-- A remainder is a residue. -/
theorem umod_lt_of_ne_zero (nonzero : modulus ≠ 0) : a % modulus < modulus := by
  apply BitVec.umod_lt
  simpa [BitVec.lt_def, BitVec.toNat_eq, Nat.pos_iff_ne_zero] using nonzero

end Residues

section Addmod

/-- ADDMOD with every operation checked. -/
def addmodChecked (modulus b a : Word) : Option Word :=
  if modulus = 0 then some 0 else residueSumChecked modulus (a % modulus) (b % modulus)

variable {modulus : Word}

/-- None of the intermediate results of a modular sum leaves the range. -/
theorem addmodChecked_eq (modulus b a : Word) :
    addmodChecked modulus b a = some (addmod modulus b a) := by
  unfold addmodChecked addmod
  by_cases zero : modulus = 0
  · rw [if_pos zero, if_pos zero]
  · rw [if_neg zero, if_neg zero]
    exact residueSumChecked_eq (umod_lt_of_ne_zero zero)

/-- The sum is the one over the integers. -/
theorem toNat_addmod (nonzero : modulus ≠ 0) (b a : Word) :
    (addmod modulus b a).toNat = (a.toNat + b.toNat) % modulus.toNat := by
  unfold addmod
  rw [if_neg nonzero]
  -- Both operands are reduced first, and their sum once more.
  have sum := toNat_residueSum (umod_lt_of_ne_zero (a := a) nonzero)
    (umod_lt_of_ne_zero (a := b) nonzero)
  rw [BitVec.toNat_umod, BitVec.toNat_umod, ← Nat.add_mod] at sum
  exact sum

end Addmod

section Mulmod

/-- What MULMOD keeps from round to round. -/
structure MulmodState where
  factor : Word
  multiplier : Word
  result : Word

/-- The result after a round, which takes the factor in if the lowest bit asks for it. -/
def MulmodState.addedChecked (modulus : Word) (state : MulmodState) : Option Word :=
  if state.multiplier &&& 1 ≠ 0 then residueSumChecked modulus state.result state.factor
  else some state.result

/-- One round of MULMOD, which fails as soon as an addition or a subtraction leaves its range. -/
def mulmodRound (modulus : Word) (state : MulmodState) : Option MulmodState := do
  let result ← state.addedChecked modulus
  let factor ← residueSumChecked modulus state.factor state.factor
  return { factor, multiplier := state.multiplier >>> 1, result }

/-- The loop of MULMOD, with every operation checked. -/
def MulmodLoop (modulus : Word) : Nat → MulmodState → MulmodState → Prop :=
  Ends (fun state => state.multiplier ≠ 0) fun state next => mulmodRound modulus state = some next

/--
What holds between two rounds, with so many bits of the multiplier left at most.

The result and what the remaining bits are still going to add make up the product.
-/
structure MulmodInvariant (modulus : Word) (product bits : Nat) (state : MulmodState) : Prop where
  bits : state.multiplier.toNat < 2 ^ bits
  factor : state.factor < modulus
  result : state.result < modulus
  total : (state.result.toNat + state.factor.toNat * state.multiplier.toNat) % modulus.toNat =
    product % modulus.toNat

/-- The lowest bit of a word as the loops test it. -/
theorem and_one_ne_zero (value : Word) : value &&& 1 ≠ 0 ↔ value.toNat % 2 = 1 := by
  rw [Ne, BitVec.toNat_eq, BitVec.toNat_and]
  show ¬ value.toNat &&& 1 = 0 ↔ _
  -- As a number, the lowest bit is the remainder by two.
  rw [Nat.and_one_is_mod]
  omega

/-- A shift by one halves. -/
theorem toNat_shiftRight_one (value : Word) : (value >>> 1).toNat = value.toNat / 2 := by
  rw [BitVec.toNat_ushiftRight, Nat.shiftRight_eq_div_pow, Nat.pow_one]

/-- A word is zero if its number is. -/
theorem toNat_eq_zero_iff (value : Word) : value.toNat = 0 ↔ value = 0 := by
  rw [BitVec.toNat_eq]
  rfl

variable {modulus : Word} {product bits : Nat} {state next : MulmodState}

/-- The same without checks. -/
def MulmodState.added (modulus : Word) (state : MulmodState) : Word :=
  if state.multiplier &&& 1 ≠ 0 then residueSum modulus state.result state.factor else state.result

/-- No operation of a round leaves its range. -/
theorem mulmodRound_eq (residue : state.factor < modulus) :
    mulmodRound modulus state = some {
      factor := residueSum modulus state.factor state.factor
      multiplier := state.multiplier >>> 1
      result := state.added modulus } := by
  unfold mulmodRound MulmodState.addedChecked MulmodState.added
  rw [residueSumChecked_eq residue, residueSumChecked_eq residue]
  split <;> rfl

/-- A round adds the factor if the multiplier is odd. -/
theorem toNat_added (factor : state.factor < modulus) (result : state.result < modulus) :
    (state.added modulus).toNat =
      if state.multiplier.toNat % 2 = 1 then
        (state.result.toNat + state.factor.toNat) % modulus.toNat
      else state.result.toNat := by
  unfold MulmodState.added
  simp only [and_one_ne_zero]
  split
  · exact toNat_residueSum result factor
  · rfl

/-- The doubled factor meets half of the multiplier; an odd bit is what the result has taken. -/
theorem doubled_rest (n result factor multiplier : Nat) :
    ((if multiplier % 2 = 1 then (result + factor) % n else result) +
      (factor + factor) % n * (multiplier / 2)) % n = (result + factor * multiplier) % n := by
  -- The multiplier is twice its half and its lowest bit.
  have halves := Nat.div_add_mod multiplier 2
  have doubled : (factor + factor) % n * (multiplier / 2) ≡
      (factor + factor) * (multiplier / 2) [MOD n] := (Nat.mod_modEq _ _).mul_right _
  by_cases odd : multiplier % 2 = 1
  · rw [if_pos odd]
    -- With an odd bit, both parts of the sum are reduced; modulo n that changes neither.
    have both := (Nat.mod_modEq (result + factor) n).add doubled
    have whole : result + factor + (factor + factor) * (multiplier / 2) =
        result + factor * (2 * (multiplier / 2) + 1) := by ring
    rw [odd] at halves
    rwa [whole, halves] at both
  · rw [if_neg odd]
    have even : multiplier % 2 = 0 := by omega
    -- With an even one, only the doubled factor is.
    have rest := doubled.add_left result
    have whole : result + (factor + factor) * (multiplier / 2) =
        result + factor * (2 * (multiplier / 2) + 0) := by ring
    rw [even] at halves
    rwa [whole, halves] at rest

/-- One round uses one bit up and keeps the rest. -/
theorem MulmodInvariant.kept (holds : MulmodInvariant modulus product (bits + 1) state) :
    ∃ next, mulmodRound modulus state = some next ∧ MulmodInvariant modulus product bits next := by
  obtain ⟨bound, factor, result, total⟩ := holds
  -- The four parts in order: fewer bits, two residues, and the total.
  refine ⟨_, mulmodRound_eq factor, ?_, residueSum_lt factor factor, ?_, ?_⟩
  · rw [toNat_shiftRight_one]
    rw [Nat.pow_succ] at bound
    omega
  · unfold MulmodState.added
    split
    · exact residueSum_lt result factor
    · exact result
  · rw [← total, toNat_shiftRight_one, toNat_residueSum factor factor, toNat_added factor result]
    exact doubled_rest ..

/-- The loop stops when the multiplier is used up. -/
theorem mulmodLoop_stops (fuel : Nat) (done : state.multiplier = 0) :
    mulmodLoop modulus fuel state.factor state.multiplier state.result = state.result := by
  cases fuel with
  | zero => rfl
  | succ fuel => rw [mulmodLoop, if_pos done]

/-- A round that went through did what the unchecked one does. -/
theorem mulmodLoop_follows (fuel : Nat) (entered : state.multiplier ≠ 0)
    (turned : mulmodRound modulus state = some next) :
    mulmodLoop modulus (fuel + 1) state.factor state.multiplier state.result =
      mulmodLoop modulus fuel next.factor next.multiplier next.result := by
  unfold mulmodRound at turned
  simp only [Option.bind_eq_bind, Option.bind_eq_some_iff, Option.pure_def, Option.some.injEq]
    at turned
  obtain ⟨result, added, factor, doubled, rfl⟩ := turned
  -- The factor is taken in under the same condition as in the source.
  have sum : result = state.added modulus := by
    unfold MulmodState.addedChecked at added
    unfold MulmodState.added
    by_cases odd : state.multiplier &&& 1 ≠ 0
    · rw [if_pos odd] at added ⊢
      exact residueSum_of_checked added
    · rw [if_neg odd] at added ⊢
      exact (Option.some.inj added).symm
  rw [mulmodLoop, if_neg entered, sum, residueSum_of_checked doubled]
  rfl

/-- The loop ends in time and leaves the product modulo the modulus behind. -/
theorem mulmodLoop_ends (nonzero : modulus ≠ 0) (b a : Word) :
    ∃ rounds final, rounds ≤ 256 ∧ MulmodLoop modulus rounds ⟨a % modulus, b, 0⟩ final ∧
      final.result = mulmod modulus b a ∧
      final.result.toNat = a.toNat * b.toNat % modulus.toNat := by
  have start : MulmodInvariant modulus (a.toNat * b.toNat) 256 ⟨a % modulus, b, 0⟩ := by
    -- The first factor is reduced, which leaves the product the same modulo the modulus.
    refine ⟨b.isLt, umod_lt_of_ne_zero nonzero, ?_, ?_⟩
    · simpa [BitVec.lt_def, BitVec.toNat_eq, Nat.pos_iff_ne_zero] using nonzero
    · rw [BitVec.toNat_umod]
      simp [Nat.mod_mul_mod]
  -- Without bits left the multiplier is zero, so the bits bound the rounds.
  obtain ⟨rounds, final, left, ends, total, last⟩ :=
    Ends.of_invariant (fun state : MulmodState => state.multiplier ≠ 0)
      (fun state next => mulmodRound modulus state = some next)
      (MulmodInvariant modulus (a.toNat * b.toNat))
      (fun state holds => by
        have none_ := holds.bits
        rw [Ne, Decidable.not_not, ← toNat_eq_zero_iff]
        omega)
      (fun _ _ holds _ => holds.kept) 256 _ start
  have zero : final.multiplier = 0 := Decidable.not_not.mp ends.refused
  refine ⟨rounds, final, by omega, ends, ?_, ?_⟩
  · unfold mulmod
    rw [if_neg nonzero]
    exact (Ends.computed_by (fun fuel (state : MulmodState) =>
      mulmodLoop modulus fuel state.factor state.multiplier state.result)
      (fun fuel state done => mulmodLoop_stops fuel (Decidable.not_not.mp done))
      (fun fuel _ _ entered turned => mulmodLoop_follows fuel entered turned) ends (by omega)).symm
  · -- With nothing left of the multiplier, the result alone is the total.
    have exact_ := last.total
    rw [zero, (toNat_eq_zero_iff 0).mpr rfl, Nat.mul_zero, Nat.add_zero,
      Nat.mod_eq_of_lt (BitVec.lt_def.mp last.result)] at exact_
    exact exact_

/--
What ADDMOD and MULMOD come to, with their operands named as the handlers name them.

Both push the exact residue, no operation of theirs leaves its range, and the loop is short.
-/
structure ModularExact (evm : Evm) (rest : List Word) (modulus b a : Word) : Prop where
  addmod : ∃ sum, Pushes opAddmod evm rest sum ∧
    sum.toNat = (if modulus = 0 then 0 else (a.toNat + b.toNat) % modulus.toNat) ∧
    addmodChecked modulus b a = some sum
  mulmod : ∃ product, Pushes opMulmod evm rest product ∧
    product.toNat = (if modulus = 0 then 0 else a.toNat * b.toNat % modulus.toNat) ∧
    (modulus ≠ 0 → ∃ rounds final, rounds ≤ 256 ∧
      MulmodLoop modulus rounds ⟨a % modulus, b, 0⟩ final ∧ final.result = product)

theorem modular_exact (evm : Evm) (rest : List Word) (modulus b a : Word)
    (operands : evm.stack.data = modulus :: b :: a :: rest) :
    ModularExact evm rest modulus b a := by
  refine ⟨⟨_, pushes_ternary _ _ operands, ?_, addmodChecked_eq ..⟩,
    ⟨_, pushes_ternary _ _ operands, ?_, ?_⟩⟩
  · -- Without a modulus there is nothing to reduce by, and zero is pushed.
    by_cases zero : modulus = 0
    · rw [if_pos zero, addmod, if_pos zero]
      rfl
    · rw [if_neg zero]
      exact toNat_addmod zero b a
  · by_cases zero : modulus = 0
    · rw [if_pos zero, mulmod, if_pos zero]
      rfl
    · rw [if_neg zero]
      obtain ⟨_, _, _, _, computed, residue⟩ := mulmodLoop_ends zero b a
      rw [← computed]
      exact residue
  · intro nonzero
    obtain ⟨rounds, final, short, ends, computed, _⟩ := mulmodLoop_ends nonzero b a
    exact ⟨rounds, final, short, ends, computed⟩

/-- Both operands are the largest residue there is, and leave minus two and one behind. -/
theorem modular_of_largest :
    Pushes opAddmod (operandFrame ⟨[-1, -2, -2], by decide⟩) [] (-3) ∧
      Pushes opMulmod (operandFrame ⟨[-1, -2, -2], by decide⟩) [] 1 := by
  obtain ⟨⟨sum, pushes, number, _⟩, product, pushes', number', _⟩ :=
    modular_exact (operandFrame ⟨[-1, -2, -2], by decide⟩) [] (-1) (-2) (-2) rfl
  -- As numbers they are 2^256 - 3 and one, both below the modulus of 2^256 - 1.
  have isSum : sum = -3 := BitVec.eq_of_toNat_eq (number.trans (by decide))
  have isProduct : product = 1 := BitVec.eq_of_toNat_eq (number'.trans (by decide))
  rw [isSum] at pushes
  rw [isProduct] at pushes'
  exact ⟨pushes, pushes'⟩

end Mulmod

section Exp

/-- What EXP keeps from round to round. -/
structure ExpState where
  factor : Word
  exponent : Word
  result : Word

/-- One round of EXP, all of whose products wrap. -/
def expRound (state : ExpState) : ExpState where
  factor := state.factor * state.factor
  exponent := state.exponent >>> 1
  result := if state.exponent &&& 1 ≠ 0 then state.result * state.factor else state.result

/-- The loop of EXP. -/
def ExpLoop : Nat → ExpState → ExpState → Prop :=
  Ends (fun state => state.exponent ≠ 0) fun state next => expRound state = next

/--
What holds between two rounds, with so many bits of the exponent left at most.

The result and the power that is still missing make up the whole power, up to wrapping.
-/
structure ExpInvariant (power bits : Nat) (state : ExpState) : Prop where
  bits : state.exponent.toNat < 2 ^ bits
  total : state.result.toNat * state.factor.toNat ^ state.exponent.toNat ≡ power [MOD 2 ^ 256]

variable {power bits : Nat} {state : ExpState}

/-- A square to the power of half the exponent; an odd bit is what the result has taken. -/
theorem squared_rest (result factor exponent : Nat) :
    (if exponent % 2 = 1 then result * factor else result) * (factor * factor) ^ (exponent / 2) =
      result * factor ^ exponent := by
  have halves := Nat.div_add_mod exponent 2
  -- The exponent is twice its half, and one more if it is odd.
  by_cases odd : exponent % 2 = 1
  · rw [if_pos odd]
    rw [odd] at halves
    conv_rhs => rw [← halves]
    ring
  · rw [if_neg odd]
    have even : exponent % 2 = 0 := by omega
    rw [even] at halves
    conv_rhs => rw [← halves]
    ring

/-- A wrapped product stands for the product. -/
theorem toNat_mul_modEq (a b : Word) : (a * b).toNat ≡ a.toNat * b.toNat [MOD 2 ^ 256] := by
  rw [BitVec.toNat_mul]
  exact Nat.mod_modEq _ _

/-- One round uses one bit up and keeps the rest. -/
theorem ExpInvariant.kept (holds : ExpInvariant power (bits + 1) state) :
    ExpInvariant power bits (expRound state) := by
  obtain ⟨bound, total⟩ := holds
  constructor
  · rw [expRound, toNat_shiftRight_one]
    rw [Nat.pow_succ] at bound
    omega
  · have result : (expRound state).result.toNat ≡
        (if state.exponent.toNat % 2 = 1 then state.result.toNat * state.factor.toNat
          else state.result.toNat) [MOD 2 ^ 256] := by
      simp only [expRound, and_one_ne_zero]
      split
      · exact toNat_mul_modEq ..
      · rfl
    have square := (toNat_mul_modEq state.factor state.factor).pow (state.exponent.toNat / 2)
    -- The missing power is that of the square, with half of the exponent.
    have both := result.mul square
    rw [squared_rest] at both
    rw [expRound, toNat_shiftRight_one]
    exact both.trans total

/-- The loop stops when the exponent is used up. -/
theorem expLoop_stops (fuel : Nat) (done : state.exponent = 0) :
    expLoop fuel state.factor state.exponent state.result = state.result := by
  cases fuel with
  | zero => rfl
  | succ fuel => rw [expLoop, if_pos done]

/-- Before that it goes round once more. -/
theorem expLoop_follows (fuel : Nat) (entered : state.exponent ≠ 0) :
    expLoop (fuel + 1) state.factor state.exponent state.result =
      expLoop fuel (expRound state).factor (expRound state).exponent (expRound state).result := by
  rw [expLoop, if_neg entered]
  rfl

/-- The loop ends in time and leaves the wrapped power behind. -/
theorem expLoop_ends (exponent base : Word) :
    ∃ rounds final, rounds ≤ 256 ∧ ExpLoop rounds ⟨base, exponent, 1⟩ final ∧
      final.result = exp exponent base ∧
      final.result.toNat = base.toNat ^ exponent.toNat % 2 ^ 256 := by
  have start : ExpInvariant (base.toNat ^ exponent.toNat) 256 ⟨base, exponent, 1⟩ := by
    refine ⟨exponent.isLt, ?_⟩
    show 1 * _ ≡ _ [MOD 2 ^ 256]
    rw [Nat.one_mul]
  obtain ⟨rounds, final, left, ends, total, last⟩ :=
    Ends.of_invariant (fun state : ExpState => state.exponent ≠ 0)
      (fun state next => expRound state = next)
      (ExpInvariant (base.toNat ^ exponent.toNat))
      (fun state holds => by
        have none_ := holds.bits
        rw [Ne, Decidable.not_not, ← toNat_eq_zero_iff]
        omega)
      (fun _ _ holds _ => ⟨_, rfl, holds.kept⟩) 256 _ start
  have zero : final.exponent = 0 := Decidable.not_not.mp ends.refused
  refine ⟨rounds, final, by omega, ends, ?_, ?_⟩
  · refine (Ends.computed_by (fun fuel (state : ExpState) =>
      expLoop fuel state.factor state.exponent state.result)
      (fun fuel state done => expLoop_stops fuel (Decidable.not_not.mp done))
      (fun fuel state next entered turned => ?_) ends (by omega)).symm
    rw [← turned]
    exact expLoop_follows fuel entered
  · have exact_ := last.total
    -- No power is missing any more.
    rw [zero, (toNat_eq_zero_iff 0).mpr rfl, Nat.pow_zero, Nat.mul_one] at exact_
    exact (Nat.mod_eq_of_lt final.result.isLt).symm.trans exact_

/-- EXP pushes the power, wrapped, where any number to the power of zero is one. -/
structure ExpExact (evm : Evm) (rest : List Word) (exponent base : Word) : Prop where
  pushes : ∃ power, Pushes opExp evm rest power ∧
    power.toNat = base.toNat ^ exponent.toNat % 2 ^ 256 ∧
    ∃ rounds final, rounds ≤ 256 ∧ ExpLoop rounds ⟨base, exponent, 1⟩ final ∧ final.result = power

theorem exp_exact (evm : Evm) (rest : List Word) (exponent base : Word)
    (operands : evm.stack.data = exponent :: base :: rest) : ExpExact evm rest exponent base := by
  obtain ⟨rounds, final, short, ends, computed, power⟩ := expLoop_ends exponent base
  refine ⟨_, pushes_binary _ _ operands, ?_, rounds, final, short, ends, computed⟩
  rw [← computed]
  exact power

/-- Three to the power of five, in three rounds, and zero to the power of zero, in none. -/
theorem exp_of_small : Pushes opExp (operandFrame ⟨[5, 3], by decide⟩) [] 243 ∧
    Pushes opExp (operandFrame ⟨[0, 0], by decide⟩) [] 1 := by
  constructor
  · obtain ⟨power, pushes, number, _⟩ :=
      (exp_exact (operandFrame ⟨[5, 3], by decide⟩) [] 5 3 rfl).pushes
    obtain rfl : power = 243 := BitVec.eq_of_toNat_eq (number.trans (by decide))
    exact pushes
  · obtain ⟨power, pushes, number, _⟩ :=
      (exp_exact (operandFrame ⟨[0, 0], by decide⟩) [] 0 0 rfl).pushes
    obtain rfl : power = 1 := BitVec.eq_of_toNat_eq (number.trans (by decide))
    exact pushes

end Exp

end MiniEvm
