import MiniEvm.Proofs.Vm.Signed

/-! In which order the opcodes that do not commute take their operands. -/

namespace MiniEvm

variable {evm : Evm} {rest : List Word} {first second third : Word}

/-- The opcodes with two operands push what they come to with the operands in this order. -/
structure BinaryInOrder (evm : Evm) (rest : List Word) (first second : Word) : Prop where
  sub : Pushes opSub evm rest (first - second)
  div : Pushes opDiv evm rest (if second = 0 then 0 else first / second)
  sdiv : Pushes opSdiv evm rest (if second = 0 then 0 else first.sdiv second)
  mod : Pushes opMod evm rest (if second = 0 then 0 else first % second)
  smod : Pushes opSmod evm rest (if second = 0 then 0 else first.srem second)
  exp : Pushes opExp evm rest (BitVec.ofNat 256 (first.toNat ^ second.toNat))
  lt : Pushes opLt evm rest (ofBool (first < second))
  gt : Pushes opGt evm rest (ofBool (first > second))

/-- The opcodes with three operands do, where the third one is the modulus. -/
structure TernaryInOrder (evm : Evm) (rest : List Word) (first second third : Word) : Prop where
  addmod : Pushes opAddmod evm rest
    (if third = 0 then 0 else BitVec.ofNat 256 ((first.toNat + second.toNat) % third.toNat))
  mulmod : Pushes opMulmod evm rest
    (if third = 0 then 0 else BitVec.ofNat 256 (first.toNat * second.toNat % third.toNat))

/-- The order of Ethereum, in which the top of the stack comes first. -/
structure UsesEvmOrder (evm : Evm) : Prop where
  binary : ∀ s0 s1 rest, evm.stack.data = s0 :: s1 :: rest → BinaryInOrder evm rest s0 s1
  ternary : ∀ s0 s1 s2 rest, evm.stack.data = s0 :: s1 :: s2 :: rest →
    TernaryInOrder evm rest s0 s1 s2

/-- A word is given by its number. -/
theorem eq_ofNat_of_toNat {word : Word} {number : Nat} (same : word.toNat = number) :
    word = BitVec.ofNat 256 number := by
  rw [← same, BitVec.ofNat_toNat, BitVec.setWidth_eq]

theorem addmod_eq (modulus b a : Word) :
    addmod modulus b a =
      if modulus = 0 then 0 else BitVec.ofNat 256 ((a.toNat + b.toNat) % modulus.toNat) := by
  by_cases zero : modulus = 0
  · rw [addmod, if_pos zero, if_pos zero]
  · rw [if_neg zero]
    exact eq_ofNat_of_toNat (toNat_addmod zero b a)

theorem mulmod_eq (modulus b a : Word) :
    mulmod modulus b a =
      if modulus = 0 then 0 else BitVec.ofNat 256 (a.toNat * b.toNat % modulus.toNat) := by
  by_cases zero : modulus = 0
  · rw [mulmod, if_pos zero, if_pos zero]
  · rw [if_neg zero]
    obtain ⟨_, _, _, _, computed, residue⟩ := mulmodLoop_ends zero b a
    rw [computed] at residue
    exact eq_ofNat_of_toNat residue

theorem exp_eq (exponent base : Word) :
    exp exponent base = BitVec.ofNat 256 (base.toNat ^ exponent.toNat) := by
  obtain ⟨_, _, _, _, computed, power⟩ := expLoop_ends exponent base
  rw [computed] at power
  apply BitVec.eq_of_toNat_eq
  rw [power, BitVec.toNat_ofNat]

/-- The top of the stack is taken for the second operand. -/
theorem binaryInOrder_reversed (operands : evm.stack.data = first :: second :: rest) :
    BinaryInOrder evm rest second first where
  sub := pushes_binary _ _ operands
  div := pushes_binary _ _ operands
  sdiv := by
    have pushes : Pushes opSdiv evm rest (sdiv first second) := pushes_binary _ _ operands
    -- Signed division by zero is zero on words in any case.
    by_cases zero : first = 0
    · rw [sdiv, if_pos zero] at pushes
      rw [if_pos zero]
      exact pushes
    · rw [sdiv_eq] at pushes
      rw [if_neg zero]
      exact pushes
  mod := pushes_binary _ _ operands
  smod := by
    have pushes : Pushes opSmod evm rest (smod first second) := pushes_binary _ _ operands
    rw [smod_eq] at pushes
    exact pushes
  exp := by
    have pushes : Pushes opExp evm rest (exp first second) := pushes_binary _ _ operands
    rw [exp_eq] at pushes
    exact pushes
  lt := pushes_binary _ _ operands
  gt := pushes_binary _ _ operands

/-- And for the modulus, where there are three. -/
theorem ternaryInOrder_reversed (operands : evm.stack.data = first :: second :: third :: rest) :
    TernaryInOrder evm rest third second first where
  addmod := by
    have pushes : Pushes opAddmod evm rest (addmod first second third) :=
      pushes_ternary _ _ operands
    rw [addmod_eq] at pushes
    exact pushes
  mulmod := by
    have pushes : Pushes opMulmod evm rest (mulmod first second third) :=
      pushes_ternary _ _ operands
    rw [mulmod_eq] at pushes
    exact pushes

/-- The two truth values are told apart as words. -/
theorem ofBool_injective : Function.Injective ofBool := by
  intro left right
  cases left with
  | false =>
    cases right with
    | false => exact fun _ => rfl
    | true => decide
  | true =>
    cases right with
    | false => decide
    | true => exact fun _ => rfl

/-- Only equal words compare the same in both orders. -/
theorem eq_of_lt_iff (same : decide (second < first) = decide (first < second)) :
    first = second := by
  -- Of two different words just one is smaller, so one order would be true and the other false.
  have both : second < first ↔ first < second := decide_eq_decide.mp same
  rw [BitVec.lt_def, BitVec.lt_def] at both
  apply BitVec.eq_of_toNat_eq
  omega

/-- Where a sum and a product of a number with itself have residues that do not depend on
the order. -/
theorem residues_agree_iff {s modulus : Nat} (positive : 0 < s) (some_ : 0 < modulus) :
    ((s + s) % modulus = (modulus + s) % s ∧ s * s % modulus = modulus * s % s) ↔
      modulus = s ∨ (modulus = 2 * s ∧ s % 2 = 0) ∨ (2 * modulus = 3 * s ∧ s % 6 = 0) := by
  -- One of the two products is a multiple of the number, so the other one has to vanish too.
  rw [Nat.add_mod_right, Nat.mul_mod_left]
  have below := Nat.mod_lt modulus positive
  constructor
  · intro ⟨sums, product⟩
    have divides : modulus ∣ s * s := Nat.dvd_of_mod_eq_zero product
    by_cases small : modulus ≤ s
    · left
      -- A smaller modulus would be its own residue, which no sum modulo it reaches.
      by_contra other
      have less : modulus < s := Nat.lt_of_le_of_ne small other
      have bound := Nat.mod_lt (s + s) some_
      rw [Nat.mod_eq_of_lt less] at sums
      omega
    · right
      by_cases reached : modulus ≤ s + s
      · by_cases double : modulus = 2 * s
        · left
          refine ⟨double, ?_⟩
          rw [double, Nat.mul_comm 2 s] at divides
          have even := Nat.dvd_of_mul_dvd_mul_left positive divides
          omega
        · -- Between one and two times the number, one subtraction reduces either side.
          right
          rw [Nat.mod_eq_sub_mod reached, Nat.mod_eq_of_lt (by omega),
            Nat.mod_eq_sub_mod (Nat.le_of_not_le small), Nat.mod_eq_of_lt (by omega)] at sums
          obtain ⟨half, rfl⟩ : ∃ half, s = 2 * half := ⟨s / 2, by omega⟩
          obtain rfl : modulus = 3 * half := by omega
          have thirds : half * 3 ∣ half * (4 * half) := by
            have product : 2 * half * (2 * half) = half * (4 * half) := by ring
            rw [product, Nat.mul_comm 3 half] at divides
            exact divides
          have third := Nat.dvd_of_mul_dvd_mul_left (by omega) thirds
          omega
      · -- A modulus past the sum leaves it as it is, too large for a residue of the number.
        rw [Nat.mod_eq_of_lt (by omega)] at sums
        omega
  · rintro (rfl | ⟨rfl, even⟩ | ⟨sesqui, sixth⟩)
    · simp
    · obtain ⟨half, rfl⟩ : ∃ half, s = 2 * half := ⟨s / 2, by omega⟩
      refine ⟨?_, Nat.mod_eq_zero_of_dvd ⟨half, by ring⟩⟩
      rw [Nat.mul_mod_left, Nat.mod_eq_zero_of_dvd ⟨1, by ring⟩]
    · obtain ⟨part, rfl⟩ : ∃ part, s = 6 * part := ⟨s / 6, by omega⟩
      obtain rfl : modulus = 9 * part := by omega
      refine ⟨?_, Nat.mod_eq_zero_of_dvd ⟨4 * part, by ring⟩⟩
      rw [Nat.mod_eq_sub_mod (by omega), Nat.mod_eq_of_lt (by omega),
        Nat.mod_eq_sub_mod (by omega), Nat.mod_eq_of_lt (by omega)]
      omega

/-- The moduli for which the order does not matter over two equal words. -/
def IndifferentModulus (s modulus : Nat) : Prop :=
  s = 0 ∨ modulus = 0 ∨ modulus = s ∨ (modulus = 2 * s ∧ s % 2 = 0) ∨
    (2 * modulus = 3 * s ∧ s % 6 = 0)

/-- Numbers below 2^256 are the same as words just if they are the same. -/
theorem ofNat_eq_ofNat_iff {a b : Nat} (small : a < 2 ^ 256) (small' : b < 2 ^ 256) :
    BitVec.ofNat 256 a = BitVec.ofNat 256 b ↔ a = b := by
  rw [BitVec.toNat_eq, BitVec.toNat_ofNat, BitVec.toNat_ofNat, Nat.mod_eq_of_lt small,
    Nat.mod_eq_of_lt small']

/-- A residue modulo a word is a number below 2^256. -/
theorem mod_lt_of_ne_zero {modulus : Word} (nonzero : modulus ≠ 0) (number : Nat) :
    number % modulus.toNat < 2 ^ 256 := by
  have positive : 0 < modulus.toNat := Nat.pos_of_ne_zero (mt (toNat_eq_zero_iff modulus).mp nonzero)
  exact Nat.lt_trans (Nat.mod_lt _ positive) modulus.isLt

/-- With both words equal, the two modular results agree for just these moduli. -/
theorem modular_agree_iff (s modulus : Word) :
    ((if s = 0 then 0 else BitVec.ofNat 256 ((modulus.toNat + s.toNat) % s.toNat)) =
        (if modulus = 0 then 0 else BitVec.ofNat 256 ((s.toNat + s.toNat) % modulus.toNat)) ∧
      (if s = 0 then 0 else BitVec.ofNat 256 (modulus.toNat * s.toNat % s.toNat)) =
        if modulus = 0 then 0 else BitVec.ofNat 256 (s.toNat * s.toNat % modulus.toNat)) ↔
      IndifferentModulus s.toNat modulus.toNat := by
  unfold IndifferentModulus
  rw [toNat_eq_zero_iff, toNat_eq_zero_iff]
  -- A zero for either makes all four results zero.
  by_cases zero : s = 0
  · simp [zero]
  · by_cases zero' : modulus = 0
    · simp [zero']
    · have positive : 0 < s.toNat := Nat.pos_of_ne_zero (mt (toNat_eq_zero_iff s).mp zero)
      have positive' : 0 < modulus.toNat :=
        Nat.pos_of_ne_zero (mt (toNat_eq_zero_iff modulus).mp zero')
      rw [if_neg zero, if_neg zero, if_neg zero', if_neg zero']
      simp only [zero, zero', false_or]
      rw [ofNat_eq_ofNat_iff (mod_lt_of_ne_zero zero _) (mod_lt_of_ne_zero zero' _),
        ofNat_eq_ofNat_iff (mod_lt_of_ne_zero zero _) (mod_lt_of_ne_zero zero' _),
        ← residues_agree_iff positive positive']
      constructor
      · exact fun ⟨sums, products⟩ => ⟨sums.symm, products.symm⟩
      · exact fun ⟨sums, products⟩ => ⟨sums.symm, products.symm⟩

/-- The stacks over which the order of operands does not matter. -/
def OrderIndifferent : List Word → Prop
  | s0 :: s1 :: s2 :: _ => s0 = s1 ∧ IndifferentModulus s0.toNat s2.toNat
  | [s0, s1] => s0 = s1
  | _ => True

/-- The two orders agree on two operands just if these are equal, which the comparisons ask for. -/
theorem binaryInOrder_iff (operands : evm.stack.data = first :: second :: rest) :
    BinaryInOrder evm rest first second ↔ first = second := by
  have reversed := binaryInOrder_reversed operands
  constructor
  · exact fun holds => eq_of_lt_iff (ofBool_injective (reversed.lt.unique holds.lt))
  · rintro rfl
    exact reversed

/-- On three, the first two of which are equal, they agree for few moduli. -/
theorem ternaryInOrder_iff (operands : evm.stack.data = first :: first :: third :: rest) :
    TernaryInOrder evm rest first first third ↔ IndifferentModulus first.toNat third.toNat := by
  have reversed := ternaryInOrder_reversed operands
  rw [← modular_agree_iff]
  constructor
  · intro holds
    exact ⟨reversed.addmod.unique holds.addmod, reversed.mulmod.unique holds.mulmod⟩
  · intro ⟨sums, products⟩
    exact ⟨sums ▸ reversed.addmod, products ▸ reversed.mulmod⟩

/-- Without two operands there is nothing to push. -/
theorem usesEvmOrder_of_short (short : evm.stack.data.length < 2) : UsesEvmOrder evm := by
  constructor
  · intro s0 s1 rest operands
    rw [operands] at short
    simp only [List.length_cons] at short
    omega
  · intro s0 s1 s2 rest operands
    rw [operands] at short
    simp only [List.length_cons] at short
    omega

/--
The opcodes agree with Ethereum exactly over stacks where the order does not matter.

Two different words on top are enough for some opcode to push something else.
-/
theorem usesEvmOrder_iff (evm : Evm) : UsesEvmOrder evm ↔ OrderIndifferent evm.stack.data := by
  -- The cases follow the depth of the stack, as the condition does.
  cases shape : evm.stack.data with
  | nil => exact iff_of_true (usesEvmOrder_of_short (by rw [shape]; decide)) trivial
  | cons s0 below =>
    cases below with
    | nil => exact iff_of_true (usesEvmOrder_of_short (by rw [shape]; simp)) trivial
    | cons s1 deeper =>
      have binary := binaryInOrder_iff shape
      cases deeper with
      | nil =>
        show _ ↔ s0 = s1
        rw [← binary]
        constructor
        · exact fun holds => holds.binary s0 s1 [] shape
        · intro ordered
          constructor
          · intro t0 t1 rest operands
            rw [shape] at operands
            cases operands
            exact ordered
          · intro t0 t1 t2 rest operands
            rw [shape] at operands
            cases operands
      | cons s2 deepest =>
        show _ ↔ s0 = s1 ∧ IndifferentModulus s0.toNat s2.toNat
        constructor
        · intro holds
          -- The binary opcodes make the two words equal; the modulus is then all that is left.
          obtain rfl := binary.mp (holds.binary s0 s1 _ shape)
          exact ⟨rfl, (ternaryInOrder_iff shape).mp (holds.ternary s0 s0 s2 deepest shape)⟩
        · rintro ⟨rfl, indifferent⟩
          constructor
          · intro t0 t1 rest operands
            rw [shape] at operands
            cases operands
            exact binary.mpr rfl
          · intro t0 t1 t2 rest operands
            rw [shape] at operands
            cases operands
            exact (ternaryInOrder_iff shape).mpr indifferent

/-- With three on top of five, SUB pushes two instead of minus two. -/
theorem sub_reverses_operands :
    Pushes opSub (operandFrame ⟨[3, 5], by decide⟩) [] 2 ∧
      ¬ UsesEvmOrder (operandFrame ⟨[3, 5], by decide⟩) := by
  have reversed : BinaryInOrder (operandFrame ⟨[3, 5], by decide⟩) [] 5 3 :=
    binaryInOrder_reversed rfl
  refine ⟨reversed.sub, fun holds => ?_⟩
  have same := reversed.sub.unique (holds.binary 3 5 [] rfl).sub
  revert same
  decide

end MiniEvm
