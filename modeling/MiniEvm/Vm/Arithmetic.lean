import MiniEvm.Vm.Evm

/-! Handlers for arithmetic, comparison and bitwise opcodes. -/

namespace MiniEvm

open EvmM Frames.Program

/-- The sign bit of a word. -/
def signBit : Word := 1 <<< 255

/-- The magnitude of a word read in two's complement. -/
def magnitude (value : Word) : Word := if value &&& signBit ≠ 0 then ~~~value + 1 else value

def addmod (modulus b a : Word) : Word :=
  if modulus = 0 then 0
  else
    let a := a % modulus
    let b := b % modulus
    -- Comparing before adding keeps the sum below the modulus without a wider word.
    if a ≥ modulus - b then a - (modulus - b) else a + b

/-- Double-and-add, one bit of the multiplier a round. -/
def mulmodLoop (modulus : Word) : (rounds : Nat) → (factor multiplier result : Word) → Word
  | 0, _, _, result => result
  | rounds + 1, factor, multiplier, result =>
    if multiplier = 0 then result
    else
      let result :=
        -- Both the sum and the doubling are reduced as in the sum of two residues.
        if multiplier &&& 1 ≠ 0 then
          if result ≥ modulus - factor then result - (modulus - factor) else result + factor
        else result
      let factor := if factor ≥ modulus - factor then factor - (modulus - factor) else factor + factor
      mulmodLoop modulus rounds factor (multiplier >>> 1) result

/-- A multiplier has 256 bits, so 256 rounds exhaust it. -/
def mulmod (modulus b a : Word) : Word :=
  if modulus = 0 then 0 else mulmodLoop modulus 256 (a % modulus) b 0

/-- Square-and-multiply, one bit of the exponent a round. -/
def expLoop : (rounds : Nat) → (factor exponent result : Word) → Word
  | 0, _, _, result => result
  | rounds + 1, factor, exponent, result =>
    if exponent = 0 then result
    else
      let result := if exponent &&& 1 ≠ 0 then result * factor else result
      expLoop rounds (factor * factor) (exponent >>> 1) result

/-- An exponent has 256 bits, so 256 rounds exhaust it. -/
def exp (exponent base : Word) : Word := expLoop 256 base exponent 1

def sdiv (divisor dividend : Word) : Word :=
  let negativeDividend := dividend &&& signBit ≠ 0
  let negativeDivisor := divisor &&& signBit ≠ 0
  if divisor = 0 then 0
  else
    let quotient := magnitude dividend / magnitude divisor
    -- The quotient of the magnitudes is negated when exactly one sign was set.
    if xor (decide negativeDividend) (decide negativeDivisor) then ~~~quotient + 1 else quotient

def smod (modulus value : Word) : Word :=
  if modulus = 0 then 0
  else
    let remainder := magnitude value % magnitude modulus
    -- The remainder takes the sign of the value alone.
    if value &&& signBit ≠ 0 then ~~~remainder + 1 else remainder

def signextend (byte value : Word) : Word :=
  let index := asUsize byte
  if index ≥ 32 then value
  else
    let bit := index * 8 + 7
    -- At the last byte the shift leaves nothing, and the mask wraps to all ones.
    let mask : Word := (1 <<< (bit + 1)) - 1
    if (value >>> bit) &&& 1 ≠ 0 then value ||| ~~~mask else value &&& mask

def shl (shift value : Word) : Word :=
  if shift ≥ 256#256 then 0 else value <<< asUsize shift

def shr (shift value : Word) : Word :=
  if shift ≥ 256#256 then 0 else value >>> asUsize shift

def sar (shift value : Word) : Word :=
  let negative := value &&& signBit ≠ 0
  if shift ≥ 256#256 then if negative then BitVec.allOnes 256 else 0
  else if shift = 0 then value
  else
    let amount := asUsize shift
    let shifted := value >>> amount
    -- The bits that moved in take the sign.
    if negative then shifted ||| (BitVec.allOnes 256 <<< (256 - amount)) else shifted

def byteAt (index value : Word) : Word :=
  if index ≥ 32#256 then 0
  else
    let shift := (31 - asUsize index) * 8
    (value >>> shift) &&& 0xff

/-- The word that stands for a truth value. -/
def ofBool (condition : Bool) : Word := if condition then 1 else 0

/-- Pops one operand and pushes a function of it. -/
def unary (underflow overflow : String) (compute : Evm → Word → Word) : EvmM Unit := do
  let value ← pop (.error underflow)
  let evm ← get
  push (compute evm value) (.error overflow)

/-- Pops two operands, the top one first, and pushes a function of them. -/
def binary (name : String) (compute : Word → Word → Word) : EvmM Unit := do
  let first ← pop (.error ("Stack Underflow on " ++ name))
  let second ← pop (.error ("Stack Underflow on " ++ name))
  push (compute first second) (.error ("Stack Overflow on " ++ name))

/-- Pops three operands, the top one first, and pushes a function of them. -/
def ternary (name : String) (compute : Word → Word → Word → Word) : EvmM Unit := do
  let first ← pop (.error ("Stack Underflow on " ++ name))
  let second ← pop (.error ("Stack Underflow on " ++ name))
  let third ← pop (.error ("Stack Underflow on " ++ name))
  push (compute first second third) (.error ("Stack Overflow on " ++ name))

def opAdd : EvmM Unit := binary "ADD" fun a b => a + b
def opMul : EvmM Unit := binary "MUL" fun a b => a * b
def opSub : EvmM Unit := binary "SUB" fun subtrahend minuend => minuend - subtrahend

def opDiv : EvmM Unit := binary "DIV" fun divisor dividend =>
  if divisor = 0 then 0 else dividend / divisor

def opMod : EvmM Unit := binary "MOD" fun modulus value =>
  if modulus = 0 then 0 else value % modulus

def opAddmod : EvmM Unit := ternary "ADDMOD" addmod
def opMulmod : EvmM Unit := ternary "MULMOD" mulmod
def opExp : EvmM Unit := binary "EXP" exp
def opSdiv : EvmM Unit := binary "SDIV" sdiv
def opSmod : EvmM Unit := binary "SMOD" smod
def opSignextend : EvmM Unit := binary "SIGNEXTEND" signextend
def opLt : EvmM Unit := binary "LT" fun right left => ofBool (left < right)
def opGt : EvmM Unit := binary "GT" fun right left => ofBool (left > right)
def opEq : EvmM Unit := binary "EQ" fun a b => ofBool (a = b)

def opIszero : EvmM Unit :=
  unary "Stack Underflow on ISZERO" "Stack Overflow on ISZERO" fun _ val => ofBool (val = 0)

def opAnd : EvmM Unit := binary "AND" fun a b => a &&& b
def opOr : EvmM Unit := binary "OR" fun a b => a ||| b
def opXor : EvmM Unit := binary "XOR" fun a b => a ^^^ b

def opNot : EvmM Unit :=
  unary "Stack Underflow on NOT" "Stack Overflow on NOT" fun _ val => ~~~val

def opShl : EvmM Unit := binary "SHL" shl
def opShr : EvmM Unit := binary "SHR" shr
def opSar : EvmM Unit := binary "SAR" sar
def opByte : EvmM Unit := binary "BYTE" byteAt

end MiniEvm
