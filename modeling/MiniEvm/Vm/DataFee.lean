import MiniEvm.Data.Word

/-! The base fee of blobs, computed from the excess blob gas by a series of words. -/

namespace MiniEvm

namespace Word

/-- Multiplication that fails instead of leaving the 256-bit range. -/
def checkedMul (a b : Word) : Option Word :=
  if a.toNat * b.toNat < 2 ^ 256 then some (a * b) else none

/-- Division that fails for a zero divisor. -/
def checkedDiv (a b : Word) : Option Word := if b = 0 then none else some (a / b)

end Word

def minBlobBaseFee : Nat := 1

def blobBaseFeeUpdateFraction : Nat := 3338477

namespace calcDataFee

def denominator : Word := BitVec.ofNat 256 blobBaseFeeUpdateFraction

/-- The variables of the loop. -/
structure Series where
  numeratorAccum : Word
  output : Word
  i : Word

def Series.start : Series where
  numeratorAccum := BitVec.ofNat 256 minBlobBaseFee * denominator
  output := 0
  i := 1

/-- One round of the loop. -/
def Series.round (excessBlobGas : Word) (series : Series) : Series where
  -- The sums and the divisor wrap; a product that is too large becomes zero.
  output := series.output + series.numeratorAccum
  numeratorAccum := ((Word.checkedMul series.numeratorAccum excessBlobGas).bind fun value =>
    Word.checkedDiv value (denominator * series.i)).getD 0
  i := series.i + 1

/-- The loop, as far as so many rounds take it. -/
def loop (excessBlobGas : Word) : (rounds : Nat) → Series → Option Word
  | 0, _ => none
  | rounds + 1, series =>
    if series.numeratorAccum > 0 then loop excessBlobGas rounds (series.round excessBlobGas)
    else some (series.output / denominator)

end calcDataFee

/-- The fee, if so many rounds are enough to come to it. -/
def calcDataFee (rounds : Nat) (excessBlobGas : Word) : Option Word :=
  calcDataFee.loop excessBlobGas rounds .start

end MiniEvm
