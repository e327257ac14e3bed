/-! Finite double precision numbers as exact values: the double nearest to a decimal, and the
product with a power of ten as it comes out step by step. -/

namespace Theming

/-- The number `± mantissa * 2 ^ exponent`. A mantissa below `2 ^ 52` comes with the least
exponent, so that each finite double is written in one way. -/
structure Binary64 where
  negative : Bool
  mantissa : Nat
  exponent : Int
  deriving DecidableEq, Repr

namespace Binary64

/-- The number `2 ^ 52`, the least one with 53 bits. -/
def leastNormal : Nat := 0x10000000000000

def leastExponent : Int := -1074

def greatestExponent : Int := 971

def zero (negative : Bool) : Binary64 := ⟨negative, 0, leastExponent⟩

/-- The natural number nearest to `num / den`, the even one of two. -/
def roundQuotient (num den : Nat) : Nat :=
  let quotient := num / den
  let doubled := 2 * (num % den)
  if den < doubled || (doubled == den && quotient % 2 == 1) then quotient + 1 else quotient

/-- `num / den` divided by `2 ^ exponent`, as numerator and denominator. -/
def scaled (num den : Nat) (exponent : Int) : Nat × Nat :=
  (num * Nat.pow 2 (-exponent).toNat, den * Nat.pow 2 exponent.toNat)

/-- The exponent that leaves 53 bits before the point, as far as the least one allows. -/
def fittingExponent (num den : Nat) : Int :=
  let guess : Int := num.log2 - den.log2 - 53
  let (n, d) := scaled num den guess
  max leastExponent (if 2 * leastNormal ≤ n / d then guess + 1 else guess)

/-- The double nearest to `num / den`, with an even mantissa if two are. There is none beyond
the greatest. -/
def ofRatio (negative : Bool) (num den : Nat) : Option Binary64 :=
  if num = 0 then some (zero negative)
  else
    let exponent := fittingExponent num den
    let (n, d) := scaled num den exponent
    let mantissa := roundQuotient n d
    let (mantissa, exponent) :=
      if mantissa = 2 * leastNormal then (leastNormal, exponent + 1) else (mantissa, exponent)
    if exponent ≤ greatestExponent then some ⟨negative, mantissa, exponent⟩ else none

/-- The double nearest to `± digits * 10 ^ scale`. Powers of ten are only formed for decimals
that are neither too great for every double nor too small for any but zero. -/
def ofDecimal (negative : Bool) (digits : Nat) (scale : Int) : Option Binary64 :=
  if digits = 0 then some (zero negative)
  else if 310 < digits.log2 * 3 / 10 + scale then none
  else if (digits.log2 + 1) * 31 / 100 + 1 + scale < -330 then some (zero negative)
  else ofRatio negative (digits * Nat.pow 10 scale.toNat) (Nat.pow 10 (-scale).toNat)

def product (x y : Binary64) : Option Binary64 :=
  let (num, den) := scaled (x.mantissa * y.mantissa) 1 (-(x.exponent + y.exponent))
  ofRatio (x.negative != y.negative) num den

def quotient (x y : Binary64) : Option Binary64 :=
  let (num, den) := scaled x.mantissa y.mantissa (y.exponent - x.exponent)
  ofRatio (x.negative != y.negative) num den

def powerOfTen (n : Nat) : Option Binary64 := ofRatio false (Nat.pow 10 n) 1

def greatestPower : Nat := 308

/-- Multiplies by `10 ^ scale`, with one rounding for each power of ten that it takes. This is
not always the double nearest to the exact product. -/
def timesPowerOfTen (x : Binary64) (scale : Int) : Option Binary64 := do
  if x.mantissa = 0 then return x
  else if greatestPower < scale then none
  else if 0 ≤ scale then x.product (← powerOfTen scale.toNat)
  else if -greatestPower ≤ scale then x.quotient (← powerOfTen (-scale).toNat)
  else
    let smaller ← x.quotient (← powerOfTen greatestPower)
    smaller.timesPowerOfTen (scale + greatestPower)
termination_by (-scale).toNat
decreasing_by
  simp only [greatestPower] at *
  omega

end Binary64

end Theming
