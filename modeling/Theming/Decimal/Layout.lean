import Theming.Decimal.Shortest

/-! How doubles are written. -/

namespace Theming

/-- The decimal exponents that are written without an exponent mark. -/
structure DecimalLayout where
  leastPositional : Int
  greatestPositional : Int

/-- From `0.00001` to below `10 ^ 16`. -/
def DecimalLayout.standard : DecimalLayout := ⟨-5, 15⟩

namespace DecimalLayout

def significant (digits : Nat) : List Char :=
  ((Nat.toDigits 10 digits).reverse.dropWhile (· == '0')).reverse

/-- The digits around a point that stands after the digit of the units. -/
def positional (digits : List Char) (exponent : Int) : List Char :=
  if exponent < 0 then
    ['0', '.'] ++ List.replicate (-exponent - 1).toNat '0' ++ digits
  else
    let whole := exponent.toNat + 1
    if digits.length ≤ whole then
      digits ++ List.replicate (whole - digits.length) '0' ++ ['.', '0']
    else digits.take whole ++ ['.'] ++ digits.drop whole

def scientific (digits : List Char) (exponent : Int) : List Char :=
  let fraction := digits.drop 1
  digits.take 1 ++ (if fraction.isEmpty then [] else '.' :: fraction) ++
    ['e', if exponent < 0 then '-' else '+'] ++ Nat.toDigits 10 exponent.natAbs

def magnitude (layout : DecimalLayout) (x : Binary64) : List Char :=
  if x.mantissa = 0 then ['0', '.', '0']
  else
    let decimal := x.shortest
    let digits := significant decimal.digits
    let exponent := (Nat.toDigits 10 decimal.digits).length - 1 + decimal.scale
    if layout.leastPositional ≤ exponent && exponent ≤ layout.greatestPositional then
      positional digits exponent
    else scientific digits exponent

def text (layout : DecimalLayout) (x : Binary64) : String :=
  String.ofList ((if x.negative then ['-'] else []) ++ layout.magnitude x)

end DecimalLayout

end Theming
