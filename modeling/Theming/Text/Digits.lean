/-! Natural numbers written in digits. -/

namespace Theming.Text

/-- The value of a digit, where letters of either case go on after nine. -/
def digitValue? (c : Char) : Option Nat :=
  if c.isDigit then some (c.toNat - '0'.toNat)
  else if c.isLower then some (c.toNat - 'a'.toNat + 10)
  else if c.isUpper then some (c.toNat - 'A'.toNat + 10)
  else none

def digitBelow? (base : Nat) (c : Char) : Option Nat :=
  (digitValue? c).filter (· < base)

def numberFrom? (base value : Nat) : List Char → Option Nat
  | [] => some value
  | c :: rest => (digitBelow? base c).bind fun d => numberFrom? base (base * value + d) rest

/-- The number written in at least one digit and nothing else. -/
def number? (base : Nat) (text : List Char) : Option Nat :=
  if text.isEmpty then none else numberFrom? base 0 text

end Theming.Text
