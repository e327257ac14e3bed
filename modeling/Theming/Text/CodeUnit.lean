/-! Texts as sequences of 16-bit code units. -/

namespace Theming

/-- One unit below `0x10000`, and a surrogate pair from there on. -/
def codeUnits (c : Char) : List UInt32 :=
  if c.val < 0x10000 then [c.val]
  else
    let offset := c.val - 0x10000
    [(0xD800 : UInt32) + (offset >>> 10), (0xDC00 : UInt32) + (offset &&& 0x3FF)]

def joinSurrogates (high low : Nat) : Char :=
  Char.ofNat (0x10000 + (high - 0xD800) * 0x400 + (low - 0xDC00))

def isHighSurrogate (unit : Nat) : Bool := 0xD800 ≤ unit && unit ≤ 0xDBFF

def isLowSurrogate (unit : Nat) : Bool := 0xDC00 ≤ unit && unit ≤ 0xDFFF

end Theming
