import Theming.Text.Digits
import Theming.Value

/-! What the texts of scalars stand for. -/

namespace Theming.Yaml

def isNullText (text : String) : Bool := ["null", "Null", "NULL", "~"].contains text

def flag? (text : String) : Option Bool :=
  if ["true", "True", "TRUE"].contains text then some true
  else if ["false", "False", "FALSE"].contains text then some false
  else none

def sign : List Char → Bool × List Char
  | '+' :: rest => (false, rest)
  | '-' :: rest => (true, rest)
  | rest => (false, rest)

/-- Several digits of which the first is zero do not make a number. -/
def hasLeadingZero : List Char → Bool
  | '0' :: c :: rest => (c :: rest).all Char.isDigit
  | _ => false

def natural? : List Char → Option Nat
  | '0' :: 'x' :: digits => Text.number? 16 digits
  | '0' :: 'o' :: digits => Text.number? 8 digits
  | '0' :: 'b' :: digits => Text.number? 2 digits
  | digits => if hasLeadingZero digits then none else Text.number? 10 digits

def integer? (text : List Char) : Option Int :=
  let (negative, digits) := sign text
  (natural? digits).map fun n => if negative then -n else n

def exponent? (text : List Char) : Option Int :=
  let (negative, digits) := sign text
  (Text.number? 10 digits).map fun n => if negative then -n else n

/-- A decimal without sign: digits, a point with digits, or both, and perhaps an exponent. -/
def decimal? (negative : Bool) (text : List Char) : Option Binary64 := do
  let whole := text.takeWhile Char.isDigit
  let (places, rest) := match text.drop whole.length with
    | '.' :: rest => (rest.takeWhile Char.isDigit, rest.dropWhile Char.isDigit)
    | rest => ([], rest)
  let digits ← Text.number? 10 (whole ++ places)
  let exponent ← match rest with
    | [] => some 0
    | c :: rest => if c = 'e' || c = 'E' then exponent? rest else none
  Binary64.ofDecimal negative digits (exponent - places.length)

/-- The texts of infinities and of what is no number, all of which become null. -/
def isUnbounded (text : String) : Bool :=
  [".inf", ".Inf", ".INF", "+.inf", "+.Inf", "+.INF", "-.inf", "-.Inf", "-.INF",
    ".nan", ".NaN", ".NAN"].contains text

def real? (text : String) : Option Value :=
  if isUnbounded text then some .null
  else
    let (negative, digits) := sign text.toList
    (decimal? negative digits).map fun x => .number (.real x)

/-- Integers beyond 64 bits cannot be represented. From 128 bits on they are read as doubles. -/
def isUnrepresentable (n : Int) : Bool :=
  !Number.isWord n && -0x80000000000000000000000000000000 ≤ n &&
    n < 0x100000000000000000000000000000000

def integerValue? (text : String) : Option Value :=
  ((integer? text.toList).filter Number.isWord).map fun n => .number (.integer n)

def plainValue? (text : String) : Option Value :=
  if text.isEmpty || isNullText text then some .null
  else match flag? text with
    | some b => some (.flag b)
    | none =>
      if (integer? text.toList).any isUnrepresentable then none
      else some ((integerValue? text <|>
        if hasLeadingZero (sign text.toList).2 then none else real? text).getD (.text text))

def commonTag (name : String) : String := "tag:yaml.org,2002:" ++ name

/-- What a scalar stands for. Of the common tags those for flags, numbers and null need a fitting
text, and local tags are never allowed. -/
def scalarValue? (tag : Option String) (plain : Bool) (text : String) : Option Value :=
  match tag with
  | none => if plain then plainValue? text else some (.text text)
  | some tag =>
    if tag = commonTag "bool" then (flag? text).map .flag
    else if tag = commonTag "int" then integerValue? text
    else if tag = commonTag "float" then real? text
    else if tag = commonTag "null" then if isNullText text then some .null else none
    else if tag.toList.head? = some '!' then none
    else some (.text text)

end Theming.Yaml
