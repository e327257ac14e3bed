import Theming.Json.Fault
import Theming.Taken
import Theming.Text.CodeUnit
import Theming.Text.Digits
import Theming.Value

/-! Reading JSON texts. Each reader takes something from the front of a text, and says with
what it returns that the rest is shorter. -/

namespace Theming.Json

def isBlank (c : Char) : Bool := c == ' ' || c == '\n' || c == '\t' || c == '\r'

def skipBlanks (text : List Char) : List Char := text.dropWhile isBlank

theorem length_dropWhile_le (p : Char → Bool) (text : List Char) :
    (text.dropWhile p).length ≤ text.length := (List.dropWhile_sublist p).length_le

theorem length_skipBlanks_le (text : List Char) : (skipBlanks text).length ≤ text.length :=
  length_dropWhile_le _ _

theorem length_lt_of_skipBlanks {text rest : List Char} {c : Char}
    (h : skipBlanks text = c :: rest) : rest.length < text.length := by
  have := length_skipBlanks_le text
  rw [h] at this
  exact this

/-- The rest of a word such as `true`, of which the first letter has been seen. -/
def word : (letters text : List Char) → Except Stop (Remainder text)
  | [], text => .ok ⟨text, Nat.le_refl _⟩
  | _ :: _, [] => .error (.atEnd .valueEnds)
  | l :: letters, c :: text =>
    if l = c then do
      let ⟨rest, h⟩ ← word letters text
      return ⟨rest, Nat.le_succ_of_le h⟩
    else .error (.on .noWord (c :: text))

def badCodeUnit (text : List Char) : Stop :=
  if byteCount text < 4 then .atEnd .textEnds else ⟨.badEscape, byteCount text - 4⟩

def codeUnit (text : List Char) : Except Stop (Taken Nat text) :=
  match text with
  | a :: b :: c :: d :: rest =>
    match Text.number? 16 [a, b, c, d] with
    | some unit => .ok ⟨unit, rest, Nat.le_add_right (rest.length + 1) 3⟩
    | none => .error (badCodeUnit text)
  | _ => .error (badCodeUnit text)

def lowSurrogate (high : Nat) (text : List Char) : Except Stop (Taken Char text) :=
  match text with
  | '\\' :: 'u' :: digits => do
    let ⟨low, rest, h⟩ ← codeUnit digits
    if isLowSurrogate low then return ⟨joinSurrogates high low, rest, Nat.lt_add_right 2 h⟩
    else throw (.before .loneSurrogate rest)
  | '\\' :: c :: rest => .error (.on .halfSurrogatePair (c :: rest))
  | c :: rest =>
    if c = '\\' then .error (.atEnd .textEnds) else .error (.on .halfSurrogatePair (c :: rest))
  | [] => .error (.atEnd .textEnds)

def unicodeEscape (text : List Char) : Except Stop (Taken Char text) := do
  let ⟨unit, rest, h⟩ ← codeUnit text
  if isLowSurrogate unit then throw (.before .loneSurrogate rest)
  else if isHighSurrogate unit then
    let character ← lowSurrogate unit rest
    return character.within text (Nat.le_of_lt h)
  else return ⟨Char.ofNat unit, rest, h⟩

def escapeLetter? : Char → Option Char
  | '"' => some '"'
  | '\\' => some '\\'
  | '/' => some '/'
  | 'b' => some '\x08'
  | 'f' => some '\x0c'
  | 'n' => some '\n'
  | 'r' => some '\r'
  | 't' => some '\t'
  | _ => none

def escaped (text : List Char) : Except Stop (Taken Char text) :=
  match text with
  | [] => .error (.atEnd .textEnds)
  | 'u' :: digits => do
    let character ← unicodeEscape digits
    return character.within ('u' :: digits) (Nat.le_succ _)
  | c :: rest =>
    match escapeLetter? c with
    | some d => .ok ⟨d, rest, Nat.lt_succ_self _⟩
    | none => .error (.on .badEscape (c :: rest))

/-- The characters of a text up to its closing quote, behind those found so far in reverse. -/
def textBody (found : List Char) (text : List Char) : Except Stop (Taken String text) :=
  match text with
  | [] => .error (.atEnd .textEnds)
  | '"' :: rest => .ok ⟨String.ofList found.reverse, rest, Nat.lt_succ_self _⟩
  | '\\' :: escape => do
    let ⟨c, rest, h⟩ ← escaped escape
    let body ← textBody (c :: found) rest
    return body.within _ (Nat.le_succ_of_le (Nat.le_of_lt h))
  | c :: rest =>
    if c.toNat < 0x20 then .error (.on .controlCharacter (c :: rest))
    else do
      let body ← textBody (c :: found) rest
      return body.within _ (Nat.le_succ _)
termination_by text.length

def leadingDigits (text : List Char) : List Char := text.takeWhile Char.isDigit

def afterDigits (text : List Char) : List Char := text.dropWhile Char.isDigit

theorem length_afterDigits_le (text : List Char) : (afterDigits text).length ≤ text.length :=
  length_dropWhile_le _ _

def digitsValue (digits : List Char) : Nat := (Text.number? 10 digits).getD 0

def fraction (text : List Char) :
    Except Stop (List Char × Remainder text) :=
  match text with
  | '.' :: digits =>
    if (leadingDigits digits).isEmpty then .error (.onOrEnd .badNumber .valueEnds digits)
    else .ok (leadingDigits digits, ⟨afterDigits digits,
      Nat.le_succ_of_le (length_afterDigits_le digits)⟩)
  | other => .ok ([], ⟨other, Nat.le_refl _⟩)

/-- The greatest exponent that is looked at, which has 31 bits. -/
def greatestExponent : Nat := 0x7FFFFFFF

/-- What follows the digit that takes an exponent beyond the greatest one. -/
def beyondExponent? (value : Nat) : List Char → Option (List Char)
  | [] => none
  | c :: rest =>
    if c.isDigit then
      let value := 10 * value + (c.toNat - '0'.toNat)
      if greatestExponent < value then some rest else beyondExponent? value rest
    else none

def exponentSign (text : List Char) : Bool × Remainder text :=
  match text with
  | '-' :: rest => (true, ⟨rest, Nat.le_succ _⟩)
  | '+' :: rest => (false, ⟨rest, Nat.le_succ _⟩)
  | other => (false, ⟨other, Nat.le_refl _⟩)

/-- The digits of an exponent. A positive one beyond the greatest is an error at once, unless it
belongs to zero. -/
def exponentDigits (isZero negative : Bool) (text : List Char) :
    Except Stop (Int × Remainder text) :=
  if (leadingDigits text).isEmpty then .error (.onOrEnd .badNumber .valueEnds text)
  else
    let value : Int := digitsValue (leadingDigits text)
    let taken := (if negative then -value else value,
      ⟨afterDigits text, length_afterDigits_le text⟩)
    match beyondExponent? 0 text with
    | some rest => if isZero || negative then .ok taken else .error (.before .hugeNumber rest)
    | none => .ok taken

def exponent? (isZero : Bool) (text : List Char) :
    Except Stop (Option Int × Remainder text) :=
  match text with
  | c :: rest =>
    if c = 'e' || c = 'E' then do
      let (negative, ⟨digits, hd⟩) := exponentSign rest
      let (value, ⟨rest', h⟩) ← exponentDigits isZero negative digits
      return (some value, ⟨rest', Nat.le_succ_of_le (Nat.le_trans h hd)⟩)
    else .ok (none, ⟨c :: rest, Nat.le_refl _⟩)
  | [] => .ok (none, ⟨[], Nat.le_refl _⟩)

/-- The digits before the point. A leading zero stands alone. -/
def wholeDigits (text : List Char) :
    Except Stop (Taken (List Char) text) :=
  match text with
  | [] => .error (.atEnd .valueEnds)
  | c :: rest =>
    if !c.isDigit then .error (.on .badNumber (c :: rest))
    else if c = '0' && !(leadingDigits rest).isEmpty then .error (.on .badNumber rest)
    else .ok ⟨c :: leadingDigits rest, afterDigits rest,
      Nat.lt_succ_of_le (length_afterDigits_le rest)⟩

def greatestSignificand : Nat := 0xFFFFFFFFFFFFFFFF

/-- Appends digits to a significand up to the first with which it exceeds 64 bits. Returns the
digits left with it. -/
def appendDigits (significand : Nat) : List Char → Nat × List Char
  | [] => (significand, [])
  | c :: digits =>
    let longer := 10 * significand + (c.toNat - '0'.toNat)
    if greatestSignificand < longer then (significand, c :: digits) else appendDigits longer digits

/-- The significand of a number and the power of ten that belongs to it. Digits that do not fit
are dropped, those before the point and those behind it apart. -/
def significand (whole decimals : List Char) : Nat × Int :=
  let (first, dropped) := appendDigits 0 whole
  let (all, unused) := appendDigits first decimals
  (all, dropped.length - (decimals.length - unused.length : Nat))

/-- The double of a number with point or exponent, or of an integer beyond 64 bits. -/
def real? (negative : Bool) (whole decimals : List Char) (exponent : Int) :
    Option Binary64 := do
  let (significand, scale) := significand whole decimals
  let start ← Binary64.ofRatio false significand 1
  let absolute ← start.timesPowerOfTen (scale + exponent)
  return { absolute with negative }

/-- A number without point and exponent is an integer if it fits into 64 bits and is not minus
zero. -/
def integer? (negative : Bool) (digits : Nat) : Option Number :=
  let n : Int := if negative then -digits else digits
  if Number.isWord n && !(negative && digits == 0) then some (.integer n) else none

def magnitude (negative : Bool) (text : List Char) : Except Stop (Taken Number text) := do
  let ⟨whole, rest, h⟩ ← wholeDigits text
  let (decimals, ⟨rest', h'⟩) ← fraction rest
  let digits := digitsValue (whole ++ decimals)
  let (exponent, ⟨rest'', h''⟩) ← exponent? (digits == 0) rest'
  let integer := if decimals.isEmpty && exponent.isNone then integer? negative digits else none
  let number := integer <|> (real? negative whole decimals (exponent.getD 0)).map .real
  match number with
  | some n => return ⟨n, rest'', Nat.lt_of_le_of_lt (Nat.le_trans h'' h') h⟩
  | none => throw (.before .hugeNumber rest'')

def signedNumber (text : List Char) : Except Stop (Taken Number text) :=
  match text with
  | '-' :: rest => do
    let number ← magnitude true rest
    return number.within _ (Nat.le_succ _)
  | digits => magnitude false digits

def scalar (text : List Char) : Except Stop (Taken Value text) :=
  match text with
  | [] => .error (.atEnd .valueEnds)
  | 'n' :: letters => do
    let ⟨rest, h⟩ ← word ['u', 'l', 'l'] letters
    return ⟨.null, rest, Nat.lt_succ_of_le h⟩
  | 't' :: letters => do
    let ⟨rest, h⟩ ← word ['r', 'u', 'e'] letters
    return ⟨.flag true, rest, Nat.lt_succ_of_le h⟩
  | 'f' :: letters => do
    let ⟨rest, h⟩ ← word ['a', 'l', 's', 'e'] letters
    return ⟨.flag false, rest, Nat.lt_succ_of_le h⟩
  | '"' :: body => do
    let ⟨s, rest, h⟩ ← textBody [] body
    return ⟨.text s, rest, Nat.lt_succ_of_lt h⟩
  | c :: rest => do
    if c = '-' || c.isDigit then
      let ⟨n, rest', h⟩ ← signedNumber (c :: rest)
      return ⟨.number n, rest', h⟩
    else throw (.on .noValue (c :: rest))

def keyAndColon (text : List Char) : Except Stop (Taken String text) :=
  match text with
  | '"' :: body => do
    let ⟨key, rest, h⟩ ← textBody [] body
    match hr : skipBlanks rest with
    | ':' :: value =>
      return ⟨key, value, Nat.lt_succ_of_lt (Nat.lt_trans (length_lt_of_skipBlanks hr) h)⟩
    | _ => throw (.onOrEnd .noColon .objectEnds (skipBlanks rest))
  | '\x7d' :: _ => .error (.on .trailingComma text)
  | _ => .error (.onOrEnd .keyIsNoText .valueEnds text)

mutual

/-- A value behind blanks, in which lists and objects nest at most `depth` deep. -/
def value (depth : Nat) (text : List Char) : Except Stop (Taken Value text) :=
  match hs : skipBlanks text, depth with
  | '[' :: rest, depth + 1 => do
    let ⟨items, rest', h⟩ ← items depth [] rest
    return ⟨.list items, rest', Nat.lt_trans h (length_lt_of_skipBlanks hs)⟩
  | '\x7b' :: rest, depth + 1 => do
    let ⟨entries, rest', h⟩ ← entries depth [] rest
    return ⟨.object entries, rest', Nat.lt_trans h (length_lt_of_skipBlanks hs)⟩
  | start, _ =>
    if start.head? = some '[' || start.head? = some '\x7b' then throw (.on .tooDeep start)
    else do
      let taken ← scalar start
      return taken.within text (hs ▸ length_skipBlanks_le text)
termination_by (depth, text.length, 0)

def items (depth : Nat) (found : List Value) (text : List Char) :
    Except Stop (Taken (List Value) text) :=
  match hs : skipBlanks text with
  | [] => .error (.atEnd .listEnds)
  | ']' :: rest => .ok ⟨found.reverse, rest, length_lt_of_skipBlanks hs⟩
  | c :: rest =>
    have h₀ : rest.length < text.length := length_lt_of_skipBlanks hs
    if found.isEmpty then do
      let ⟨item, rest', h⟩ ← value depth text
      let all ← items depth [item] rest'
      return all.within text (Nat.le_of_lt h)
    else if c = ',' then
      match skipBlanks rest with
      | ']' :: rest' => throw (.on .trailingComma (']' :: rest'))
      | _ => do
        let ⟨item, rest', h⟩ ← value depth rest
        let all ← items depth (item :: found) rest'
        return all.within text (Nat.le_of_lt (Nat.lt_trans h h₀))
    else throw (.on .noListEnd (c :: rest))
termination_by (depth, text.length, 1)

/-- The entries of an object behind those found so far, up to its end. A repeated key keeps its
first place and its last value. -/
def entries (depth : Nat) (found : Table Value) (text : List Char) :
    Except Stop (Taken (Table Value) text) :=
  match hs : skipBlanks text with
  | [] => .error (.atEnd .objectEnds)
  | '\x7d' :: rest => .ok ⟨found, rest, length_lt_of_skipBlanks hs⟩
  | c :: rest => do
    have h₀ : rest.length < text.length := length_lt_of_skipBlanks hs
    let ⟨start, hl⟩ : Remainder text ←
      if found.isEmpty then pure ⟨c :: rest, h₀⟩
      else if c = ',' then
        pure ⟨skipBlanks rest, Nat.le_trans (length_skipBlanks_le rest) (Nat.le_of_lt h₀)⟩
      else throw (.on .noObjectEnd (c :: rest))
    let ⟨key, rest', h⟩ ← keyAndColon start
    let ⟨v, rest'', h'⟩ ← value depth rest'
    let all ← entries depth (found.put key v) rest''
    return all.within text (Nat.le_of_lt (Nat.lt_trans h' (Nat.lt_of_lt_of_le h hl)))
termination_by (depth, text.length, 1)

end

def documentDepth : Nat := 127

/-- Reads a text that holds one value and nothing but blanks around it. -/
def parse (depth : Nat) (text : String) : Except Fault Value :=
  let chars := text.toList
  let result := do
    let ⟨v, rest, _⟩ ← value depth chars
    match skipBlanks rest with
    | [] => pure v
    | extra => throw (Stop.on .trailingCharacters extra)
  result.mapError (·.fault chars)

end Theming.Json
