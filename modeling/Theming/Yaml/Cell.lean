/-! The characters of a YAML text together with the places where they stand. -/

namespace Theming.Yaml

/-- A character with its line, its column and the number of characters before it. A line break
of two characters is one cell. -/
structure Cell where
  char : Char
  line : Nat
  column : Nat
  index : Nat

def isPrintable (c : Char) : Bool :=
  let n := c.toNat
  c == '\t' || c == '\n' || c == '\r' || (0x20 ≤ n && n ≤ 0x7E) || n == 0x85 ||
    (0xA0 ≤ n && n ≤ 0xFFFD) || 0x10000 ≤ n

/-- Line breaks are all alike, except for the separators of lines and paragraphs. -/
def plainBreak (c : Char) : Char :=
  if c == '\r' || c.toNat == 0x85 then '\n' else c

def isBreak (c : Char) : Bool := c == '\n' || c.toNat == 0x2028 || c.toNat == 0x2029

def isBlank (c : Char) : Bool := c == ' ' || c == '\t'

def isWhite (c : Char) : Bool := isBlank c || isBreak c

def cellsFrom (line column index : Nat) : List Char → List Cell
  | [] => []
  | '\r' :: '\n' :: rest => ⟨'\n', line, column, index⟩ :: cellsFrom (line + 1) 0 (index + 2) rest
  | c :: rest =>
    let c := plainBreak c
    ⟨c, line, column, index⟩ ::
      if isBreak c then cellsFrom (line + 1) 0 (index + 1) rest
      else cellsFrom line (column + 1) (index + 1) rest

/-- The cells of a text, if it is printable. -/
def cells? (text : List Char) : Option (List Cell) :=
  if text.all isPrintable then some (cellsFrom 0 0 0 text) else none

def atWhite : List Cell → Bool
  | [] => true
  | c :: _ => isWhite c.char

/-- Does a line begin here with three times the character, which then marks the start or the end
of a document? -/
def atMarker (mark : Char) : List Cell → Bool
  | a :: b :: c :: rest =>
    a.column == 0 && a.char == mark && b.char == mark && c.char == mark && atWhite rest
  | _ => false

def atDocumentMarker (cells : List Cell) : Bool := atMarker '-' cells || atMarker '.' cells

def atAny (chars : List Char) : List Cell → Bool
  | [] => false
  | c :: _ => chars.contains c.char

end Theming.Yaml
