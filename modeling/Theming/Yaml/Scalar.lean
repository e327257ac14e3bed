import Theming.Text.Digits
import Theming.Yaml.Cell

/-! Reading scalars. Each reader goes through the cells one by one. The characters that it has
found are kept in reverse order. -/

namespace Theming.Yaml

/-- White space inside a scalar: blanks, or line breaks without the blanks around them. The
first break is missing behind an escaped one. -/
inductive Gap where
  | blanks (found : List Char)
  | breaks (first : Option Char) (more : List Char)

namespace Gap

def empty : Gap := .blanks []

def isEmpty : Gap → Bool
  | .blanks [] => true
  | _ => false

def hasBreak : Gap → Bool
  | .blanks _ => false
  | .breaks _ _ => true

def add (gap : Gap) (c : Char) : Gap :=
  match gap with
  | .blanks found => if isBreak c then .breaks (some c) [] else .blanks (c :: found)
  | .breaks first more => if isBreak c then .breaks first (c :: more) else .breaks first more

/-- What a gap becomes inside a scalar, in reverse: blanks stay, a single line break becomes a
space, and of several ones the first is left out. -/
def folded : Gap → List Char
  | .blanks found => found
  | .breaks none more => more
  | .breaks (some c) more =>
    if c = '\n' then (if more.isEmpty then [' '] else more) else more ++ [c]

end Gap

/-- A scalar without quotes. Inside brackets it ends at brackets and commas, and elsewhere where
a line starts before the margin. The gap behind it is returned with it. -/
def plainFrom (inFlow : Bool) (margin : Nat) :
    (found : List Char) → Gap → List Cell → Option (List Char × Gap × List Cell)
  | found, gap, [] => some (found, gap, [])
  | found, gap, c :: rest =>
    if isWhite c.char then
      if c.char == '\t' && gap.hasBreak && c.column < margin then none
      else plainFrom inFlow margin found (gap.add c.char) rest
    else if !gap.isEmpty && ((!inFlow && c.column < margin) || c.char == '#' ||
        atDocumentMarker (c :: rest)) then some (found, gap, c :: rest)
    else if inFlow && c.char == ':' && atAny [',', '?', '[', ']', '\x7b', '\x7d'] rest then none
    else if (c.char == ':' && atWhite rest) ||
        (inFlow && [',', '[', ']', '\x7b', '\x7d'].contains c.char) then
      some (found, gap, c :: rest)
    else plainFrom inFlow margin (c.char :: gap.folded ++ found) .empty rest

theorem length_plainFrom_le {inFlow : Bool} {margin : Nat} {found found' : List Char}
    {gap gap' : Gap} {cells rest : List Cell}
    (h : plainFrom inFlow margin found gap cells = some (found', gap', rest)) :
    rest.length ≤ cells.length := by
  fun_induction plainFrom inFlow margin found gap cells <;> grind

/-- A scalar in single quotes, behind the first one. A quote inside is doubled. -/
def singleFrom : (found : List Char) → Gap → List Cell → Option (List Char × List Cell)
  | _, _, [] => none
  | found, gap, c :: rest =>
    if isWhite c.char then singleFrom found (gap.add c.char) rest
    else if atDocumentMarker (c :: rest) then none
    else if c.char == '\'' then
      match rest with
      | [] => some (gap.folded ++ found, [])
      | d :: rest' =>
        if d.char == '\'' then singleFrom ('\'' :: gap.folded ++ found) .empty rest'
        else some (gap.folded ++ found, d :: rest')
    else singleFrom (c.char :: gap.folded ++ found) .empty rest

theorem length_singleFrom_le {found found' : List Char} {gap : Gap} {cells rest : List Cell}
    (h : singleFrom found gap cells = some (found', rest)) : rest.length ≤ cells.length := by
  fun_induction singleFrom found gap cells <;> grind

def escapeDigits : Char → Nat
  | 'x' => 2
  | 'u' => 4
  | 'U' => 8
  | _ => 0

def escapeLetter? : Char → Option Char
  | '0' => some '\x00'
  | 'a' => some '\x07'
  | 'b' => some '\x08'
  | 't' => some '\t'
  | '\t' => some '\t'
  | 'n' => some '\n'
  | 'v' => some '\x0b'
  | 'f' => some '\x0c'
  | 'r' => some '\r'
  | 'e' => some '\x1b'
  | ' ' => some ' '
  | '"' => some '"'
  | '/' => some '/'
  | '\\' => some '\\'
  | 'N' => some '\u0085'
  | '_' => some '\u00a0'
  | 'L' => some '\u2028'
  | 'P' => some '\u2029'
  | _ => none

/-- A scalar in double quotes, behind the first one. While `digits` are missing from an escape,
`code` is the number that they make up so far. -/
def doubleFrom : (digits code : Nat) → (found : List Char) → Gap → List Cell →
    Option (List Char × List Cell)
  | _, _, _, _, [] => none
  | digits + 1, code, found, gap, c :: rest =>
    match Text.digitBelow? 16 c.char with
    | none => none
    | some d =>
      let code := 16 * code + d
      if 0 < digits then doubleFrom digits code found gap rest
      else if code.isValidChar then doubleFrom 0 0 (Char.ofNat code :: found) gap rest
      else none
  | 0, code, found, gap, c :: rest =>
    if isWhite c.char then doubleFrom 0 code found (gap.add c.char) rest
    else if atDocumentMarker (c :: rest) then none
    else
      let found := gap.folded ++ found
      if c.char == '"' then some (found, rest)
      else if c.char == '\\' then
        match rest with
        | [] => none
        | e :: rest' =>
          if isBreak e.char then doubleFrom 0 0 found (.breaks none []) rest'
          else if 0 < escapeDigits e.char then doubleFrom (escapeDigits e.char) 0 found .empty rest'
          else match escapeLetter? e.char with
            | some d => doubleFrom 0 0 (d :: found) .empty rest'
            | none => none
      else doubleFrom 0 0 (c.char :: found) .empty rest

theorem length_doubleFrom_le {digits code : Nat} {found found' : List Char} {gap : Gap}
    {cells rest : List Cell} (h : doubleFrom digits code found gap cells = some (found', rest)) :
    rest.length ≤ cells.length := by
  fun_induction doubleFrom digits code found gap cells <;> grind

inductive Chomping where
  | strip
  | clip
  | keep

/-- A block scalar as far as it has been read. The indentation is zero until it is known. -/
structure Block where
  folds : Bool
  indent : Nat
  widest : Nat
  found : List Char
  lineBreak : Option Char
  emptyLines : List Char
  startsBlank : Bool

namespace Block

/-- Starts a line with a character. The break before it folds to a space where neither line
starts with a blank. -/
def startLine (block : Block) (c : Char) : Block :=
  let folds := block.folds && block.lineBreak == some '\n' && !block.startsBlank && !isBlank c
  let joint := if folds then (if block.emptyLines.isEmpty then [' '] else block.emptyLines)
    else block.emptyLines ++ block.lineBreak.toList
  { block with
    found := c :: joint ++ block.found
    lineBreak := none
    emptyLines := []
    startsBlank := isBlank c }

def chomped (block : Block) : Chomping → List Char
  | .strip => block.found
  | .clip => block.lineBreak.toList ++ block.found
  | .keep => block.emptyLines ++ block.lineBreak.toList ++ block.found

end Block

/-- The lines of a block scalar, up to the first one that starts before its indentation. An
unknown indentation is that of the first line, but at least `least` and not less than that of
the empty lines before it. -/
def blockFrom (least : Nat) : (inLine : Bool) → Block → List Cell → Option (Block × List Cell)
  | _, block, [] => some (block, [])
  | true, block, c :: rest =>
    if isBreak c.char then blockFrom least false { block with lineBreak := some c.char } rest
    else blockFrom least true { block with found := c.char :: block.found } rest
  | false, block, c :: rest =>
    let inMargin := block.indent == 0 || c.column < block.indent
    if inMargin && c.char == ' ' then blockFrom least false block rest
    else if inMargin && c.char == '\t' then none
    else
      let block := { block with widest := max block.widest c.column }
      if isBreak c.char then
        blockFrom least false { block with emptyLines := c.char :: block.emptyLines } rest
      else
        let indent := if block.indent == 0 then max block.widest least else block.indent
        if c.column == indent then
          blockFrom least true ({ block with indent := indent }.startLine c.char) rest
        else some (block, c :: rest)

theorem length_blockFrom_le {least : Nat} {inLine : Bool} {block block' : Block}
    {cells rest : List Cell} (h : blockFrom least inLine block cells = some (block', rest)) :
    rest.length ≤ cells.length := by
  fun_induction blockFrom least inLine block cells <;> grind

def chomping? : List Cell → Option (Chomping × List Cell)
  | c :: rest =>
    if c.char == '+' then some (.keep, rest)
    else if c.char == '-' then some (.strip, rest) else none
  | [] => none

def indent? : List Cell → Option (Nat × List Cell)
  | c :: rest => (Text.digitBelow? 10 c.char).map (·, rest)
  | [] => none

theorem length_chomping?_le {cells rest : List Cell} {chomping : Chomping}
    (h : chomping? cells = some (chomping, rest)) :
    rest.length ≤ cells.length := by
  cases cells <;> grind [chomping?]

theorem length_indent?_le {cells rest : List Cell} {indent : Nat}
    (h : indent? cells = some (indent, rest)) : rest.length ≤ cells.length := by
  cases cells with
  | nil => simp [indent?] at h
  | cons c cells =>
    obtain ⟨_, _, h⟩ := Option.map_eq_some_iff.1 h
    cases h
    simp

/-- The indicators of chomping and indentation, which stand in either order. A missing
indentation is zero. -/
def blockIndicators (cells : List Cell) : Option (Chomping × Nat × List Cell) :=
  match chomping? cells with
  | some (chomping, rest) =>
    match indent? rest with
    | some (indent, rest') => if indent = 0 then none else some (chomping, indent, rest')
    | none => some (chomping, 0, rest)
  | none =>
    match indent? cells with
    | some (indent, rest) =>
      if indent = 0 then none
      else match chomping? rest with
        | some (chomping, rest') => some (chomping, indent, rest')
        | none => some (.clip, indent, rest)
    | none => some (.clip, 0, cells)

theorem length_blockIndicators_le {cells rest : List Cell} {chomping : Chomping} {indent : Nat}
    (h : blockIndicators cells = some (chomping, indent, rest)) : rest.length ≤ cells.length := by
  unfold blockIndicators at h
  split at h
  · next hc =>
    have := length_chomping?_le hc
    split at h
    · next hi =>
      have := length_indent?_le hi
      grind
    · grind
  · split at h
    · next hi =>
      have := length_indent?_le hi
      split at h
      · cases h
      · split at h
        · next hc =>
          have := length_chomping?_le hc
          grind
        · grind
    · grind

/-- The rest of a line that holds nothing but blanks and a comment, up to and with its break. -/
def restOfLine (cells : List Cell) : Option (List Cell) :=
  let cells := cells.dropWhile fun c => isBlank c.char
  let cells := if atAny ['#'] cells then cells.dropWhile fun c => !isBreak c.char else cells
  match cells with
  | [] => some []
  | c :: rest => if isBreak c.char then some rest else none

theorem length_restOfLine_le {cells rest : List Cell} (h : restOfLine cells = some rest) :
    rest.length ≤ cells.length := by
  have h₁ := (List.dropWhile_sublist (l := cells) fun c => isBlank c.char).length_le
  have h₂ := (List.dropWhile_sublist (l := cells.dropWhile fun c => isBlank c.char)
    fun c => !isBreak c.char).length_le
  grind [restOfLine]

def blockScalar (folds : Bool) (margin : Nat) (cells : List Cell) :
    Option (List Char × List Cell) := do
  let (chomping, indent, cells) ← blockIndicators cells
  let cells ← restOfLine cells
  let indent := if indent = 0 then 0 else margin - 1 + indent
  let (block, rest) ← blockFrom (max margin 1) false ⟨folds, indent, 0, [], none, [], false⟩ cells
  return (block.chomped chomping, rest)

theorem length_blockScalar_le {folds : Bool} {margin : Nat} {found : List Char}
    {cells rest : List Cell} (h : blockScalar folds margin cells = some (found, rest)) :
    rest.length ≤ cells.length := by
  simp only [blockScalar, Option.bind_eq_bind, Option.bind_eq_some_iff] at h
  obtain ⟨⟨chomping, indent, body⟩, hi, body', hr, ⟨block, rest'⟩, hb, h⟩ := h
  cases h
  exact Nat.le_trans (length_blockFrom_le hb)
    (Nat.le_trans (length_restOfLine_le hr) (length_blockIndicators_le hi))

end Theming.Yaml
