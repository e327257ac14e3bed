import Theming.Table
import Theming.Yaml.Tag

/-! Dividing a YAML text into tokens. Outside brackets the columns of the tokens decide where
collections start and end. That something is a key shows only at the colon behind it, so the
token of the key is inserted later. -/

namespace Theming.Yaml

/-- A place where a key may have started. -/
structure Candidate where
  tokensBefore : Nat
  start : Cell
  /-- Nothing but a key can stand here. -/
  required : Bool

structure Scan where
  /-- The tokens in reverse. -/
  found : List Token
  /-- For each open block collection the first column that lies behind its start, the innermost
  first. -/
  margins : List Nat
  /-- The candidates outside of each open bracket. -/
  outer : List (Option Candidate)
  candidate : Option Candidate
  keyAllowed : Bool
  anchors : Table Nat

namespace Scan

def start : Scan := ⟨[], [], [], none, true, []⟩

def inFlow (scan : Scan) : Bool := !scan.outer.isEmpty

def margin (scan : Scan) : Nat := scan.margins.head?.getD 0

def add (scan : Scan) (token : Token) : Scan := { scan with found := token :: scan.found }

/-- Ends the block collections whose margin lies behind a given one. -/
def closeTo (scan : Scan) (margin : Nat) : Scan :=
  if scan.inFlow then scan
  else
    let closed := scan.margins.takeWhile (margin < ·)
    { scan with
      margins := scan.margins.drop closed.length
      found := closed.map (fun _ => Token.blockEnd) ++ scan.found }

/-- Starts a block collection at a column, unless the innermost one starts there. The tokens
behind its start, in reverse, are put there again. -/
def openAt (scan : Scan) (column : Nat) (token : Token) (behind : List Token) : Scan :=
  if scan.inFlow || column < scan.margin then { scan with found := behind ++ scan.found }
  else { scan with
    found := behind ++ token :: scan.found
    margins := (column + 1) :: scan.margins }

def forgetKey (scan : Scan) : Option Scan :=
  if scan.candidate.any Candidate.required then none else some { scan with candidate := none }

/-- A node starts here, which may be a key. Another one may not start before the next break. -/
def markKey (scan : Scan) (start : Cell) : Option Scan :=
  if scan.keyAllowed then do
    let scan ← scan.forgetKey
    let required := !scan.inFlow && scan.margin == start.column + 1
    return { scan with candidate := some ⟨scan.found.length, start, required⟩, keyAllowed := false }
  else some scan

/-- A key takes a single line and at most 1024 characters. -/
def Candidate.isStale (here : Cell) (candidate : Candidate) : Bool :=
  candidate.start.line < here.line || candidate.start.index + 1024 < here.index

def forgetStale (scan : Scan) (here : Cell) : Option Scan :=
  let isStale := Candidate.isStale here
  if (scan.candidate :: scan.outer).any (·.any fun c => isStale c && c.required) then none
  else
    let keep (candidate : Option Candidate) := candidate.filter fun c => !isStale c
    some { scan with candidate := keep scan.candidate, outer := scan.outer.map keep }

/-- Ends all block collections in front of a directive or a document marker. -/
def leaveBlocks (scan : Scan) (token : Token) : Option Scan := do
  let scan ← (scan.closeTo 0).forgetKey
  return { scan with keyAllowed := false }.add token

def openBracket (scan : Scan) (here : Cell) (token : Token) : Option Scan := do
  let scan ← scan.markKey here
  return { scan with
    outer := scan.candidate :: scan.outer
    candidate := none
    keyAllowed := true }.add token

def closeBracket (scan : Scan) (token : Token) : Option Scan := do
  let scan ← scan.forgetKey
  return { scan with
    outer := scan.outer.tail
    candidate := scan.outer.head?.join
    keyAllowed := false }.add token

/-- The indicator of an item or of a key. Outside brackets it needs the start of a line, or
another indicator before it. -/
def indicator (scan : Scan) (here : Cell) (collection token : Token) (allowsKey : Bool) :
    Option Scan :=
  if !scan.inFlow && !scan.keyAllowed then none
  else do
    let scan ← (scan.openAt here.column collection []).forgetKey
    return { scan with keyAllowed := allowsKey }.add token

/-- The colon behind a key, which turns the candidate into one. -/
def valueIndicator (scan : Scan) (here : Cell) : Option Scan :=
  match scan.candidate with
  | some candidate =>
    let behind := scan.found.take (scan.found.length - candidate.tokensBefore)
    let scan := { scan with
      found := scan.found.drop behind.length
      candidate := none
      keyAllowed := false }
    some ((scan.openAt candidate.start.column .blockMappingStart (behind ++ [.key])).add .value)
  | none =>
    if scan.inFlow then some ({ scan with keyAllowed := false }.add .value)
    else if scan.keyAllowed then
      some ((scan.openAt here.column .blockMappingStart []).add .value)
    else none

/-- The anchors are numbered in the order in which their names first appear. -/
def anchor (scan : Scan) (name : String) : Scan :=
  { scan with anchors := scan.anchors.put name scan.anchors.length }.add (.anchor scan.anchors.length)

def alias? (scan : Scan) (name : String) : Option Scan :=
  (scan.anchors.find? name).map fun id => scan.add (.alias id)

def scalar (scan : Scan) (plain : Bool) (found : List Char) : Scan :=
  scan.add (.scalar plain (String.ofList found.reverse))

end Scan

def startsPlain (inFlow : Bool) (c : Char) (rest : List Cell) : Bool :=
  if c == '-' then !(rest.head?.any fun d => isBlank d.char)
  else if c == '?' || c == ':' then !inFlow && !atWhite rest
  else !isWhite c && !",[]\x7b\x7d#&*!|>'\"%@\x60".toList.contains c

/-- The token that starts at a cell, and the cells behind it. -/
def Scan.next (scan : Scan) (here : Cell) (rest : List Cell) : Option (Scan × List Cell) :=
  let cells := here :: rest
  let on (scan : Option Scan) := scan.map (·, rest)
  let white := scan.inFlow || atWhite rest
  if here.column == 0 && here.char == '%' then do
    let (token, rest) ← directive rest
    return (← scan.leaveBlocks token, rest)
  else if atMarker '-' cells then do return (← scan.leaveBlocks .documentStart, rest.drop 2)
  else if atMarker '.' cells then do return (← scan.leaveBlocks .documentEnd, rest.drop 2)
  else match here.char with
    | '[' => on (scan.openBracket here .flowListStart)
    | '\x7b' => on (scan.openBracket here .flowMappingStart)
    | ']' => on (scan.closeBracket .flowListEnd)
    | '\x7d' => on (scan.closeBracket .flowMappingEnd)
    | ',' => on (scan.forgetKey.map fun scan => { scan with keyAllowed := true }.add .flowEntry)
    | '*' => do
      let (name, rest) ← anchorName rest
      return (← (← scan.markKey here).alias? name, rest)
    | '&' => do
      let (name, rest) ← anchorName rest
      return ((← scan.markKey here).anchor name, rest)
    | '!' => do
      let (token, rest) ← tag scan.inFlow rest
      return ((← scan.markKey here).add token, rest)
    | '\'' => do
      let (found, rest) ← singleFrom [] .empty rest
      return ((← scan.markKey here).scalar false found, rest)
    | '"' => do
      let (found, rest) ← doubleFrom 0 0 [] .empty rest
      return ((← scan.markKey here).scalar false found, rest)
    | c =>
      if c == '-' && atWhite rest then
        on (scan.indicator here .blockListStart .blockEntry true)
      else if c == '?' && white then
        on (scan.indicator here .blockMappingStart .key !scan.inFlow)
      else if c == ':' && white then on (scan.valueIndicator here)
      else if (c == '|' || c == '>') && !scan.inFlow then do
        let (found, rest) ← blockScalar (c == '>') scan.margin rest
        let scan ← scan.forgetKey
        return ({ scan with keyAllowed := true }.scalar false found, rest)
      else if startsPlain scan.inFlow c rest then do
        let scan ← scan.markKey here
        let (found, gap, rest) ← plainFrom scan.inFlow scan.margin [c] .empty rest
        return ({ scan with keyAllowed := scan.keyAllowed || gap.hasBreak }.scalar true found, rest)
      else none

theorem Scan.length_next_le {scan scan' : Scan} {here : Cell} {rest rest' : List Cell}
    (h : scan.next here rest = some (scan', rest')) : rest'.length ≤ rest.length := by
  have mapped {behind : List Cell} {scan : Option Scan}
      (h : scan.map (·, behind) = some (scan', rest')) : rest' = behind := by
    obtain ⟨_, _, h⟩ := Option.map_eq_some_iff.1 h
    cases h
    rfl
  have bound {behind : List Cell} {scan : Option Scan} {f : Scan → Scan}
      (h : (scan.bind fun scan => some (f scan, behind)) = some (scan', rest')) :
      rest' = behind := by
    obtain ⟨_, _, h⟩ := Option.bind_eq_some_iff.1 h
    cases h
    rfl
  unfold Scan.next at h
  dsimp only at h
  split at h
  · obtain ⟨_, hd, h⟩ := Option.bind_eq_some_iff.1 h
    exact bound h ▸ length_directive_le hd
  · split at h
    · exact bound h ▸ (rest.drop_sublist 2).length_le
    · split at h
      · exact bound h ▸ (rest.drop_sublist 2).length_le
      · split at h
        · exact mapped h ▸ Nat.le_refl _
        · exact mapped h ▸ Nat.le_refl _
        · exact mapped h ▸ Nat.le_refl _
        · exact mapped h ▸ Nat.le_refl _
        · exact mapped h ▸ Nat.le_refl _
        · obtain ⟨_, hn, h⟩ := Option.bind_eq_some_iff.1 h
          obtain ⟨_, _, h⟩ := Option.bind_eq_some_iff.1 h
          exact bound h ▸ length_anchorName_le hn
        · obtain ⟨_, hn, h⟩ := Option.bind_eq_some_iff.1 h
          exact bound h ▸ length_anchorName_le hn
        · obtain ⟨_, ht, h⟩ := Option.bind_eq_some_iff.1 h
          exact bound h ▸ length_tag_le ht
        · obtain ⟨_, hs, h⟩ := Option.bind_eq_some_iff.1 h
          exact bound h ▸ length_singleFrom_le hs
        · obtain ⟨_, hs, h⟩ := Option.bind_eq_some_iff.1 h
          exact bound h ▸ length_doubleFrom_le hs
        · split at h
          · exact mapped h ▸ Nat.le_refl _
          · split at h
            · exact mapped h ▸ Nat.le_refl _
            · split at h
              · exact mapped h ▸ Nat.le_refl _
              · split at h
                · obtain ⟨_, hs, h⟩ := Option.bind_eq_some_iff.1 h
                  exact bound h ▸ length_blockScalar_le hs
                · split at h
                  · obtain ⟨_, _, h⟩ := Option.bind_eq_some_iff.1 h
                    obtain ⟨_, hs, h⟩ := Option.bind_eq_some_iff.1 h
                    cases h
                    exact length_plainFrom_le hs
                  · cases h

def byteOrderMark : Char := Char.ofNat 0xFEFF

/-- Skips blanks, line breaks and comments. Outside brackets, a break lets a key start, and tabs
are blanks only where none can. -/
def skip (inFlow : Bool) : (inComment keyAllowed : Bool) → List Cell → Bool × List Cell
  | _, keyAllowed, [] => (keyAllowed, [])
  | inComment, keyAllowed, c :: rest =>
    if isBreak c.char then skip inFlow false (keyAllowed || !inFlow) rest
    else if inComment || c.char == ' ' || (c.char == '\t' && (inFlow || !keyAllowed)) ||
        (c.char == byteOrderMark && c.column == 0) then
      skip inFlow inComment keyAllowed rest
    else if c.char == '#' then skip inFlow true keyAllowed rest
    else (keyAllowed, c :: rest)

theorem length_skip_le {inFlow inComment keyAllowed allowed : Bool} {cells rest : List Cell}
    (h : skip inFlow inComment keyAllowed cells = (allowed, rest)) :
    rest.length ≤ cells.length := by
  fun_induction skip inFlow inComment keyAllowed cells <;> grind

def tokensFrom (scan : Scan) (cells : List Cell) : Option (List Token) :=
  match hs : skip scan.inFlow false scan.keyAllowed cells with
  | (_, []) => do return (← (scan.closeTo 0).forgetKey).found.reverse
  | (keyAllowed, here :: rest) => do
    let scan ← { scan with keyAllowed := keyAllowed }.forgetStale here
    match hn : (scan.closeTo (here.column + 1)).next here rest with
    | none => none
    | some (scan, rest') =>
      have : rest'.length < cells.length :=
        Nat.lt_of_le_of_lt (Scan.length_next_le hn) (length_skip_le hs)
      tokensFrom scan rest'
termination_by cells.length

def tokens? (text : List Char) : Option (List Token) := do
  tokensFrom .start (← cells? text)

end Theming.Yaml
