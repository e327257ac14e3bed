import Theming.Yaml.Scalar
import Theming.Yaml.Token

/-! Reading names, tags and directives. -/

namespace Theming.Yaml

def isNameChar (c : Char) : Bool := c.isAlphanum || c == '_' || c == '-'

def isUriChar (c : Char) : Bool := isNameChar c || ";/?:@&=+$.%!~*'()".toList.contains c

def chars (cells : List Cell) : List Char := cells.map Cell.char

def spanChars (p : Char → Bool) (cells : List Cell) : List Char × List Cell :=
  (chars (cells.takeWhile fun c => p c.char), cells.dropWhile fun c => p c.char)

theorem length_spanChars_le (p : Char → Bool) (cells : List Cell) :
    (spanChars p cells).2.length ≤ cells.length := (List.dropWhile_sublist _).length_le

/-- The name of an anchor. Not every character may follow it. -/
def anchorName (cells : List Cell) : Option (String × List Cell) :=
  let (name, rest) := spanChars isNameChar cells
  if name.isEmpty then none
  else if atWhite rest || atAny ['?', ':', ',', ']', '\x7d', '%', '@', '\x60'] rest then
    some (String.ofList name, rest)
  else none

theorem length_anchorName_le {cells rest : List Cell} {name : String}
    (h : anchorName cells = some (name, rest)) : rest.length ≤ cells.length := by
  have := length_spanChars_le isNameChar cells
  grind [anchorName]

def byteWidth? (byte : Nat) : Option Nat :=
  if byte < 0x80 then some 1
  else if byte < 0xC0 then none
  else if byte < 0xE0 then some 2
  else if byte < 0xF0 then some 3
  else if byte < 0xF8 then some 4
  else none

/-- Puts the characters in the place of escaped bytes. While `missing` bytes of a character are
to come, `code` is what the ones before make up. -/
def unescapeUri : (missing code : Nat) → List Char → Option (List Char)
  | 0, _, [] => some []
  | _, _, [] => none
  | missing, code, '%' :: a :: b :: rest => do
    let byte ← Text.number? 16 [a, b]
    match missing with
    | 0 =>
      match byteWidth? byte with
      | none => none
      | some 1 => (unescapeUri 0 0 rest).map (Char.ofNat byte :: ·)
      | some width => unescapeUri (width - 1) (byte % Nat.pow 2 (7 - width)) rest
    | missing + 1 =>
      if byte / 0x40 = 2 then
        let code := 0x40 * code + byte % 0x40
        if missing = 0 then (unescapeUri 0 0 rest).map (Char.ofNat code :: ·)
        else unescapeUri missing code rest
      else none
  | 0, _, c :: rest => if c = '%' then none else (unescapeUri 0 0 rest).map (c :: ·)
  | _ + 1, _, _ => none

/-- The characters of a tag, of which those in `more` are allowed besides the usual ones. -/
def tagUri (more : List Char) (cells : List Cell) : Option (List Char × List Cell) := do
  let (uri, rest) := spanChars (fun c => isUriChar c || more.contains c) cells
  return (← unescapeUri 0 0 uri, rest)

theorem length_tagUri_le {more uri : List Char} {cells rest : List Cell}
    (h : tagUri more cells = some (uri, rest)) : rest.length ≤ cells.length := by
  simp only [tagUri, Option.bind_eq_bind, Option.bind_eq_some_iff] at h
  obtain ⟨_, _, h⟩ := h
  cases h
  exact length_spanChars_le _ _

/-- A tag behind its exclamation mark, as handle and suffix. The handle is `!`, except for a
named or doubled one. A lone mark is a suffix without handle. -/
def tagParts (cells : List Cell) : Option (String × String × List Cell) :=
  match cells with
  | [] => some ("", "!", [])
  | c :: rest =>
    if c.char == '<' then do
      let (uri, rest) ← tagUri [',', '[', ']'] rest
      match rest with
      | d :: rest => if uri.isEmpty || d.char != '>' then none else some ("", String.ofList uri, rest)
      | [] => none
    else do
      let (name, rest) := spanChars isNameChar cells
      let (uri, rest') ← tagUri [] (if atAny ['!'] rest then rest.tail else rest)
      if atAny ['!'] rest then
        if uri.isEmpty then none
        else some (String.ofList ('!' :: name ++ ['!']), String.ofList uri, rest')
      else if (name ++ uri).isEmpty then some ("", "!", rest')
      else some ("!", String.ofList (name ++ uri), rest')

theorem length_tagParts_le {cells rest : List Cell} {handle suffix : String}
    (h : tagParts cells = some (handle, suffix, rest)) : rest.length ≤ cells.length := by
  unfold tagParts at h
  split at h
  · cases h; simp
  · next c cells' =>
    split at h
    · simp only [Option.bind_eq_bind, Option.bind_eq_some_iff] at h
      obtain ⟨⟨uri, behind⟩, hu, h⟩ := h
      have := length_tagUri_le hu
      grind
    · simp only [Option.bind_eq_bind, Option.bind_eq_some_iff] at h
      obtain ⟨⟨uri, behind⟩, hu, h⟩ := h
      have := length_tagUri_le hu
      have := length_spanChars_le isNameChar (c :: cells')
      grind

def tag (inFlow : Bool) (cells : List Cell) : Option (Token × List Cell) := do
  let (handle, suffix, rest) ← tagParts cells
  if atWhite rest || (inFlow && atAny [','] rest) then some (.tag handle suffix, rest) else none

theorem length_tag_le {inFlow : Bool} {cells rest : List Cell} {token : Token}
    (h : tag inFlow cells = some (token, rest)) : rest.length ≤ cells.length := by
  simp only [tag, Option.bind_eq_bind, Option.bind_eq_some_iff] at h
  obtain ⟨⟨handle, suffix, behind⟩, hp, h⟩ := h
  have := length_tagParts_le hp
  grind

def dropBlanks (cells : List Cell) : List Cell := cells.dropWhile fun c => isBlank c.char

theorem length_dropBlanks_le (cells : List Cell) : (dropBlanks cells).length ≤ cells.length :=
  (List.dropWhile_sublist _).length_le

def versionNumber (cells : List Cell) : Option (Nat × List Cell) :=
  let (digits, rest) := spanChars Char.isDigit cells
  if digits.length ≤ 9 then (Text.number? 10 digits).map (·, rest) else none

theorem length_versionNumber_le {cells rest : List Cell} {n : Nat}
    (h : versionNumber cells = some (n, rest)) : rest.length ≤ cells.length := by
  simp only [versionNumber] at h
  split at h
  · obtain ⟨_, _, h⟩ := Option.map_eq_some_iff.1 h
    cases h
    exact length_spanChars_le _ _
  · cases h

/-- The only known versions are 1.1 and 1.2. -/
def version (cells : List Cell) : Option (Token × List Cell) := do
  let (major, rest) ← versionNumber (dropBlanks cells)
  match rest with
  | c :: rest =>
    if c.char != '.' then none
    else
      let (minor, rest) ← versionNumber rest
      if major = 1 && (minor = 1 || minor = 2) then some (.version, rest) else none
  | [] => none

theorem length_version_le {cells rest : List Cell} {token : Token}
    (h : version cells = some (token, rest)) : rest.length ≤ cells.length := by
  simp only [version, Option.bind_eq_bind, Option.bind_eq_some_iff] at h
  obtain ⟨⟨major, behind⟩, hm, h⟩ := h
  have := length_versionNumber_le hm
  have := length_dropBlanks_le cells
  split at h
  · split at h
    · simp at h
    · simp only [Option.bind_eq_some_iff] at h
      obtain ⟨⟨minor, behind'⟩, hn, h⟩ := h
      have := length_versionNumber_le hn
      grind
  · simp at h

/-- The handle of a tag behind its first exclamation mark: a lone mark, or a second one, which a
name may precede. -/
def handle (cells : List Cell) : Option (String × List Cell) :=
  let (name, rest) := spanChars isNameChar cells
  if atAny ['!'] rest then some (String.ofList ('!' :: name ++ ['!']), rest.tail)
  else if name.isEmpty then some ("!", rest)
  else none

theorem length_handle_le {cells rest : List Cell} {name : String}
    (h : handle cells = some (name, rest)) : rest.length ≤ cells.length := by
  have := length_spanChars_le isNameChar cells
  grind [handle]

def tagHandle (cells : List Cell) : Option (Token × List Cell) :=
  match dropBlanks cells with
  | [] => none
  | c :: rest =>
    if c.char != '!' then none
    else do
      let (handle, rest) ← handle rest
      if atAny [' ', '\t'] rest then
        let (uri, rest) ← tagUri [',', '[', ']'] (dropBlanks rest)
        if !uri.isEmpty && atWhite rest then some (.tagHandle handle (String.ofList uri), rest)
        else none
      else none

theorem length_tagHandle_le {cells rest : List Cell} {token : Token}
    (h : tagHandle cells = some (token, rest)) : rest.length ≤ cells.length := by
  have h₁ := length_dropBlanks_le cells
  unfold tagHandle at h
  split at h
  · cases h
  · next c behind hd =>
    split at h
    · cases h
    · obtain ⟨⟨name, behind₁⟩, hh, h⟩ := Option.bind_eq_some_iff.1 h
      have h₂ := length_handle_le hh
      have h₃ := length_dropBlanks_le behind₁
      dsimp only at h
      split at h
      · obtain ⟨⟨uri, behind₂⟩, hu, h⟩ := Option.bind_eq_some_iff.1 h
        have := length_tagUri_le hu
        grind
      · cases h

def namedDirective (name : List Char) (cells : List Cell) : Option (Token × List Cell) :=
  if !atWhite cells then none
  else if name = ['Y', 'A', 'M', 'L'] then version cells
  else if name = ['T', 'A', 'G'] then tagHandle cells
  else none

theorem length_namedDirective_le {name : List Char} {cells rest : List Cell} {token : Token}
    (h : namedDirective name cells = some (token, rest)) : rest.length ≤ cells.length := by
  unfold namedDirective at h
  split at h
  · cases h
  · split at h
    · exact length_version_le h
    · split at h
      · exact length_tagHandle_le h
      · cases h

/-- A directive behind its percent sign, with the rest of its line. -/
def directive (cells : List Cell) : Option (Token × List Cell) := do
  let (name, rest) := spanChars isNameChar cells
  let (token, rest) ← namedDirective name rest
  return (token, ← restOfLine rest)

theorem length_directive_le {cells rest : List Cell} {token : Token}
    (h : directive cells = some (token, rest)) : rest.length ≤ cells.length := by
  obtain ⟨⟨_, behind⟩, hd, h⟩ := Option.bind_eq_some_iff.1 h
  obtain ⟨_, hr, h⟩ := Option.bind_eq_some_iff.1 h
  cases h
  exact Nat.le_trans (length_restOfLine_le hr)
    (Nat.le_trans (length_namedDirective_le hd) (length_spanChars_le _ _))

end Theming.Yaml
