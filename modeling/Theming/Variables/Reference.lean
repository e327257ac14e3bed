import Theming.Text.Search

/-! References inside texts. A reference is `$$` with a path behind it, and perhaps a bar that
ends the path. -/

namespace Theming

/-- A text is made of characters that stand for themselves and of references. -/
inductive Piece where
  | literal (c : Char)
  | reference (path : String)
  deriving DecidableEq, Repr

def isPathChar (c : Char) : Bool := c.isAlphanum || c == '_' || c == '.'

/-- What follows a path: a bar directly behind it belongs to the reference. -/
def afterPath (text : List Char) : List Char :=
  match text.dropWhile isPathChar with
  | '|' :: rest => rest
  | rest => rest

theorem length_afterPath_le (text : List Char) : (afterPath text).length ≤ text.length := by
  have h := (List.dropWhile_sublist isPathChar (l := text)).length_le
  unfold afterPath
  split
  · next heq => simp [heq] at h; omega
  · exact h

/-- Every reference starts as early and takes as much as it can. -/
def pieces (text : List Char) : List Piece :=
  match text with
  | '$' :: '$' :: rest =>
    .reference (String.ofList (rest.takeWhile isPathChar)) :: pieces (afterPath rest)
  | c :: rest => .literal c :: pieces rest
  | [] => []
termination_by text.length
decreasing_by
  · have := length_afterPath_le rest; simp; omega
  · simp

def referencedPaths (text : List Char) : List String :=
  (pieces text).filterMap fun
    | .literal _ => none
    | .reference path => some path

theorem mem_referencedPaths {text : List Char} {path : String} :
    path ∈ referencedPaths text ↔ Piece.reference path ∈ pieces text := by
  simp only [referencedPaths, List.mem_filterMap]
  constructor
  · rintro ⟨piece, hp, h⟩
    cases piece <;> simp_all
  · exact fun h => ⟨_, h, rfl⟩

def hasReference (text : List Char) : Bool := !(referencedPaths text).isEmpty

/-- The path that a reference written by hand stands for: its mark and its bar are optional. -/
def pathOf (reference : List Char) : List Char :=
  let path := match reference with
    | '$' :: '$' :: rest => rest
    | rest => rest
  if path.getLast? = some '|' then path.dropLast else path

end Theming
