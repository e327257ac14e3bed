import Theming.Error
import Theming.Theme.Scalar
import Theming.Trail
import Theming.Variables.Path

/-! The variables of a theme. A text may refer to values in the globals of its theme, and these
may be texts that refer to others. -/

namespace Theming

/-- The values that the variables of a theme refer to. -/
abbrev Globals := Value

/-- Renders what a reference has led to. A variable that does not exist leaves nothing. -/
abbrev Hook := Value → Except ThemeError String

def Hook.scalar : Hook := fun value => .ok value.scalarText

namespace Globals

/-- The value that a path leads to, behind the paths of the trail. A text that is a single
reference stands for the value of that reference, and references inside a text are replaced. -/
def lookupFrom (globals : Globals) (trail : Trail) (path : String) :
    Except ThemeError (Option Value) :=
  if path ∈ trail then .error (.cycle .variables (trail ++ [path]))
  else match _found : Value.at? globals path with
    | some (.text text) =>
      match _single : pieces text.toList with
      | [.reference target] => lookupFrom globals (trail ++ [path]) target
      | parts => do
        let texts ← parts.attach.mapM fun
          | ⟨.literal c, _⟩ => pure [c]
          | ⟨.reference next, _⟩ => do
            match ← lookupFrom globals (trail ++ [path]) next with
            | some value => return value.scalarText.toList
            | none => return []
        return some (.text (String.ofList texts.flatten))
    | other => .ok other
termination_by Trail.ahead (Value.referencedPaths globals) trail path
decreasing_by
  · next seen =>
    exact Trail.ahead_append_lt seen (Value.mem_referencedPaths_of_at? _found (by simp [_single]))
  · next seen mem =>
    exact Trail.ahead_append_lt seen (Value.mem_referencedPaths_of_at? _found (_single ▸ mem))

def renderPiece (lookup : String → Except ThemeError (Option Value)) (hook : Hook) :
    Piece → Except ThemeError (List Char)
  | .literal c => .ok [c]
  | .reference path => do
    match ← lookup path with
    | some value => return (← hook value).toList
    | none => return []

def substitute (lookup : String → Except ThemeError (Option Value)) (hook : Hook)
    (text : String) : Except ThemeError String := do
  let texts ← (pieces text.toList).mapM (renderPiece lookup hook)
  return String.ofList texts.flatten

/-- What a text that a path has led to stands for. -/
theorem lookupFrom_eq (globals : Globals) (trail : Trail) (path : String) :
    globals.lookupFrom trail path =
      if path ∈ trail then .error (.cycle .variables (trail ++ [path]))
      else match Value.at? globals path with
        | some (.text text) =>
          match pieces text.toList with
          | [.reference target] => globals.lookupFrom (trail ++ [path]) target
          | _ => do
            return some (.text (← substitute (globals.lookupFrom (trail ++ [path])) .scalar text))
        | other => .ok other := by
  rw [lookupFrom]
  split
  · rfl
  · split
    · next text found =>
      split
      · next h => simp [found, h]
      · next h =>
        have attached (g : Piece → Except ThemeError (List Char)) :
            (pieces text.toList).attach.mapM (g ∘ Subtype.val) = (pieces text.toList).mapM g := by
          rw [← List.mapM_map, List.attach_map_subtype_val]
        simp only [found, substitute, ← attached, bind_assoc, pure_bind]
        congr 2
        funext ⟨piece, _⟩
        cases piece <;> rfl
    · next h =>
      split
      · next text found => exact absurd found (h text)
      · rfl

def lookup (globals : Globals) (reference : String) : Except ThemeError (Option Value) :=
  globals.lookupFrom [] (String.ofList (pathOf reference.toList))

/-- The value at the end of a path whose segments are given one by one. -/
def lookupSegments (globals : Globals) (segments : List String) :
    Except ThemeError (Option Value) :=
  globals.lookupFrom [] (".".intercalate segments)

def resolveWith (globals : Globals) (hook : Hook) (text : String) : Except ThemeError String :=
  substitute (globals.lookupFrom []) hook text

def resolve (globals : Globals) (text : String) : Except ThemeError String :=
  globals.resolveWith .scalar text

def resolveScalar (globals : Globals) : Scalar → Except ThemeError String
  | .text text => globals.resolve text
  | other => .ok other.toText

/-- The key of a gradient under which the text for a place is found. -/
def gradientKey (allowGradient : Bool) : String :=
  if allowGradient then "definition" else "fallbackColor"

def colorHook (globals : Globals) (allowGradient : Bool) : Hook
  | .object entries =>
    match Table.find? entries (gradientKey allowGradient) with
    | some (.text text) => globals.resolve text
    | some other => .ok other.scalarText
    | none => .ok ""
  | other => .ok other.scalarText

/-- The text of a color. Where gradients are not allowed, it is their fallback. -/
def resolveColor (globals : Globals) (allowGradient : Bool) : Color → Except ThemeError String
  | .gradient gradient =>
    match if allowGradient then gradient.definition else gradient.fallbackColor with
    | some value => globals.resolveScalar value
    | none => .ok ""
  | .plain (.text text) => globals.resolveWith (globals.colorHook allowGradient) text
  | .plain other => .ok other.toText

mutual

def resolveProps (globals : Globals) : Value → Except ThemeError Value
  | .text text => (globals.resolve text).map .text
  | .list items => (resolveItems globals items).map .list
  | .object entries => (resolveEntries globals entries).map .object
  | other => .ok other
termination_by structural props => props

def resolveItems (globals : Globals) : List Value → Except ThemeError (List Value)
  | [] => .ok []
  | item :: rest => do return (← resolveProps globals item) :: (← resolveItems globals rest)
termination_by structural items => items

def resolveEntries (globals : Globals) :
    List (String × Value) → Except ThemeError (List (String × Value))
  | [] => .ok []
  | (key, value) :: rest => do
    return (key, ← resolveProps globals value) :: (← resolveEntries globals rest)
termination_by structural entries => entries

end

end Globals

end Theming
