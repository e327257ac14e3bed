import Theming.Value

/-! Laying one value over another. Objects merge key by key and keep the order of the base,
lists are joined, and everything else is taken from the overlay. -/

namespace Theming

inductive MergeStrategy where
  | recursive
  | replace
  deriving DecidableEq, Repr

/-- The keys under which an overlay replaces what the base has. -/
def replacedKeys : List String := ["theming", "colorSet", "borderSet", "fontSet"]

def strategyFor (path : List String) : MergeStrategy :=
  match path.getLast? with
  | some key => if key ∈ replacedKeys then .replace else .recursive
  | none => .recursive

namespace Value

mutual

/-- Lays the second value over `base`, both found at `path`. -/
def mergeAt (strategy : List String → MergeStrategy) (path : List String) (base : Value) :
    Value → Value
  | .object overlay =>
    match strategy path, base with
    | .recursive, .object entries => .object (mergeEntries strategy path entries overlay)
    | _, _ => .object overlay
  | .list overlay =>
    match strategy path, base with
    | .recursive, .list items => .list (items ++ overlay)
    | _, _ => .list overlay
  | overlay => overlay
termination_by structural overlay => overlay

/-- Lays entries one after the other over the table of an object. -/
def mergeEntries (strategy : List String → MergeStrategy) (path : List String)
    (base : Table Value) : List (String × Value) → Table Value
  | [] => base
  | (key, value) :: rest =>
    let merged := match base.find? key with
      | some old => mergeAt strategy (path ++ [key]) old value
      | none => value
    mergeEntries strategy path (base.put key merged) rest
termination_by structural overlay => overlay

end

def merge (strategy : List String → MergeStrategy) (base overlay : Value) : Value :=
  mergeAt strategy [] base overlay

/-- A derived configuration over its base: the replaced keys are not merged. -/
def mergeConfigs : Value → Value → Value := merge strategyFor

def deepMerge : Value → Value → Value := merge fun _ => .recursive

end Value

end Theming
