import Theming.Misfit

/-! What may stand in the place of a style set or a box. -/

namespace Theming

/-- A reference to a definition, several sources that are merged in order, or a definition. -/
inductive Source (α : Type) where
  | reference (text : String)
  | list (items : List (Source α))
  | inline (definition : α)
  deriving Inhabited

/-- The name that a reference stands for, with or without its mark. -/
def referenceName (reference : String) : String :=
  match reference.toList with
  | '$' :: '$' :: name => String.ofList name
  | _ => reference

namespace Source

variable {α : Type}

mutual

/-- A text is a reference, a list holds sources, and anything else is a definition. -/
def read (inline : Reader α) : Value → Except Misfit (Source α)
  | .text s => .ok (.reference s)
  | .list items => (readItems inline items).map .list
  | value => Reader.oneOf "Source" inline value |>.map .inline
termination_by structural value => value

def readItems (inline : Reader α) : List Value → Except Misfit (List (Source α))
  | [] => .ok []
  | item :: rest => do return (← read inline item) :: (← readItems inline rest)
termination_by structural items => items

end

end Source

end Theming
