import Theming.Theme.StyleSet

/-! Boxes combine style sets and further declarations, for the plain state and for others. -/

namespace Theming

/-- The declarations of a pseudo-element in their order. Those with null are left out. -/
abbrev PseudoElement := Table (Option Scalar)

/-- What a box says about its plain state. -/
structure BoxSlots where
  parent : Option String
  borderSet : Option (Source (StyleSet .border))
  colorSet : Option (Source (StyleSet .color))
  fontSet : Option (Source (StyleSet .font))
  padding : Option Scalar
  height : Option Scalar
  width : Option Scalar
  transform : Option Scalar
  before : Option PseudoElement
  after : Option PseudoElement

inductive Box where
  | mk (slots : BoxSlots) (states : State → Option (Source Box))

namespace Box

def slots : Box → BoxSlots
  | mk slots _ => slots

def states : Box → States (Source Box)
  | mk _ states => states

end Box

def BoxSlots.record : Record BoxSlots where
  name := "BoxDefinition"
  fields := [
    .optional "__extends" Reader.text fun b x => { b with parent := x },
    .optional "borderSet" (Source.read StyleSet.read) fun b x => { b with borderSet := x },
    .optional "colorSet" (Source.read StyleSet.read) fun b x => { b with colorSet := x },
    .optional "fontSet" (Source.read StyleSet.read) fun b x => { b with fontSet := x },
    .optional "padding" Scalar.read fun b x => { b with padding := x },
    .optional "height" Scalar.read fun b x => { b with height := x },
    .optional "width" Scalar.read fun b x => { b with width := x },
    .optional "transform" Scalar.read fun b x => { b with transform := x },
    .optional "before" Scalar.read.optional.table fun b x => { b with before := x },
    .optional "after" Scalar.read.optional.table fun b x => { b with after := x }]
  blank := ⟨none, none, none, none, none, none, none, none, none, none⟩
  isPart := false

namespace Box

mutual

def readSource : Value → Except Misfit (Source Box)
  | .text s => .ok (.reference s)
  | .list items => (readSources items).map .list
  | .object entries =>
    let box := do
      let slots ← BoxSlots.record.readEntries entries
      return mk slots (← readStates (fun _ => none) entries)
    (box.map .inline).mapError fun _ => .noAlternative "Source"
  | _ => .error (.noAlternative "Source")
termination_by structural value => value

def readSources : List Value → Except Misfit (List (Source Box))
  | [] => .ok []
  | item :: rest => do return (← readSource item) :: (← readSources rest)
termination_by structural items => items

def readStates (states : States (Source Box)) :
    List (String × Value) → Except Misfit (States (Source Box))
  | [] => .ok states
  | (key, value) :: rest =>
    match State.ofKey? key with
    | some state =>
      if value.isNull then readStates (states.put state none) rest
      else do readStates (states.put state (← readSource value)) rest
    | none => readStates states rest
termination_by structural entries => entries

end

/-- Reads the plain state before the others. -/
def read : Reader Box
  | .object entries => do
    let slots ← BoxSlots.record.readEntries entries
    return mk slots (← readStates (fun _ => none) entries)
  | value => .error (.wrongType value "struct BoxDefinition")

end Box

end Theming
