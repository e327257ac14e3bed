import Theming.Css.State
import Theming.Theme.Scalar
import Theming.Theme.Source

/-! Reusable sets of colors, borders and fonts. A set has properties for the plain state and for
others, and may extend another set of its kind. -/

namespace Theming

structure ColorProps where
  transitionSpeed : Option Scalar
  background : Option Color
  border : Option Color
  filter : Option Scalar
  backdropFilter : Option Backdrop
  foreground : Option Color
  icon : Option Scalar
  shadow : Option Scalar
  deriving DecidableEq, Repr

structure Selection where
  foreground : Option Color
  background : Option Color
  deriving DecidableEq, Repr

/-- One edge of a border, or all of them. -/
structure BorderEdge where
  image : Option Scalar
  style : Option Scalar
  width : Option Scalar
  deriving DecidableEq, Repr

structure BorderProps where
  edges : BorderEdge
  transitionSpeed : Option Scalar
  bottom : Option BorderEdge
  left : Option BorderEdge
  right : Option BorderEdge
  top : Option BorderEdge
  radius : Option Scalar
  deriving DecidableEq, Repr

structure FontProps where
  transitionSpeed : Option Scalar
  family : Option Scalar
  letterSpacing : Option Scalar
  lineHeight : Option Scalar
  size : Option Scalar
  style : Option Scalar
  weight : Option Scalar
  transform : Option Scalar
  deriving DecidableEq, Repr

inductive SetKind where
  | color
  | border
  | font
  deriving DecidableEq, Repr

namespace SetKind

abbrev Props : SetKind → Type
  | color => ColorProps
  | border => BorderProps
  | font => FontProps

def tableKey : SetKind → String
  | color => "colorSets"
  | border => "borderSets"
  | font => "fontSets"

def typeName : SetKind → String
  | color => "ColorSet"
  | border => "BorderSet"
  | font => "FontSet"

end SetKind

/-- A style set. Only color sets have a selection. -/
structure StyleSet (kind : SetKind) where
  parent : Option String
  base : kind.Props
  states : States kind.Props
  selection : Option Selection

def ColorProps.record : Record ColorProps where
  name := "ColorMap"
  fields := [
    .optional "transitionSpeed" Scalar.read fun p x => { p with transitionSpeed := x },
    .optional "background" Color.read fun p x => { p with background := x },
    .optional "border" Color.read fun p x => { p with border := x },
    .optional "filter" Scalar.read fun p x => { p with filter := x },
    .optional "backdropFilter" Backdrop.read fun p x => { p with backdropFilter := x },
    .optional "foreground" Color.read fun p x => { p with foreground := x },
    .optional "icon" Scalar.read fun p x => { p with icon := x },
    .optional "shadow" Scalar.read fun p x => { p with shadow := x }]
  blank := ⟨none, none, none, none, none, none, none, none⟩
  isPart := true

def Selection.record : Record Selection where
  name := "Selection"
  fields := [
    .optional "foreground" Color.read fun s x => { s with foreground := x },
    .optional "background" Color.read fun s x => { s with background := x }]
  blank := ⟨none, none⟩
  isPart := false

namespace BorderEdge

def blank : BorderEdge := ⟨none, none, none⟩

def record : Record BorderEdge where
  name := "BorderDefinition"
  fields := [
    .optional "image" Scalar.read fun e x => { e with image := x },
    .optional "style" Scalar.read fun e x => { e with style := x },
    .optional "width" Scalar.read fun e x => { e with width := x }]
  blank := blank
  isPart := true

end BorderEdge

def BorderProps.record : Record BorderProps where
  name := "BorderMap"
  fields := [
    .optional "image" Scalar.read fun p x => { p with edges.image := x },
    .optional "style" Scalar.read fun p x => { p with edges.style := x },
    .optional "width" Scalar.read fun p x => { p with edges.width := x },
    .optional "transitionSpeed" Scalar.read fun p x => { p with transitionSpeed := x },
    .optional "bottom" BorderEdge.record.read fun p x => { p with bottom := x },
    .optional "left" BorderEdge.record.read fun p x => { p with left := x },
    .optional "right" BorderEdge.record.read fun p x => { p with right := x },
    .optional "top" BorderEdge.record.read fun p x => { p with top := x },
    .optional "radius" Scalar.read fun p x => { p with radius := x }]
  blank := ⟨.blank, none, none, none, none, none, none⟩
  isPart := true

def FontProps.record : Record FontProps where
  name := "FontMap"
  fields := [
    .optional "transitionSpeed" Scalar.read fun p x => { p with transitionSpeed := x },
    .optional "family" Scalar.read fun p x => { p with family := x },
    .optional "letterSpacing" Scalar.read fun p x => { p with letterSpacing := x },
    .optional "lineHeight" Scalar.read fun p x => { p with lineHeight := x },
    .optional "size" Scalar.read fun p x => { p with size := x },
    .optional "style" Scalar.read fun p x => { p with style := x },
    .optional "weight" Scalar.read fun p x => { p with weight := x },
    .optional "transform" Scalar.read fun p x => { p with transform := x }]
  blank := ⟨none, none, none, none, none, none, none, none⟩
  isPart := true

namespace SetKind

def record : (kind : SetKind) → Record kind.Props
  | color => ColorProps.record
  | border => BorderProps.record
  | font => FontProps.record

end SetKind

/-- The entries of a set that belong neither to the plain state nor to another one. -/
structure SetHead where
  parent : Option String
  selection : Option Selection

def SetHead.record (kind : SetKind) : Record SetHead where
  name := kind.typeName
  fields :=
    .optional "__extends" Reader.text (fun h x => { h with parent := x }) ::
      if kind = .color then
        [.optional "__selection" Selection.record.read fun h x => { h with selection := x }]
      else []
  blank := ⟨none, none⟩
  isPart := false

/-- Reads what belongs to states. A state with null counts as absent. -/
def States.read {α : Type} (read : Reader α) (entries : List (String × Value)) :
    Except Misfit (States α) :=
  entries.foldlM (fun states (key, value) =>
    match State.ofKey? key with
    | some state => (read.optional value).map (states.put state)
    | none => pure states) fun _ => none

/-- Reads the head of a set first, then the properties of the plain state and of the others. -/
def StyleSet.read {kind : SetKind} : Reader (StyleSet kind)
  | .object entries => do
    let head ← (SetHead.record kind).readEntries entries
    let base ← kind.record.readEntries entries
    let states ← States.read kind.record.read entries
    return ⟨head.parent, base, states, head.selection⟩
  | value => .error (.wrongType value ("struct " ++ kind.typeName))

end Theming
