import Theming.Css.State
import Theming.Theme.Basic
import Theming.Variables.Globals

/-! The styles of style sets. -/

namespace Theming

/-- A declaration, if there is a value and it is set. -/
def declared (globals : Globals) (key : String) (value : Option Scalar) :
    Except ThemeError Styles :=
  match value.filter Scalar.isSet with
  | some value => do return [(key, .declaration (← globals.resolveScalar value))]
  | none => .ok []

def coloured (globals : Globals) (key : String) (allowGradient : Bool) (value : Option Color) :
    Except ThemeError Styles :=
  match value.filter Color.isSet with
  | some color => do return [(key, .declaration (← globals.resolveColor allowGradient color))]
  | none => .ok []

def slotStyles {α : Type} (styles : α → Except ThemeError Styles) (slot : Option α) :
    Except ThemeError Styles :=
  match slot with
  | some a => styles a
  | none => .ok []

def blockUnlessEmpty (selector : String) (styles : Styles) : Styles :=
  if styles.isEmpty then [] else [(selector, .block styles)]

/-- The rule for engines that have no backdrop filters. -/
def backdropFallback : String := "@supports not (backdrop-filter: blur(1px))"

namespace Theme

/-- The filter that a property stands for. A text may refer to a filter in the globals; any other
text is the filter itself. -/
def backdropFilter (theme : Theme) : Backdrop → Except ThemeError Filter
  | .filter filter => .ok filter
  | .plain (.text text) =>
    if text.toList.take 2 = ['$', '$'] then do
      match ← Globals.lookup theme.globals text with
      | some (.object entries) =>
        (Filter.record.readEntries entries).mapError (.misfit theme.name (.backdropFilter text))
      | _ => return ⟨some (.text text), none⟩
    else .ok ⟨some (.text text), none⟩
  | .plain value => .ok ⟨some value, none⟩

def backdropStyles (theme : Theme) (backdrop : Backdrop) : Except ThemeError Styles := do
  let filter ← theme.backdropFilter backdrop
  let own ← declared theme.globals "backdropFilter" filter.definition
  let fallback ← coloured theme.globals "background" true filter.fallbackBackground
  return own ++ blockUnlessEmpty backdropFallback fallback

def colorStyles (theme : Theme) (props : ColorProps) : Except ThemeError Styles := do
  let globals := theme.globals
  let duration ← declared globals "transitionDuration" props.transitionSpeed
  let background ← coloured globals "background" true props.background
  let border ← coloured globals "borderColor" false props.border
  let filter ← declared globals "filter" props.filter
  let backdrop ← slotStyles theme.backdropStyles props.backdropFilter
  let foreground ← coloured globals "color" false props.foreground
  let icon ← declared globals "color" props.icon
  let shadow ← declared globals "boxShadow" props.shadow
  return duration ++ background ++ border ++ filter ++ backdrop ++ foreground ++
    blockUnlessEmpty "& svg" icon ++ shadow

def selectionStyles (theme : Theme) (selection : Selection) : Except ThemeError Styles := do
  let foreground ← coloured theme.globals "color" false selection.foreground
  let background ← coloured theme.globals "background" false selection.background
  return [(selectionSelector, .block (foreground ++ background))]

def edgeStyles (theme : Theme) (stem : String) (edge : BorderEdge) : Except ThemeError Styles := do
  let image ← declared theme.globals (stem ++ "-image") edge.image
  let style ← declared theme.globals (stem ++ "-style") edge.style
  let width ← declared theme.globals (stem ++ "-width") edge.width
  return image ++ style ++ width

def borderStyles (theme : Theme) (props : BorderProps) : Except ThemeError Styles := do
  let side (stem : String) := slotStyles (theme.edgeStyles stem)
  let edges ← theme.edgeStyles "border" props.edges
  let duration ← declared theme.globals "transitionDuration" props.transitionSpeed
  let bottom ← side "border-bottom" props.bottom
  let left ← side "border-left" props.left
  let right ← side "border-right" props.right
  let top ← side "border-top" props.top
  let radius ← declared theme.globals "border-radius" props.radius
  return edges ++ duration ++ bottom ++ left ++ right ++ top ++ radius

def fontStyles (theme : Theme) (props : FontProps) : Except ThemeError Styles := do
  let globals := theme.globals
  let duration ← declared globals "transitionDuration" props.transitionSpeed
  let family ← declared globals "font-family" props.family
  let letterSpacing ← declared globals "letter-spacing" props.letterSpacing
  let lineHeight ← declared globals "lineHeight" props.lineHeight
  let size ← declared globals "fontSize" props.size
  let style ← declared globals "fontStyle" props.style
  let weight ← declared globals "fontWeight" props.weight
  let transform ← declared globals "textTransform" props.transform
  return duration ++ family ++ letterSpacing ++ lineHeight ++ size ++ style ++ weight ++ transform

def propStyles (theme : Theme) : (kind : SetKind) → kind.Props → Except ThemeError Styles
  | .color, props => theme.colorStyles props
  | .border, props => theme.borderStyles props
  | .font, props => theme.fontStyles props

/-- The block of a state. What is disabled does not react to the pointer. -/
def stateStyles (theme : Theme) (kind : SetKind) (state : State) (props : Option kind.Props) :
    Except ThemeError Styles :=
  match props with
  | none => .ok []
  | some props => do
    let styles ← theme.propStyles kind props
    let pointer := if state = .disabled then [("pointer-events", .declaration "none")] else []
    return [(state.selector, .block (styles ++ pointer))]

def ownStyles (theme : Theme) {kind : SetKind} (set : StyleSet kind) : Except ThemeError Styles := do
  let base ← theme.propStyles kind set.base
  let states ← State.setOrder.mapM fun state => theme.stateStyles kind state (set.states state)
  let selection ← slotStyles theme.selectionStyles set.selection
  return base ++ states.flatten ++ selection

def setLabel (kind : SetKind) (name : String) : String := kind.tableKey ++ "." ++ name

def setLabels (theme : Theme) (kind : SetKind) : List String :=
  (theme.sets.table kind).keys.map (setLabel kind)

/-- The styles of a set, laid over those of the set that it extends. -/
def inlineSetStyles (theme : Theme) {kind : SetKind}
    (refer : String → Except ThemeError Styles) (set : StyleSet kind) :
    Except ThemeError Styles := do
  let own ← theme.ownStyles set
  let inherited ← slotStyles refer set.parent
  return (Styles.merge inherited own).sorted

/-- The styles of the set that a reference leads to, behind the sets of the trail. A set that
does not exist has none. -/
def namedSetStyles (theme : Theme) (kind : SetKind) (trail : Trail) (reference : String) :
    Except ThemeError Styles :=
  let name := referenceName reference
  let label := setLabel kind name
  if label ∈ trail then .error (.cycle .styleSets (trail ++ [label]))
  else match _found : (theme.sets.table kind).find? name with
    | none => .ok []
    | some set =>
      theme.inlineSetStyles (fun parent => theme.namedSetStyles kind (trail ++ [label]) parent) set
termination_by Trail.unmet (theme.setLabels kind) trail
decreasing_by
  next seen =>
  exact Trail.unmet_append_lt (List.mem_map_of_mem (Table.mem_keys_of_find? _found)) seen

mutual

/-- The styles of a source of style sets. Those of a list are merged in order. -/
def setStyles (theme : Theme) {kind : SetKind} :
    Source (StyleSet kind) → Except ThemeError Styles
  | .reference text => theme.namedSetStyles kind [] text
  | .inline set => theme.inlineSetStyles (theme.namedSetStyles kind []) set
  | .list items => setListStyles theme [] items
termination_by structural source => source

def setListStyles (theme : Theme) {kind : SetKind} (merged : Styles) :
    List (Source (StyleSet kind)) → Except ThemeError Styles
  | [] => .ok merged
  | item :: rest => do
    setListStyles theme (Styles.merge merged (← setStyles theme item)) rest
termination_by structural items => items

end

end Theme

end Theming
