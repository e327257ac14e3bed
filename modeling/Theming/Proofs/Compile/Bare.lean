import Theming.Proofs.Compile.BoxCycles
import Theming.Proofs.Compile.SetReferences

/-! Themes with their slots emptied where the value counts as absent. Boxes and style sets have the
same styles as before. -/

namespace Theming

/-! Emptying slots. Of a gradient, only the field for its place is kept, as the other is not looked
at. An empty text in that field resolves to the same as no text at all, but false does not. -/

def Gradient.bare (allowGradient : Bool) (gradient : Gradient) : Gradient :=
  if allowGradient then ⟨gradient.definition.filter (· ≠ .text ""), none⟩
  else ⟨none, gradient.fallbackColor.filter (· ≠ .text "")⟩

def Color.bare (allowGradient : Bool) : Color → Color
  | .gradient g => .gradient (g.bare allowGradient)
  | .plain value => .plain value

def Color.bareSlot (allowGradient : Bool) (slot : Option Color) : Option Color :=
  (slot.filter Color.isSet).map (Color.bare allowGradient)

def Filter.bare (filter : Filter) : Filter where
  definition := filter.definition.filter Scalar.isSet
  fallbackBackground := Color.bareSlot true filter.fallbackBackground

namespace Backdrop

def isSet : Backdrop → Bool
  | .filter _ => true
  | .plain value => value.isSet

def bare : Backdrop → Backdrop
  | .filter f => .filter f.bare
  | .plain value => .plain value

def bareSlot (slot : Option Backdrop) : Option Backdrop := (slot.filter isSet).map bare

end Backdrop

def ColorProps.bare (props : ColorProps) : ColorProps where
  transitionSpeed := props.transitionSpeed.filter Scalar.isSet
  background := Color.bareSlot true props.background
  border := Color.bareSlot false props.border
  filter := props.filter.filter Scalar.isSet
  backdropFilter := Backdrop.bareSlot props.backdropFilter
  foreground := Color.bareSlot false props.foreground
  icon := props.icon.filter Scalar.isSet
  shadow := props.shadow.filter Scalar.isSet

def Selection.bare (selection : Selection) : Selection where
  foreground := Color.bareSlot false selection.foreground
  background := Color.bareSlot false selection.background

def BorderEdge.bare (edge : BorderEdge) : BorderEdge where
  image := edge.image.filter Scalar.isSet
  style := edge.style.filter Scalar.isSet
  width := edge.width.filter Scalar.isSet

def BorderProps.bare (props : BorderProps) : BorderProps where
  edges := props.edges.bare
  transitionSpeed := props.transitionSpeed.filter Scalar.isSet
  bottom := props.bottom.map BorderEdge.bare
  left := props.left.map BorderEdge.bare
  right := props.right.map BorderEdge.bare
  top := props.top.map BorderEdge.bare
  radius := props.radius.filter Scalar.isSet

def FontProps.bare (props : FontProps) : FontProps where
  transitionSpeed := props.transitionSpeed.filter Scalar.isSet
  family := props.family.filter Scalar.isSet
  letterSpacing := props.letterSpacing.filter Scalar.isSet
  lineHeight := props.lineHeight.filter Scalar.isSet
  size := props.size.filter Scalar.isSet
  style := props.style.filter Scalar.isSet
  weight := props.weight.filter Scalar.isSet
  transform := props.transform.filter Scalar.isSet

def SetKind.bare : (kind : SetKind) → kind.Props → kind.Props
  | .color, props => ColorProps.bare props
  | .border, props => BorderProps.bare props
  | .font, props => FontProps.bare props

def States.map {α : Type} (f : α → α) (states : States α) : States α :=
  fun state => (states state).map f

def StyleSet.bare {kind : SetKind} (set : StyleSet kind) : StyleSet kind where
  parent := set.parent
  base := kind.bare set.base
  states := States.map kind.bare set.states
  selection := set.selection.map Selection.bare

namespace Source

variable {α : Type}

mutual

def mapInline (f : α → α) : Source α → Source α
  | .reference text => .reference text
  | .list items => .list (mapInlines f items)
  | .inline definition => .inline (f definition)
termination_by structural source => source

def mapInlines (f : α → α) : List (Source α) → List (Source α)
  | [] => []
  | item :: rest => mapInline f item :: mapInlines f rest
termination_by structural items => items

end

theorem mapInlines_eq_map (f : α → α) (items : List (Source α)) :
    mapInlines f items = items.map (mapInline f) := by
  induction items with
  | nil => rfl
  | cons item rest ih => rw [mapInlines, ih, List.map_cons]

end Source

/-- Only null counts as absent in a pseudo-element. -/
def PseudoElement.bare (element : PseudoElement) : PseudoElement := element.filter (·.2.isSome)

def BoxSlots.bare (slots : BoxSlots) : BoxSlots where
  parent := slots.parent
  borderSet := slots.borderSet.map (Source.mapInline StyleSet.bare)
  colorSet := slots.colorSet.map (Source.mapInline StyleSet.bare)
  fontSet := slots.fontSet.map (Source.mapInline StyleSet.bare)
  padding := slots.padding.filter Scalar.isSet
  height := slots.height.filter Scalar.isSet
  width := slots.width.filter Scalar.isSet
  transform := slots.transform.filter Scalar.isSet
  before := slots.before.map PseudoElement.bare
  after := slots.after.map PseudoElement.bare

namespace Box

mutual

def bareSource : Source Box → Source Box
  | .reference text => .reference text
  | .inline box => .inline (bare box)
  | .list items => .list (bareSources items)
termination_by structural source => source

def bareSources : List (Source Box) → List (Source Box)
  | [] => []
  | item :: rest => bareSource item :: bareSources rest
termination_by structural items => items

def bareSlot : Option (Source Box) → Option (Source Box)
  | none => none
  | some source => some (bareSource source)
termination_by structural slot => slot

def bare : Box → Box
  | .mk slots states => .mk slots.bare fun state => bareSlot (states state)
termination_by structural box => box

end

theorem bareSources_eq_map (items : List (Source Box)) :
    bareSources items = items.map bareSource := by
  induction items with
  | nil => rfl
  | cons item rest ih => rw [bareSources, ih, List.map_cons]

theorem bareSlot_eq_map (slot : Option (Source Box)) : bareSlot slot = slot.map bareSource := by
  cases slot <;> rfl

end Box

namespace Table

variable {α β : Type}

def mapValues (f : α → β) (table : Table α) : Table β := table.map fun e => (e.1, f e.2)

theorem find?_mapValues (f : α → β) (table : Table α) (key : String) :
    (table.mapValues f).find? key = (table.find? key).map f := by
  induction table with
  | nil => rfl
  | cons e rest ih =>
    by_cases h : e.1 = key
    · simp [mapValues, find?, h]
    · simpa [mapValues, find?, h] using ih

end Table

/-- The value behind a part is not kept, since it does not show in the styles. -/
def Part.bare (part : Part) : Part := ⟨.null, Box.bareSource part.source⟩

def Variant.bare (variant : Variant) : Variant where
  theming := variant.theming.map Box.bareSource
  parts := variant.parts.mapValues Part.bare
  defaultProps := variant.defaultProps

def Component.bare (component : Component) : Component where
  parent := component.parent
  default := component.default.map Variant.bare
  variants := component.variants.mapValues Variant.bare

def Sets.bare (sets : Sets) : Sets where
  colorSets := sets.colorSets.mapValues StyleSet.bare
  borderSets := sets.borderSets.mapValues StyleSet.bare
  fontSets := sets.fontSets.mapValues StyleSet.bare
  boxSets := sets.boxSets.mapValues Box.bare

def Theme.bare (theme : Theme) : Theme :=
  { theme with
    sets := theme.sets.bare
    components := theme.components.mapValues Component.bare }

def BoxContext.bare : BoxContext → BoxContext
  | .global => .global
  | .component name => .component name
  | .parts table => .parts (table.mapValues Box.bareSource)

/-! The styles stay the same. -/

section

variable {globals : Globals} {key : String}

theorem declared_filter (slot : Option Scalar) :
    declared globals key (slot.filter Scalar.isSet) = declared globals key slot := by
  simp [declared]

theorem Globals.resolve_empty : globals.resolve "" = .ok "" := by
  have hpieces : pieces "".toList = [] := by simp [pieces]
  rw [resolve, resolveWith, substitute, hpieces]
  rfl

/-- An empty text stands for the same as no text. -/
theorem Globals.resolveScalar_or_empty (globals : Globals) (slot : Option Scalar) :
    (match slot.filter (· ≠ .text "") with
      | some value => globals.resolveScalar value
      | none => .ok "") =
    match slot with
      | some value => globals.resolveScalar value
      | none => .ok "" := by
  cases slot with
  | none => rfl
  | some value =>
    by_cases h : value = .text ""
    · simp [h, Option.filter, resolveScalar, resolve_empty]
    · simp [h, Option.filter]

theorem Globals.resolveColor_bare (allowGradient : Bool) (color : Color) :
    globals.resolveColor allowGradient (color.bare allowGradient) =
      globals.resolveColor allowGradient color := by
  cases color with
  | plain value => rfl
  | gradient gradient =>
    cases allowGradient with
    | true => exact globals.resolveScalar_or_empty gradient.definition
    | false => exact globals.resolveScalar_or_empty gradient.fallbackColor

theorem Color.isSet_bare (allowGradient : Bool) (color : Color) :
    (color.bare allowGradient).isSet = color.isSet := by
  cases color <;> rfl

theorem coloured_bareSlot (allowGradient : Bool) (slot : Option Color) :
    coloured globals key allowGradient (Color.bareSlot allowGradient slot) =
      coloured globals key allowGradient slot := by
  cases slot with
  | none => rfl
  | some color =>
    by_cases h : color.isSet = true
    · simp [coloured, Color.bareSlot, Option.filter, h, Color.isSet_bare,
        Globals.resolveColor_bare]
    · simp [coloured, Color.bareSlot, Option.filter, h]

end

theorem slotStyles_map {α β : Type} {styles : α → Except ThemeError Styles}
    {styles' : β → Except ThemeError Styles} {f : α → β} (h : ∀ a, styles' (f a) = styles a)
    (slot : Option α) : slotStyles styles' (slot.map f) = slotStyles styles slot := by
  cases slot with
  | none => rfl
  | some a => exact h a

namespace Theme

variable (theme : Theme)

theorem globals_bare : theme.bare.globals = theme.globals := rfl

theorem backdropStyles_bareSlot (slot : Option Backdrop) :
    slotStyles theme.bare.backdropStyles (Backdrop.bareSlot slot) =
      slotStyles theme.backdropStyles slot := by
  cases slot with
  | none => rfl
  | some backdrop =>
    cases backdrop with
    | filter filter =>
      have hstyles (theme : Theme) (f : Filter) : theme.backdropStyles (.filter f) = do
          let own ← declared theme.globals "backdropFilter" f.definition
          let fallback ← coloured theme.globals "background" true f.fallbackBackground
          return own ++ blockUnlessEmpty backdropFallback fallback := rfl
      have hslot : Backdrop.bareSlot (some (.filter filter)) = some (.filter filter.bare) := rfl
      rw [hslot, slotStyles, slotStyles, hstyles, hstyles]
      simp only [globals_bare, Filter.bare, declared_filter, coloured_bareSlot]
    | plain value =>
      by_cases h : value.isSet = true
      · simp only [Backdrop.bareSlot, Option.filter, Backdrop.isSet, h]
        rfl
      · cases value with
        | text s =>
          have hs : s = "" := by simpa [Scalar.isSet] using h
          subst hs
          rfl
        | number n => exact absurd rfl h
        | flag b =>
          cases b with
          | true => exact absurd rfl h
          | false => rfl

theorem colorStyles_bare (props : ColorProps) :
    theme.bare.colorStyles props.bare = theme.colorStyles props := by
  simp only [colorStyles, globals_bare, ColorProps.bare, declared_filter, coloured_bareSlot,
    backdropStyles_bareSlot]

theorem selectionStyles_bare (selection : Selection) :
    theme.bare.selectionStyles selection.bare = theme.selectionStyles selection := by
  simp only [selectionStyles, globals_bare, Selection.bare, coloured_bareSlot]

theorem edgeStyles_bare (stem : String) (edge : BorderEdge) :
    theme.bare.edgeStyles stem edge.bare = theme.edgeStyles stem edge := by
  simp only [edgeStyles, globals_bare, BorderEdge.bare, declared_filter]

theorem borderStyles_bare (props : BorderProps) :
    theme.bare.borderStyles props.bare = theme.borderStyles props := by
  have hside (stem : String) := slotStyles_map (theme.edgeStyles_bare stem)
  simp only [borderStyles, globals_bare, BorderProps.bare, declared_filter, edgeStyles_bare, hside]

theorem fontStyles_bare (props : FontProps) :
    theme.bare.fontStyles props.bare = theme.fontStyles props := by
  simp only [fontStyles, globals_bare, FontProps.bare, declared_filter]

theorem propStyles_bare (kind : SetKind) (props : kind.Props) :
    theme.bare.propStyles kind (kind.bare props) = theme.propStyles kind props := by
  cases kind with
  | color => exact theme.colorStyles_bare props
  | border => exact theme.borderStyles_bare props
  | font => exact theme.fontStyles_bare props

theorem stateStyles_bare (kind : SetKind) (state : State) (props : Option kind.Props) :
    theme.bare.stateStyles kind state (props.map kind.bare) =
      theme.stateStyles kind state props := by
  cases props with
  | none => rfl
  | some props => simp only [stateStyles, Option.map_some, propStyles_bare]

variable {kind : SetKind}

theorem ownStyles_bare (set : StyleSet kind) :
    theme.bare.ownStyles set.bare = theme.ownStyles set := by
  simp only [ownStyles, StyleSet.bare, States.map, propStyles_bare, stateStyles_bare,
    slotStyles_map theme.selectionStyles_bare]

theorem inlineSetStyles_bare (refer : String → Except ThemeError Styles) (set : StyleSet kind) :
    theme.bare.inlineSetStyles refer set.bare = theme.inlineSetStyles refer set := by
  simp only [inlineSetStyles, ownStyles_bare]
  rfl

theorem find?_table_bare (kind : SetKind) (name : String) :
    (theme.bare.sets.table kind).find? name =
      ((theme.sets.table kind).find? name).map StyleSet.bare := by
  cases kind <;> exact Table.find?_mapValues _ _ _

theorem namedSetStyles_bare (kind : SetKind) (trail : Trail) (reference : String) :
    theme.bare.namedSetStyles kind trail reference =
      theme.namedSetStyles kind trail reference := by
  fun_induction theme.namedSetStyles kind trail reference
  case case1 reference name label seen => rw [namedSetStyles, if_pos seen]
  case case2 reference name label fresh found =>
    have hfound := theme.find?_table_bare kind name
    rw [found] at hfound
    rw [namedSetStyles_of_not_mem hfound fresh]
  case case3 reference name label fresh set found ih =>
    have hfound := theme.find?_table_bare kind name
    rw [found] at hfound
    rw [namedSetStyles_of_find? hfound, if_neg fresh, inlineSetStyles_bare]
    congr 1
    funext parent
    exact ih parent

mutual

theorem setStyles_bare : (source : Source (StyleSet kind)) →
    theme.bare.setStyles (source.mapInline StyleSet.bare) = theme.setStyles source
  | .reference text => theme.namedSetStyles_bare kind [] text
  | .inline set => by
    have hnamed := funext (theme.namedSetStyles_bare kind [])
    rw [Source.mapInline, setStyles, setStyles, hnamed, inlineSetStyles_bare]
  | .list items => setListStyles_bare [] items
termination_by structural source => source

theorem setListStyles_bare (merged : Styles) : (items : List (Source (StyleSet kind))) →
    theme.bare.setListStyles merged (Source.mapInlines StyleSet.bare items) =
      theme.setListStyles merged items
  | [] => rfl
  | item :: rest => by
    simp only [Source.mapInlines, setListStyles, setStyles_bare item]
    congr 1
    funext styles
    exact setListStyles_bare _ rest
termination_by structural items => items

end

theorem pseudoElementStyles_bare (element : PseudoElement) :
    theme.bare.pseudoElementStyles element.bare = theme.pseudoElementStyles element := by
  unfold pseudoElementStyles PseudoElement.bare
  generalize ([] : Styles) = styles
  induction element generalizing styles with
  | nil => rfl
  | cons entry rest ih =>
    obtain ⟨key, value⟩ := entry
    cases value with
    | none =>
      rw [List.filter_cons_of_neg (by simp), ih]
      rfl
    | some value =>
      rw [List.filter_cons_of_pos rfl, List.foldlM_cons, List.foldlM_cons]
      congr 1
      funext next
      exact ih next

variable (refer : String → Except ThemeError (Option Styles))

theorem plainStyles_bare (slots : BoxSlots) :
    theme.bare.plainStyles refer slots.bare = theme.plainStyles refer slots := by
  have hset {kind : SetKind} := slotStyles_map (@setStyles_bare theme kind)
  have hpseudo (selector : String) := @slotStyles_map PseudoElement PseudoElement
    (fun element => do return [(selector, .block (← theme.pseudoElementStyles element))])
    (fun element => do return [(selector, .block (← theme.bare.pseudoElementStyles element))])
    PseudoElement.bare fun element => by rw [pseudoElementStyles_bare]
  simp only [plainStyles, globals_bare, BoxSlots.bare, declared_filter, hset, hpseudo]

mutual

theorem sourceStyles_bare : (source : Source Box) →
    theme.bare.sourceStyles refer (Box.bareSource source) = theme.sourceStyles refer source
  | .reference _ => rfl
  | .inline box => by rw [Box.bareSource, sourceStyles, sourceStyles, boxStyles_bare box]
  | .list items => by rw [Box.bareSource, sourceStyles, sourceStyles, listStyles_bare [] items]
termination_by structural source => source

theorem listStyles_bare (merged : Styles) : (items : List (Source Box)) →
    theme.bare.listStyles refer merged (Box.bareSources items) =
      theme.listStyles refer merged items
  | [] => rfl
  | item :: rest => by
    simp only [Box.bareSources, listStyles, sourceStyles_bare item]
    congr 1
    funext styles
    exact listStyles_bare _ rest
termination_by structural items => items

theorem boxStateStyles_bare (state : State) : (slot : Option (Source Box)) →
    theme.bare.boxStateStyles refer state (Box.bareSlot slot) =
      theme.boxStateStyles refer state slot
  | none => rfl
  | some source => by simp only [Box.bareSlot, boxStateStyles, sourceStyles_bare source]
termination_by structural slot => slot

theorem boxStyles_bare : (box : Box) →
    theme.bare.boxStyles refer box.bare = theme.boxStyles refer box
  | .mk slots states => by
    have hstate (state : State) := boxStateStyles_bare state (states state)
    simp only [Box.bare, boxStyles, plainStyles_bare, hstate]
termination_by structural box => box

end

theorem boxAt?_bare (context : BoxContext) (node : BoxNode) :
    theme.bare.boxAt? context.bare node = (theme.boxAt? context node).map Box.bareSource := by
  cases node with
  | set name =>
    simp only [boxAt?, bare, Sets.bare, Table.find?_mapValues, Option.map_map]
    rfl
  | part name =>
    cases context with
    | global => rfl
    | component _ => rfl
    | parts parts => exact Table.find?_mapValues _ _ _
  | variant owner name =>
    simp only [boxAt?, bare, Table.find?_mapValues]
    cases theme.components.find? owner with
    | none => rfl
    | some component =>
      simp only [Option.map_some, Option.bind_eq_bind, Option.bind_some, Component.bare,
        Table.find?_mapValues]
      cases component.variants.find? name <;> rfl

theorem boxNode?_bare (context : BoxContext) (name : String) :
    theme.bare.boxNode? context.bare name = theme.boxNode? context name := by
  have hnearby : context.bare.nearby = context.nearby := by cases context <;> rfl
  simp only [boxNode?, hnearby, boxAt?_bare, Option.isSome_map]

theorem namedBoxStyles_bare (context : BoxContext) (trail : Trail) (reference : String) :
    theme.bare.namedBoxStyles context.bare trail reference =
      theme.namedBoxStyles context trail reference := by
  induction trail, reference using namedBoxStyles.induct theme context with
  | case1 trail reference found =>
    have hn := boxTarget?_eq_none_iff.1 found
    rw [namedBoxStyles_of_none hn, namedBoxStyles_of_none ((boxNode?_bare _ _ _).trans hn)]
  | case2 trail reference label source found seen =>
    obtain ⟨node, hn, hs, rfl⟩ := boxTarget?_eq_some_iff.1 found
    have hs' := (theme.boxAt?_bare context node).trans (congrArg (Option.map Box.bareSource) hs)
    rw [namedBoxStyles_of_node hn hs, if_pos seen,
      namedBoxStyles_of_node ((boxNode?_bare _ _ _).trans hn) hs', if_pos seen]
  | case3 trail reference label source found fresh ih =>
    obtain ⟨node, hn, hs, rfl⟩ := boxTarget?_eq_some_iff.1 found
    have hs' := (theme.boxAt?_bare context node).trans (congrArg (Option.map Box.bareSource) hs)
    rw [namedBoxStyles_of_node hn hs, if_neg fresh,
      namedBoxStyles_of_node ((boxNode?_bare _ _ _).trans hn) hs', if_neg fresh, funext ih,
      sourceStyles_bare]

theorem boxCss_bare (context : BoxContext) (source : Source Box) :
    theme.bare.boxCss context.bare (Box.bareSource source) = theme.boxCss context source := by
  rw [boxCss, funext (theme.namedBoxStyles_bare context []), sourceStyles_bare]
  rfl

end Theme

end Theming
