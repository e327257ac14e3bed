import Theming.Compile.StyleSets

/-! The styles of boxes. A reference leads to a box set, or to something near the box that the
context knows. -/

namespace Theming

inductive BoxContext where
  | global
  /-- The variants of a component. -/
  | component (name : String)
  /-- The parts of a variant. -/
  | parts (parts : Table (Source Box))

namespace Theme

/-- The declarations of a pseudo-element. Its content is put in quotes as it is. -/
def pseudoElementStyles (theme : Theme) (element : PseudoElement) : Except ThemeError Styles :=
  element.foldlM (fun styles (key, value) =>
    match value with
    | none => pure styles
    | some value => do
      if key = "content" then return styles.put key (.declaration ("\"" ++ value.toText ++ "\""))
      else
        let key := if key = "transitionSpeed" then "transitionDuration" else key
        return styles.put key (.declaration (← Globals.resolveScalar theme.globals value))) []

def plainStyles (theme : Theme) (refer : String → Except ThemeError (Option Styles))
    (slots : BoxSlots) : Except ThemeError (List Styles) := do
  let globals := theme.globals
  let pseudo (selector : String) (element : PseudoElement) : Except ThemeError Styles := do
    return [(selector, .block (← theme.pseudoElementStyles element))]
  let inherited ← slotStyles (fun parent => return (← refer parent).getD []) slots.parent
  let transform ← declared globals "transform" slots.transform
  let hint := if transform.isEmpty then [] else [("will-change", .declaration "transform")]
  let border ← slotStyles theme.setStyles slots.borderSet
  let color ← slotStyles theme.setStyles slots.colorSet
  let padding ← declared globals "padding" slots.padding
  let font ← slotStyles theme.setStyles slots.fontSet
  let height ← declared globals "height" slots.height
  let width ← declared globals "width" slots.width
  let before ← slotStyles (pseudo "&::before") slots.before
  let after ← slotStyles (pseudo "&::after") slots.after
  return [inherited, transform ++ hint, border, color, padding, font, height, width, before, after]

mutual

/-- The styles of a source of boxes, or nothing if it is a reference that leads nowhere. -/
def sourceStyles (theme : Theme) (refer : String → Except ThemeError (Option Styles)) :
    Source Box → Except ThemeError (Option Styles)
  | .reference text => refer text
  | .inline box => do return some (← boxStyles theme refer box)
  | .list items => do return some (← listStyles theme refer [] items).sorted
termination_by structural source => source

def listStyles (theme : Theme) (refer : String → Except ThemeError (Option Styles))
    (merged : Styles) : List (Source Box) → Except ThemeError Styles
  | [] => .ok merged
  | item :: rest => do
    let styles ← sourceStyles theme refer item
    listStyles theme refer (Styles.merge merged (styles.getD [])) rest
termination_by structural items => items

def boxStateStyles (theme : Theme) (refer : String → Except ThemeError (Option Styles))
    (state : State) : Option (Source Box) → Except ThemeError (List Styles)
  | none => .ok []
  | some source => do
    let inner ← sourceStyles theme refer source
    return [[(state.selector, .block (inner.getD []))]]
termination_by structural slot => slot

/-- The styles of a box. The blocks of its states stand in front of the styles of the plain
state, the last one first. -/
def boxStyles (theme : Theme) (refer : String → Except ThemeError (Option Styles)) :
    Box → Except ThemeError Styles
  | .mk slots states => do
    let plain ← theme.plainStyles refer slots
    let all ← State.boxOrder.foldlM (fun styles state => do
      return (← boxStateStyles theme refer state (states state)) ++ styles) plain
    return (Styles.mergeAll all).sorted
termination_by structural box => box

end

/-- What a name stands for in a context, with its label in the trail of references. -/
def boxTarget? (theme : Theme) (context : BoxContext) (name : String) :
    Option (String × Source Box) :=
  match theme.sets.boxSets.find? name with
  | some box => some ("boxSets." ++ name, .inline box)
  | none =>
    match context with
    | .global => none
    | .parts parts => (parts.find? name).map ("parts." ++ name, ·)
    | .component component => do
      let variants := (← theme.components.find? component).variants
      let source ← (← variants.find? name).theming
      return (component ++ ".variants." ++ name, source)

def boxLabels (theme : Theme) (context : BoxContext) : List String :=
  theme.sets.boxSets.keys.map ("boxSets." ++ ·) ++
    match context with
    | .global => []
    | .parts parts => parts.keys.map ("parts." ++ ·)
    | .component component =>
      ((theme.components.find? component).elim [] fun c => c.variants.keys).map
        (component ++ ".variants." ++ ·)

theorem mem_boxLabels_of_boxTarget? {theme : Theme} {context : BoxContext} {name label : String}
    {source : Source Box} (h : theme.boxTarget? context name = some (label, source)) :
    label ∈ theme.boxLabels context := by
  unfold boxTarget? at h
  unfold boxLabels
  split at h
  · next box hb =>
    cases h
    exact List.mem_append_left _ (List.mem_map_of_mem (Table.mem_keys_of_find? hb))
  · refine List.mem_append_right _ ?_
    split at h
    · simp at h
    · next parts =>
      obtain ⟨found, hf, he⟩ := Option.map_eq_some_iff.1 h
      cases he
      exact List.mem_map_of_mem (Table.mem_keys_of_find? hf)
    · next component =>
      obtain ⟨c, hc, h⟩ := Option.bind_eq_some_iff.1 h
      obtain ⟨variant, hv, h⟩ := Option.bind_eq_some_iff.1 h
      obtain ⟨found, _, he⟩ := Option.bind_eq_some_iff.1 h
      cases he
      simp only [hc, Option.elim_some]
      exact List.mem_map_of_mem (Table.mem_keys_of_find? hv)

def namedBoxStyles (theme : Theme) (context : BoxContext) (trail : Trail) (reference : String) :
    Except ThemeError (Option Styles) :=
  match _found : theme.boxTarget? context (referenceName reference) with
  | none => .ok none
  | some (label, source) =>
    if label ∈ trail then .error (.cycle .boxes (trail ++ [label]))
    else
      theme.sourceStyles (fun next => theme.namedBoxStyles context (trail ++ [label]) next) source
termination_by Trail.unmet (theme.boxLabels context) trail
decreasing_by
  next seen => exact Trail.unmet_append_lt (mem_boxLabels_of_boxTarget? _found) seen

def boxCss (theme : Theme) (context : BoxContext) (source : Source Box) :
    Except ThemeError (Option Styles) :=
  theme.sourceStyles (theme.namedBoxStyles context []) source

end Theme

end Theming
