import Theming.Proofs.Reading.Boxes

/-! The shapes that the places of a configuration ask for, and which values have them. A value in
which lists stand in their place has the shape of its place exactly if it can be read there. -/

namespace Theming

/-- Records by what they describe. -/
inductive RecordKind where
  | gradient
  | filter
  | selection
  | edge
  | props (kind : SetKind)
  | set (kind : SetKind)
  | box
  | variant
  | component
  | sets
  | assets
  | theme
  deriving DecidableEq, Repr

inductive Shape where
  /-- Not looked at any further. -/
  | free
  | text
  | scalar
  | color
  | backdrop
  | optional (shape : Shape)
  | table (entry : Shape)
  /-- A reference, a list of sources, or a definition. -/
  | source (inline : Shape)
  | record (kind : RecordKind)
  deriving DecidableEq, Repr

namespace RecordKind

def edgeFields : List (String × Shape) :=
  [("image", .optional .scalar), ("style", .optional .scalar), ("width", .optional .scalar)]

def propFields : SetKind → List (String × Shape)
  | .color => [
    ("transitionSpeed", .optional .scalar), ("background", .optional .color),
    ("border", .optional .color), ("filter", .optional .scalar),
    ("backdropFilter", .optional .backdrop), ("foreground", .optional .color),
    ("icon", .optional .scalar), ("shadow", .optional .scalar)]
  | .border => edgeFields ++ [
    ("transitionSpeed", .optional .scalar), ("bottom", .optional (.record edge)),
    ("left", .optional (.record edge)), ("right", .optional (.record edge)),
    ("top", .optional (.record edge)), ("radius", .optional .scalar)]
  | .font => [
    ("transitionSpeed", .optional .scalar), ("family", .optional .scalar),
    ("letterSpacing", .optional .scalar), ("lineHeight", .optional .scalar),
    ("size", .optional .scalar), ("style", .optional .scalar), ("weight", .optional .scalar),
    ("transform", .optional .scalar)]

def headFields : SetKind → List (String × Shape)
  | .color => [("__extends", .optional .text), ("__selection", .optional (.record selection))]
  | .border | .font => [("__extends", .optional .text)]

def stateFields (shape : Shape) : List (String × Shape) :=
  State.setOrder.map fun state => (state.key, .optional shape)

def slotFields : List (String × Shape) := [
  ("__extends", .optional .text), ("borderSet", .optional (.source (.record (set .border)))),
  ("colorSet", .optional (.source (.record (set .color)))),
  ("fontSet", .optional (.source (.record (set .font)))), ("padding", .optional .scalar),
  ("height", .optional .scalar), ("width", .optional .scalar), ("transform", .optional .scalar),
  ("before", .optional (.table (.optional .scalar))),
  ("after", .optional (.table (.optional .scalar)))]

/-- The keys that are looked at, with the shapes of their values. -/
def fields : RecordKind → List (String × Shape)
  | gradient => [("definition", .optional .scalar), ("fallbackColor", .optional .scalar)]
  | filter => [("definition", .optional .scalar), ("fallbackBackground", .optional .color)]
  | selection => [("foreground", .optional .color), ("background", .optional .color)]
  | edge => edgeFields
  | props kind => propFields kind
  | set kind => headFields kind ++ propFields kind ++ stateFields (.record (props kind))
  | box => slotFields ++ stateFields (.source (.record box))
  | variant => [
    ("theming", .optional (.source (.record box))),
    ("parts", .optional (.table (.source (.record box)))), ("defaultProps", .free)]
  | component => [
    ("__extends", .optional .text), ("default", .optional (.record variant)),
    ("variants", .optional (.table (.record variant)))]
  | sets => [
    ("colorSets", .optional (.table (.record (set .color)))),
    ("borderSets", .optional (.table (.record (set .border)))),
    ("fontSets", .optional (.table (.record (set .font)))),
    ("boxSets", .optional (.table (.record box)))]
  | assets => [("baseUrl", .optional .text)]
  | theme => [
    ("name", .text), ("version", .scalar), ("basedOn", .optional .text), ("globals", .free),
    ("sets", .optional (.record sets)), ("components", .optional (.table (.record component))),
    ("meta", .free), ("assets", .optional (.record assets))]

/-- The shape under a key. What stands under unknown keys is not looked at. -/
def under (kind : RecordKind) (key : String) : Shape :=
  (Table.find? kind.fields key).getD .free

end RecordKind

namespace Shape

/-- Does the shape allow values of this type at all? -/
def takes : Shape → Value → Bool
  | free, _ => true
  | optional _, .null => true
  | optional shape, value => shape.takes value
  | text, .text _ => true
  | scalar, .text _ | scalar, .number _ | scalar, .flag _ => true
  | color, .text _ | color, .number _ | color, .flag _ | color, .object _ => true
  | backdrop, .text _ | backdrop, .number _ | backdrop, .flag _ | backdrop, .object _ => true
  | source _, .text _ | source _, .list _ | source _, .object _ => true
  | table _, .object _ | record _, .object _ => true
  | _, _ => false

def item : Shape → Shape
  | optional shape => shape.item
  | shape => shape

def under : Shape → String → Shape
  | free, _ | text, _ | scalar, _ => free
  | color, key => RecordKind.gradient.under key
  | backdrop, key => RecordKind.filter.under key
  | optional shape, key | source shape, key => shape.under key
  | table entry, _ => entry
  | record kind, key => kind.under key

mutual

/-- Lists stand only where lists of sources are read, and inside what is not looked at. -/
def ListsInPlace (shape : Shape) : Value → Prop
  | .list items => shape.takes (.list items) = true ∧ shape.item.ListsInPlaceInItems items
  | .object entries => shape.ListsInPlaceInEntries entries
  | .null | .flag _ | .number _ | .text _ => True
termination_by structural value => value

def ListsInPlaceInItems (shape : Shape) : List Value → Prop
  | [] => True
  | item :: rest => shape.ListsInPlace item ∧ shape.ListsInPlaceInItems rest
termination_by structural items => items

def ListsInPlaceInEntries (shape : Shape) : List (String × Value) → Prop
  | [] => True
  | (key, value) :: rest => (shape.under key).ListsInPlace value ∧ shape.ListsInPlaceInEntries rest
termination_by structural entries => entries

/-- The value and all that is looked at in it are of types that the shape allows. -/
def Fits (shape : Shape) : Value → Prop
  | .list items => shape.takes (.list items) = true ∧ shape.item.FitsItems items
  | .object entries => shape.takes (.object entries) = true ∧ shape.FitsEntries entries
  | .null => shape.takes .null = true
  | .flag b => shape.takes (.flag b) = true
  | .number n => shape.takes (.number n) = true
  | .text s => shape.takes (.text s) = true
termination_by structural value => value

def FitsItems (shape : Shape) : List Value → Prop
  | [] => True
  | item :: rest => shape.Fits item ∧ shape.FitsItems rest
termination_by structural items => items

def FitsEntries (shape : Shape) : List (String × Value) → Prop
  | [] => True
  | (key, value) :: rest => (shape.under key).Fits value ∧ shape.FitsEntries rest
termination_by structural entries => entries

end

end Shape

/-- Induction over the items of lists and the entries of objects. -/
theorem Value.inside_induct {P : Value → Prop} (null : P .null) (flag : ∀ b, P (.flag b))
    (number : ∀ n, P (.number n)) (text : ∀ s, P (.text s))
    (list : ∀ items, (∀ item ∈ items, P item) → P (.list items))
    (object : ∀ entries, (∀ e ∈ entries, P e.2) → P (.object entries)) (value : Value) : P value :=
  @Value.rec P (fun items => ∀ item ∈ items, P item) (fun entries => ∀ e ∈ entries, P e.2)
    (fun e => P e.2) null flag number text list object (List.forall_mem_nil _)
    (fun _ _ first rest => List.forall_mem_cons.2 ⟨first, rest⟩) (List.forall_mem_nil _)
    (fun _ _ first rest => List.forall_mem_cons.2 ⟨first, rest⟩) (fun _ _ value => value) value

namespace Shape

theorem fitsItems_iff {shape : Shape} {items : List Value} :
    shape.FitsItems items ↔ ∀ item ∈ items, shape.Fits item := by
  induction items with
  | nil => simp [FitsItems]
  | cons item rest ih => simp [FitsItems, ih]

theorem fitsEntries_iff {shape : Shape} {entries : List (String × Value)} :
    shape.FitsEntries entries ↔ ∀ e ∈ entries, (shape.under e.1).Fits e.2 := by
  induction entries with
  | nil => simp [FitsEntries]
  | cons e rest ih => simp [FitsEntries, ih]

theorem listsInPlaceInItems_iff {shape : Shape} {items : List Value} :
    shape.ListsInPlaceInItems items ↔ ∀ item ∈ items, shape.ListsInPlace item := by
  induction items with
  | nil => simp [ListsInPlaceInItems]
  | cons item rest ih => simp [ListsInPlaceInItems, ih]

theorem listsInPlaceInEntries_iff {shape : Shape} {entries : List (String × Value)} :
    shape.ListsInPlaceInEntries entries ↔
      ∀ e ∈ entries, (shape.under e.1).ListsInPlace e.2 := by
  induction entries with
  | nil => simp [ListsInPlaceInEntries]
  | cons e rest ih => simp [ListsInPlaceInEntries, ih]

theorem fits_list_iff {shape : Shape} {items : List Value} : shape.Fits (.list items) ↔
    shape.takes (.list items) = true ∧ ∀ item ∈ items, shape.item.Fits item := by
  rw [Fits, fitsItems_iff]

theorem fits_object_iff {shape : Shape} {entries : List (String × Value)} :
    shape.Fits (.object entries) ↔ shape.takes (.object entries) = true ∧
      ∀ e ∈ entries, (shape.under e.1).Fits e.2 := by
  rw [Fits, fitsEntries_iff]

theorem fits_object_iff_of_takes {shape : Shape} {entries : List (String × Value)}
    (h : shape.takes (.object entries) = true) :
    shape.Fits (.object entries) ↔ ∀ e ∈ entries, (shape.under e.1).Fits e.2 :=
  fits_object_iff.trans (and_iff_right h)

theorem listsInPlace_list_iff {shape : Shape} {items : List Value} :
    shape.ListsInPlace (.list items) ↔
      shape.takes (.list items) = true ∧ ∀ item ∈ items, shape.item.ListsInPlace item := by
  rw [ListsInPlace, listsInPlaceInItems_iff]

theorem listsInPlace_object_iff {shape : Shape} {entries : List (String × Value)} :
    shape.ListsInPlace (.object entries) ↔
      ∀ e ∈ entries, (shape.under e.1).ListsInPlace e.2 := by
  rw [ListsInPlace, listsInPlaceInEntries_iff]

mutual

def decideListsInPlace (shape : Shape) : (value : Value) → Decidable (shape.ListsInPlace value)
  | .list items => @instDecidableAnd (shape.takes (.list items) = true)
      (shape.item.ListsInPlaceInItems items) _ (shape.item.decideListsInPlaceInItems items)
  | .object entries => shape.decideListsInPlaceInEntries entries
  | .null | .flag _ | .number _ | .text _ => isTrue trivial
termination_by structural value => value

def decideListsInPlaceInItems (shape : Shape) :
    (items : List Value) → Decidable (shape.ListsInPlaceInItems items)
  | [] => isTrue trivial
  | item :: rest => @instDecidableAnd (shape.ListsInPlace item) (shape.ListsInPlaceInItems rest)
      (shape.decideListsInPlace item) (shape.decideListsInPlaceInItems rest)
termination_by structural items => items

def decideListsInPlaceInEntries (shape : Shape) :
    (entries : List (String × Value)) → Decidable (shape.ListsInPlaceInEntries entries)
  | [] => isTrue trivial
  | (key, value) :: rest => @instDecidableAnd ((shape.under key).ListsInPlace value)
      (shape.ListsInPlaceInEntries rest) ((shape.under key).decideListsInPlace value)
      (shape.decideListsInPlaceInEntries rest)
termination_by structural entries => entries

end

instance (shape : Shape) (value : Value) : Decidable (shape.ListsInPlace value) :=
  shape.decideListsInPlace value

theorem Fits.listsInPlace {shape : Shape} {value : Value} (h : shape.Fits value) :
    shape.ListsInPlace value := by
  induction value using Value.inside_induct generalizing shape with
  | list items ih =>
    obtain ⟨htakes, hitems⟩ := fits_list_iff.1 h
    exact listsInPlace_list_iff.2 ⟨htakes, fun item hi => ih item hi (hitems item hi)⟩
  | object entries ih =>
    obtain ⟨-, hentries⟩ := fits_object_iff.1 h
    exact listsInPlace_object_iff.2 fun e he => ih e he (hentries e he)
  | _ => trivial

theorem fits_free (value : Value) : free.Fits value := by
  induction value using Value.inside_induct with
  | list items ih => exact fits_list_iff.2 ⟨rfl, ih⟩
  | object entries ih => exact fits_object_iff.2 ⟨rfl, ih⟩
  | _ => rfl

theorem fits_optional_iff {shape : Shape} {value : Value} (h : value ≠ .null) :
    (optional shape).Fits value ↔ shape.Fits value := by
  cases value with
  | null => exact absurd rfl h
  | list items => exact fits_list_iff.trans fits_list_iff.symm
  | object entries =>
    rw [fits_object_iff, fits_object_iff]
    exact Iff.rfl
  | _ => exact Iff.rfl

theorem listsInPlace_optional_iff {shape : Shape} {value : Value} :
    (optional shape).ListsInPlace value ↔ shape.ListsInPlace value := by
  cases value with
  | list items => exact listsInPlace_list_iff.trans listsInPlace_list_iff.symm
  | object entries =>
    rw [listsInPlace_object_iff, listsInPlace_object_iff]
    exact Iff.rfl
  | _ => exact Iff.rfl

end Shape

end Theming
