import Theming.Compile.StyleSets
import Theming.Proofs.Css.Merge
import Theming.Proofs.Reading.KeyOrder
import Theming.Proofs.Variables.Substitution

/-! Gradients and backdrop filters among the globals. A color that refers to a gradient is the color
that is read from it, and a filter in the same way. So it makes no difference whether a definition
stands in its place or among the globals, however many aliases lead to it. -/

namespace Theming

open Relation

variable {α ρ : Type}

/-- The entry under one key decides on a part of a record, and the other entries leave it alone. -/
structure Record.Fills (record : Record ρ) (key : String) (read : Reader α)
    (get : ρ → Option α) : Prop where
  blank : get record.blank = none
  own : ∀ result value next, record.readEntry result (key, value) = .ok next →
    read.optional value = .ok (get next)
  others : ∀ result entry next, entry.1 ≠ key → record.readEntry result entry = .ok next →
    get next = get result

namespace Record.Fills

variable {record : Record ρ} {key : String} {read : Reader α} {get : ρ → Option α}
  {entries : List (String × Value)} {before result : ρ}

theorem foldlM (h : record.Fills key read get) (distinct : Table.Distinct entries)
    (hr : entries.foldlM record.readEntry before = .ok result) :
    (Table.find? entries key).elim (get result = get before) fun value =>
      read.optional value = .ok (get result) := by
  induction entries generalizing before with
  | nil =>
    cases hr
    rfl
  | cons e rest ih =>
    obtain ⟨k, value⟩ := e
    have hd : k ∉ Table.keys rest ∧ Table.Distinct rest := List.nodup_cons.1 distinct
    obtain ⟨next, hn, hr⟩ := bind_eq_ok_iff.1 (List.foldlM_cons.symm.trans hr)
    have hrest := ih hd.2 hr
    by_cases hk : k = key
    · subst hk
      rw [Table.find?_eq_none_iff.2 hd.1] at hrest
      have hkept : get result = get next := hrest
      simpa [Table.find?, hkept] using h.own before value next hn
    · have hkept : get next = get before := h.others before (k, value) next hk hn
      simpa [Table.find?, hk, hkept] using hrest

theorem readEntries (h : record.Fills key read get) (distinct : Table.Distinct entries)
    (hr : record.readEntries entries = .ok result) :
    (Table.find? entries key).elim (get result = none) fun value =>
      read.optional value = .ok (get result) := by
  rw [Record.readEntries_eq] at hr
  have hall := h.foldlM distinct hr
  rwa [h.blank] at hall

end Record.Fills

def Field.Leaves (field : Field ρ) (get : ρ → Option α) : Prop :=
  ∀ value before after, field.read value before = .ok after → get after = get before

theorem Field.leaves_optional {β : Type} {key : String} {read : Reader β} {set : ρ → Option β → ρ}
    {get : ρ → Option α} (h : ∀ before x, get (set before x) = get before) :
    (Field.optional key read set).Leaves get := by
  intro value before after hr
  obtain ⟨x, -, rfl⟩ := map_eq_ok_iff.1 hr
  exact h before x

theorem Record.fills_of_field {record : Record ρ} {key : String} {read : Reader α}
    {set : ρ → Option α → ρ} {get : ρ → Option α} (blank : get record.blank = none)
    (field : record.fields.find? (fun field => field.key == key) = some (.optional key read set))
    (sets : ∀ before x, get (set before x) = x)
    (leaves : ∀ field ∈ record.fields, field.key ≠ key → field.Leaves get) :
    record.Fills key read get where
  blank := blank
  own before value after h := by
    rw [readEntry, field] at h
    obtain ⟨x, hx, rfl⟩ := map_eq_ok_iff.1 h
    rwa [sets]
  others before entry after hne h := by
    obtain ⟨key', value⟩ := entry
    rcases record.readEntry_cases key' with ⟨field, hf, rfl, hk⟩ | hk
    · rw [hk] at h
      exact leaves field hf hne value before after h
    · rw [hk] at h
      cases h
      rfl

def Gradient.slot (allowGradient : Bool) (gradient : Gradient) : Option Scalar :=
  if allowGradient then gradient.definition else gradient.fallbackColor

theorem Gradient.fills_slot (allowGradient : Bool) : Gradient.record.Fills
    (Globals.gradientKey allowGradient) Scalar.read (Gradient.slot allowGradient) := by
  cases allowGradient with
  | true =>
    refine Record.fills_of_field rfl rfl (fun _ _ => rfl) ?_
    simp only [Gradient.record, List.forall_mem_cons]
    exact ⟨fun hne => absurd rfl hne, fun _ => Field.leaves_optional fun _ _ => rfl,
      List.forall_mem_nil _⟩
  | false =>
    refine Record.fills_of_field rfl rfl (fun _ _ => rfl) ?_
    simp only [Gradient.record, List.forall_mem_cons]
    exact ⟨fun _ => Field.leaves_optional fun _ _ => rfl, fun hne => absurd rfl hne,
      List.forall_mem_nil _⟩

namespace Globals

variable {globals : Globals} {path last text : String} {entries : List (String × Value)}

theorem resolveScalar_of_optional {value : Value} {slot : Option Scalar}
    (read : Reader.optional Scalar.read value = .ok slot) :
    (match slot with
      | some scalar => globals.resolveScalar scalar
      | none => .ok "") =
    match value with
      | .text text => globals.resolve text
      | other => .ok other.scalarText := by
  cases value with
  | list items => cases read
  | object entries => cases read
  | _ =>
    cases read
    rfl

theorem resolveColor_slot (gradient : Gradient) (allowGradient : Bool) :
    globals.resolveColor allowGradient (.gradient gradient) =
      match gradient.slot allowGradient with
      | some scalar => globals.resolveScalar scalar
      | none => .ok "" := rfl

/-- What a gradient gives is the same whether it has been read or is looked up. -/
theorem resolveColor_gradient {gradient : Gradient} (distinct : Table.Distinct entries)
    (read : Gradient.record.readEntries entries = .ok gradient) (allowGradient : Bool) :
    globals.resolveColor allowGradient (.gradient gradient) =
      globals.colorHook allowGradient (.object entries) := by
  have hslot := (Gradient.fills_slot allowGradient).readEntries distinct read
  rw [resolveColor_slot, colorHook]
  cases found : Table.find? entries (gradientKey allowGradient) with
  | none =>
    rw [found] at hslot
    have hnone : gradient.slot allowGradient = none := hslot
    rw [hnone]
  | some value =>
    rw [found] at hslot
    rw [resolveScalar_of_optional hslot]
    cases value <;> rfl

theorem exists_of_read_color {color : Color} (read : Color.read (.object entries) = .ok color) :
    ∃ gradient, Gradient.record.readEntries entries = .ok gradient ∧
      color = .gradient gradient := by
  obtain ⟨gradient, hg, rfl⟩ := map_eq_ok_iff.1 (mapError_eq_ok_iff.1 read)
  exact ⟨gradient, hg, rfl⟩

theorem resolveColor_referenced (hp : IsPath path)
    (aliases : ReflTransGen globals.AliasOf path last)
    (found : Value.at? globals last = some (.object entries)) (distinct : Table.Distinct entries)
    {color : Color} (read : Color.read (.object entries) = .ok color) (allowGradient : Bool) :
    globals.resolveColor allowGradient (.plain (.text ("$$" ++ path))) =
      globals.resolveColor allowGradient color := by
  obtain ⟨gradient, hg, rfl⟩ := exists_of_read_color read
  have hlookup := lookupFrom_of_aliased_object aliases found
  rw [resolveColor_gradient distinct hg, resolveColor, resolveWith_bare hp, hlookup]
  rfl

theorem pathOf_bare (hp : IsPath path) : pathOf ("$$" ++ path).toList = path.toList := by
  have htext : ("$$" ++ path).toList = '$' :: '$' :: path.toList := String.toList_append
  have hlast : path.toList.getLast? ≠ some '|' := fun hl =>
    absurd (hp '|' (List.mem_of_getLast? hl)) (by decide)
  rw [htext, pathOf, if_neg hlast]

theorem lookup_bare (hp : IsPath path) :
    globals.lookup ("$$" ++ path) = globals.lookupFrom [] path := by
  rw [lookup, pathOf_bare hp, String.ofList_toList]

end Globals

def ColorProps.withFilter (props : ColorProps) (reference : String) (filter : Backdrop) :
    ColorProps :=
  { props with
    backdropFilter := props.backdropFilter.map fun backdrop =>
      if backdrop = .plain (.text reference) then filter else backdrop }

/-- The set with a filter in the place of the references to it, in the plain state and in all
others. -/
def StyleSet.withFilter (set : StyleSet .color) (reference : String) (filter : Backdrop) :
    StyleSet .color :=
  { set with
    base := ColorProps.withFilter set.base reference filter
    states := fun state => (set.states state).map fun props =>
      ColorProps.withFilter props reference filter }

namespace Theme

variable {theme : Theme} {path last reference : String} {entries : List (String × Value)}
  {backdrop : Backdrop}

theorem backdropFilter_referenced (hp : IsPath path)
    (aliases : ReflTransGen (Globals.AliasOf theme.globals) path last)
    (found : Value.at? theme.globals last = some (.object entries))
    (read : Backdrop.read (.object entries) = .ok backdrop) :
    theme.backdropFilter (.plain (.text ("$$" ++ path))) = theme.backdropFilter backdrop := by
  obtain ⟨filter, hf, rfl⟩ := map_eq_ok_iff.1 (mapError_eq_ok_iff.1 read)
  have hread : Filter.record.readEntries entries = .ok filter := hf
  have hmark : ("$$" ++ path).toList.take 2 = ['$', '$'] := by simp
  have hlookup : Globals.lookup theme.globals ("$$" ++ path) = .ok (some (.object entries)) := by
    rw [Globals.lookup_bare hp, Globals.lookupFrom_of_aliased_object aliases found]
  simp only [backdropFilter, if_pos hmark, hlookup]
  change (Filter.record.readEntries entries).mapError _ = _
  rw [hread]
  rfl

theorem ownStyles_withFilter (h : theme.backdropStyles (.plain (.text reference)) =
      theme.backdropStyles backdrop) (set : StyleSet .color) :
    theme.ownStyles (set.withFilter reference backdrop) = theme.ownStyles set := by
  have hslot (slot : Option Backdrop) :
      slotStyles theme.backdropStyles (slot.map fun other =>
        if other = .plain (.text reference) then backdrop else other) =
        slotStyles theme.backdropStyles slot := by
    cases slot with
    | none => rfl
    | some other =>
      by_cases he : other = .plain (.text reference)
      · subst he
        simpa only [Option.map_some, if_pos, slotStyles] using h.symm
      · simp only [Option.map_some, if_neg he]
  have hprops (props : ColorProps) :
      theme.propStyles .color (props.withFilter reference backdrop) =
        theme.propStyles .color props := by
    simp only [propStyles, colorStyles, ColorProps.withFilter, hslot]
  have hstate (state : State) :
      theme.stateStyles .color state ((set.withFilter reference backdrop).states state) =
        theme.stateStyles .color state (set.states state) := by
    cases hs : set.states state with
    | none => simp only [StyleSet.withFilter, hs, Option.map_none]
    | some props =>
      simp only [StyleSet.withFilter, hs, Option.map_some, stateStyles, hprops]
  have hbase : theme.propStyles .color (set.withFilter reference backdrop).base =
      theme.propStyles .color set.base := hprops set.base
  simp only [ownStyles, hbase, hstate]
  rfl

theorem setStyles_withFilter (h : theme.backdropStyles (.plain (.text reference)) =
      theme.backdropStyles backdrop) (set : StyleSet .color) :
    theme.setStyles (.inline set) =
      theme.setStyles (.inline (set.withFilter reference backdrop)) := by
  rw [setStyles, setStyles, inlineSetStyles, inlineSetStyles, ownStyles_withFilter h]
  rfl

/-- A gradient or a filter gives the same where it stands inline and where a path leads to it among
the globals. -/
theorem definitions_referenced_or_inline (hp : IsPath path)
    (aliases : ReflTransGen (Globals.AliasOf theme.globals) path last)
    (found : Value.at? theme.globals last = some (.object entries))
    (distinct : Table.Distinct entries) :
    (∀ color allowGradient, Color.read (.object entries) = .ok color →
      Globals.resolveColor theme.globals allowGradient (.plain (.text ("$$" ++ path))) =
        Globals.resolveColor theme.globals allowGradient color) ∧
    ∀ filter, Backdrop.read (.object entries) = .ok filter → ∀ set : StyleSet .color,
      theme.setStyles (.inline set) =
        theme.setStyles (.inline (set.withFilter ("$$" ++ path) filter)) := by
  refine ⟨fun color allowGradient read =>
    Globals.resolveColor_referenced hp aliases found distinct read allowGradient,
    fun filter read set => ?_⟩
  have hfilter : theme.backdropStyles (.plain (.text ("$$" ++ path))) =
      theme.backdropStyles filter := by
    rw [backdropStyles, backdropFilter_referenced hp aliases found read]
    rfl
  exact setStyles_withFilter hfilter set

def skyEntries : List (String × Value) :=
  [("definition", .text "linear-gradient($$tone, white)"), ("fallbackColor", .number (.integer 7)),
    ("fallbackBackground", .null)]

def skyTheme : Theme := { Theme.record.blank with
  globals := .object
    [("tone", .text "#12f"), ("sky", .object skyEntries), ("dawn", .text "$$sky|")] }

def skySet (filter : Backdrop) : StyleSet .color :=
  ⟨none, { ColorProps.record.blank with backdropFilter := some filter }, fun _ => none, none⟩

theorem dawn_is_sky :
    IsPath "dawn" ∧ ReflTransGen (Globals.AliasOf skyTheme.globals) "dawn" "sky" ∧
      Value.at? skyTheme.globals "sky" = some (.object skyEntries) ∧ Table.Distinct skyEntries ∧
      ∃ color filter, Color.read (.object skyEntries) = .ok color ∧
        Backdrop.read (.object skyEntries) = .ok filter ∧
        (Globals.resolveColor skyTheme.globals true (.plain (.text ("$$" ++ "dawn")))).toOption =
          some "linear-gradient(#12f, white)" ∧
        (Globals.resolveColor skyTheme.globals false (.plain (.text ("$$" ++ "dawn")))).toOption =
          some "7" ∧
        skyTheme.setStyles (.inline (skySet (.plain (.text ("$$" ++ "dawn"))))) =
          skyTheme.setStyles (.inline (skySet filter)) ∧
        (skyTheme.setStyles (.inline (skySet filter))).toOption.bind
          (Styles.textAt? · ["backdropFilter"]) = some "linear-gradient(#12f, white)" := by
  have hpath : IsPath "dawn" := by decide +kernel
  have halias : Globals.AliasOf skyTheme.globals "dawn" "sky" := ⟨"$$sky|", rfl, by decide +kernel⟩
  have distinct : Table.Distinct skyEntries := by simp [Table.Distinct, Table.keys, skyEntries]
  obtain ⟨hcolor, hfilter⟩ :=
    @definitions_referenced_or_inline skyTheme _ _ _ hpath (.single halias) rfl distinct
  refine ⟨hpath, .single halias, rfl, distinct, _, _, rfl, rfl, ?_, ?_, hfilter _ rfl _, ?_⟩
  · rw [hcolor _ true rfl]
    decide +kernel
  · rw [hcolor _ false rfl]
    decide +kernel
  · decide +kernel

end Theme

end Theming
