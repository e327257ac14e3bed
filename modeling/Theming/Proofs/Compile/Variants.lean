import Theming.Proofs.Compile.History
import Theming.Proofs.Compile.Layering
import Theming.Proofs.Compile.Yields
import Theming.Proofs.Reading.Proper

/-! The variants that a component declares. Each of them is compiled with the parts of the default
variant below its own ones, and is left out exactly if it has no box. -/

namespace Theming

theorem Table.find?_map {α β : Type} (f : α → β) (table : Table α) (key : String) :
    Table.find? (table.map fun entry => (entry.1, f entry.2)) key = (table.find? key).map f := by
  induction table with
  | nil => rfl
  | cons e rest ih =>
    by_cases h : e.1 = key
    · simp [find?, h]
    · simpa [find?, h] using ih

theorem Table.keys_eq_of_forall₂ {α β : Type} {R : String × α → String × β → Prop} {a : Table α}
    {b : Table β} (h : List.Forall₂ R a b) (hR : ∀ x y, R x y → y.1 = x.1) : b.keys = a.keys := by
  induction h with
  | nil => rfl
  | cons hxy _ ih => exact congrArg₂ List.cons (hR _ _ hxy) ih

/-- A variant as a component declares it, with what it lays over the parts of the default variant
and with the context of its box. -/
structure VariantEntry where
  name : String
  variant : Variant
  overrides : Table Part
  context : BoxContext

namespace VariantEntry

def top (variant : Variant) : VariantEntry := ⟨defaultVariant, variant, [], .global⟩

def named (owner name : String) (variant : Variant) : VariantEntry :=
  ⟨name, variant, variant.parts, .component owner⟩

end VariantEntry

namespace Component

def defaultParts (component : Component) : Table Part := component.default.elim [] Variant.parts

/-- The variants that a component declares. The default variant stands at its top, and an entry of
that name among the others counts for nothing. -/
def entries (component : Component) (name : String) : List VariantEntry :=
  component.default.toList.map .top ++
    (component.variants.filter fun entry => entry.1 ≠ defaultVariant).map fun entry =>
      .named name entry.1 entry.2

variable {component : Component}

theorem top_mem_entries {variant : Variant} (h : component.default = some variant)
    (name : String) : .top variant ∈ component.entries name := by
  simp [entries, h]

theorem named_mem_entries {variant : Variant} {variantName : String}
    (h : component.variants.find? variantName = some variant) (hn : variantName ≠ defaultVariant)
    (name : String) : .named name variantName variant ∈ component.entries name := by
  refine List.mem_append_right _ (List.mem_map.2 ⟨(variantName, variant), ?_, rfl⟩)
  exact List.mem_filter.2 ⟨Table.mem_of_find? h, by simpa using hn⟩

end Component

namespace Theme

open Compile

variable {σ : Type} [StyleEngine σ] {theme : Theme} {I : σ → Prop}
  {given : Styles → String → Prop}

/-- The styles of a variant, if it has a box that is not a reference that leads nowhere. -/
def variantStyles (theme : Theme) (entry : VariantEntry) : Except ThemeError (Option Styles) :=
  match entry.variant.theming with
  | some theming => theme.boxCss entry.context theming
  | none => .ok none

def compileEntry (theme : Theme) (defaults : Table Part) (entry : VariantEntry) :
    Compile σ (Option CompiledVariant) := do
  let parts ← (theme.mergedParts defaults entry.overrides : Except _ _)
  theme.compileVariant entry.name entry.variant parts entry.context

theorem ownVariants_eq (name : String) (component : Component) :
    (theme.ownVariants name component : Compile σ _) = (do
      let compiled ← (component.entries name).mapM (theme.compileEntry component.defaultParts)
      return compiled.filterMap id) := by
  cases hd : component.default with
  | none =>
    simp only [ownVariants, Component.entries, Component.defaultParts, hd, List.mapM_map,
      Option.elim_none, Option.toList_none, List.map_nil, List.nil_append, pure_bind]
    rfl
  | some variant =>
    simp only [ownVariants, Component.entries, Component.defaultParts, hd, List.mapM_map,
      Option.elim_some, Option.toList_some, List.map_cons, List.map_nil, List.singleton_append,
      List.mapM_cons, compileEntry, bind_assoc, pure_bind]
    congr 1
    funext parts
    congr 1
    funext first
    cases first <;> rfl

/-- Merging puts a part of its own in the place of each part that is laid over others. -/
theorem mergedParts_eq_putAll {defaults overrides : Table Part} {parts : Table (Source Box)}
    (h : theme.mergedParts defaults overrides = .ok parts) :
    ∃ laid : Table Part, laid.keys = overrides.keys ∧
      parts = (defaults.putAll laid).map fun entry => (entry.1, entry.2.source) := by
  rw [mergedParts, bind_eq_ok_iff] at h
  obtain ⟨merged, hm, h⟩ := h
  cases h
  suffices hlaid : ∃ laid : Table Part, laid.keys = overrides.keys ∧
      merged = defaults.putAll laid by
    obtain ⟨laid, hkeys, rfl⟩ := hlaid
    exact ⟨laid, hkeys, rfl⟩
  induction overrides generalizing defaults with
  | nil =>
    cases hm
    exact ⟨[], rfl, rfl⟩
  | cons first rest ih =>
    obtain ⟨name, part⟩ := first
    rw [List.foldlM_cons] at hm
    obtain ⟨next, hn, hm⟩ := bind_eq_ok_iff.1 hm
    obtain ⟨laid, hkeys, rfl⟩ := ih hm
    obtain ⟨put, rfl⟩ : ∃ put, next = Table.put defaults name put := by
      simp only at hn
      split at hn
      · cases hn
        exact ⟨part, rfl⟩
      · obtain ⟨put, _, rfl⟩ := map_eq_ok_iff.1 (mapError_eq_ok_iff.1 hn)
        exact ⟨put, rfl⟩
    exact ⟨(name, put) :: laid, congrArg (name :: ·) hkeys, rfl⟩

section

variable {defaults overrides : Table Part} {parts : Table (Source Box)}

theorem distinct_of_mergedParts (hd : defaults.Distinct)
    (h : theme.mergedParts defaults overrides = .ok parts) : parts.Distinct := by
  obtain ⟨laid, -, rfl⟩ := mergedParts_eq_putAll h
  have hput : Table.Distinct (Table.putAll defaults laid) := hd.putAll laid
  unfold Table.Distinct at hput ⊢
  simpa [Table.keys, Function.comp_def] using hput

/-- The parts of the default variant come first, then the new ones. -/
theorem keys_of_mergedParts (hd : defaults.Distinct) (ho : overrides.Distinct)
    (h : theme.mergedParts defaults overrides = .ok parts) :
    parts.keys = defaults.keys ++ overrides.keys.filter (· ∉ defaults.keys) := by
  obtain ⟨laid, hkeys, rfl⟩ := mergedParts_eq_putAll h
  have hlaid : laid.Distinct := by
    unfold Table.Distinct
    rwa [hkeys]
  rw [← hkeys, ← Table.keys_putAll_of_distinct hd hlaid]
  simp [Table.keys, Function.comp_def]

/-- A part that is not laid over keeps its source. -/
theorem find?_of_mergedParts (ho : overrides.Distinct)
    (h : theme.mergedParts defaults overrides = .ok parts) {name : String}
    (hn : name ∉ overrides.keys) : parts.find? name = (defaults.find? name).map Part.source := by
  obtain ⟨laid, hkeys, rfl⟩ := mergedParts_eq_putAll h
  have hlaid : laid.Distinct := by
    unfold Table.Distinct
    rwa [hkeys]
  have hnone : laid.find? name = none := Table.find?_eq_none_iff.2 (by rwa [hkeys])
  rw [Table.find?_map Part.source, Table.find?_putAll defaults hlaid, hnone, Option.none_or]

end

/-- A part is compiled among all the parts of its variant. -/
def PartCompilesTo (theme : Theme) (given : Styles → String → Prop) (parts : Table (Source Box))
    (part : String × Source Box) (compiled : String × String) : Prop :=
  compiled.1 = part.1 ∧ ∃ styles, theme.boxCss (.parts parts) part.2 = .ok styles ∧
    given (styles.getD []) compiled.2

/-- What a declared variant is compiled to, if it is not left out. -/
structure CompilesTo (theme : Theme) (given : Styles → String → Prop) (defaults : Table Part)
    (entry : VariantEntry) (compiled : CompiledVariant) : Prop where
  name : compiled.variant = entry.name
  box : ∃ styles, theme.variantStyles entry = .ok (some styles) ∧ given styles compiled.className
  parts : ∃ parts, theme.mergedParts defaults entry.overrides = .ok parts ∧
    List.Forall₂ (theme.PartCompilesTo given parts) parts compiled.parts
  defaultProps : match entry.variant.defaultProps with
    | some props => Globals.resolveProps theme.globals props = .ok compiled.defaultProps
    | none => compiled.defaultProps = .object []

def Outcome (theme : Theme) (given : Styles → String → Prop) (defaults : Table Part)
    (entry : VariantEntry) : Option CompiledVariant → Prop
  | some compiled => theme.CompilesTo given defaults entry compiled
  | none => theme.variantStyles entry = .ok none

theorem yields_compileEntry (h : Assigns I given) (defaults : Table Part) (entry : VariantEntry) :
    YieldsIn I (theme.compileEntry defaults entry : Compile σ _)
      (theme.Outcome given defaults entry) := by
  refine (YieldsIn.lift fun parts hp => hp).bind fun parts hparts => ?_
  unfold compileVariant
  cases ht : entry.variant.theming with
  | none => exact .pure (by simp only [Outcome, variantStyles, ht])
  | some theming =>
    refine (YieldsIn.lift fun styles hs => hs).bind fun styles hstyles => ?_
    have hbox : theme.variantStyles entry = .ok styles := by simpa only [variantStyles, ht]
    cases styles with
    | none => exact .pure hbox
    | some styles =>
      refine (h styles).bind fun className hclass => ?_
      have hpart (part : String × Source Box) : YieldsIn I (do
          let styles ← (theme.boxCss (.parts parts) part.2 : Except _ _)
          return (part.1, ← Compile.className (styles.getD [])) : Compile σ (String × String))
            (theme.PartCompilesTo given parts part) :=
        (YieldsIn.lift fun styles hs => hs).bind fun styles hs =>
          (h (styles.getD [])).bind fun name hn => .pure ⟨rfl, styles, hs, hn⟩
      refine (YieldsIn.mapM hpart parts).bind fun classes hclasses => ?_
      cases hprops : entry.variant.defaultProps with
      | none =>
        refine (YieldsIn.pure (P := fun props => props = .object []) rfl).bind fun props hr => ?_
        exact .pure ⟨rfl, ⟨styles, hbox, hclass⟩, ⟨parts, hparts, hclasses⟩, by rw [hprops]; exact hr⟩
      | some props =>
        refine (YieldsIn.lift fun resolved hr => hr).bind fun resolved hr => ?_
        exact .pure ⟨rfl, ⟨styles, hbox, hclass⟩, ⟨parts, hparts, hclasses⟩, by rw [hprops]; exact hr⟩

def shows (theme : Theme) (entry : VariantEntry) : Bool :=
  match theme.variantStyles entry with
  | .ok (some _) => true
  | _ => false

theorem forall₂_shows {defaults : Table Part} {entries : List VariantEntry}
    {compiled : List (Option CompiledVariant)}
    (h : List.Forall₂ (theme.Outcome given defaults) entries compiled) :
    List.Forall₂ (theme.CompilesTo given defaults) (entries.filter theme.shows)
      (compiled.filterMap id) := by
  induction h with
  | nil => exact .nil
  | @cons entry outcome _ _ ho _ ih =>
    cases outcome with
    | none =>
      have hshows : theme.shows entry = false := by
        have hnone : theme.variantStyles entry = .ok none := ho
        simp [shows, hnone]
      simpa [hshows] using ih
    | some compiled =>
      have hmade : theme.CompilesTo given defaults entry compiled := ho
      obtain ⟨styles, hstyles, _⟩ := hmade.box
      have hshows : theme.shows entry = true := by simp [shows, hstyles]
      simpa [hshows] using List.Forall₂.cons hmade ih

theorem Outcome.ok {defaults : Table Part} {entry : VariantEntry}
    {outcome : Option CompiledVariant} (h : theme.Outcome given defaults entry outcome) :
    ∃ styles, theme.variantStyles entry = .ok styles := by
  cases outcome with
  | none => exact ⟨none, h⟩
  | some compiled =>
    obtain ⟨styles, hstyles, _⟩ := h.box
    exact ⟨some styles, hstyles⟩

/-- The variants that a component compiles itself are those that it declares and that have a box,
in their order. -/
def OwnCompileTo (theme : Theme) (given : Styles → String → Prop) (name : String)
    (component : Component) (own : List CompiledVariant) : Prop :=
  (∀ entry ∈ component.entries name, ∃ styles, theme.variantStyles entry = .ok styles) ∧
    List.Forall₂ (theme.CompilesTo given component.defaultParts)
      ((component.entries name).filter theme.shows) own

theorem yields_own (h : Assigns I given) (name : String) (component : Component) :
    YieldsIn I (theme.ownVariants name component : Compile σ _)
      (theme.OwnCompileTo given name component) := by
  rw [ownVariants_eq]
  refine (YieldsIn.mapM (fun entry => yields_compileEntry h _ entry) _).bind
    fun compiled hc => .pure ⟨fun entry he => ?_, forall₂_shows hc⟩
  generalize component.entries name = entries at hc he
  induction hc with
  | nil => cases he
  | cons ho _ ih =>
    rcases List.mem_cons.1 he with rfl | he
    · exact ho.ok
    · exact ih he

theorem OwnCompileTo.names {name : String} {component : Component} {own : List CompiledVariant}
    (h : theme.OwnCompileTo given name component own) : own.map (·.variant) =
      ((component.entries name).filter theme.shows).map VariantEntry.name := by
  have hnames : List.Forall₂ Eq (((component.entries name).filter theme.shows).map
      VariantEntry.name) (own.map (·.variant)) := by
    rw [List.forall₂_map_left_iff, List.forall₂_map_right_iff]
    exact h.2.imp fun _ _ hmade => hmade.name.symm
  rw [List.forall₂_eq_eq_eq] at hnames
  exact hnames.symm

theorem OwnCompileTo.nodup {name : String} {component : Component} {own : List CompiledVariant}
    (h : theme.OwnCompileTo given name component own)
    (hnames : ((component.entries name).map VariantEntry.name).Nodup) :
    (own.map (·.variant)).Nodup := by
  rw [h.names]
  exact hnames.sublist (List.filter_sublist.map _)

theorem OwnCompileTo.exists_entry {name : String} {component : Component}
    {own : List CompiledVariant} (h : theme.OwnCompileTo given name component own)
    {compiled : CompiledVariant} (hc : compiled ∈ own) :
    ∃ entry ∈ component.entries name,
      theme.CompilesTo given component.defaultParts entry compiled := by
  obtain ⟨entry, he, hmade⟩ := exists_of_forall₂ h.2 compiled hc
  exact ⟨entry, List.mem_of_mem_filter he, hmade⟩

theorem CompilesTo.distinct {defaults : Table Part} {entry : VariantEntry}
    {compiled : CompiledVariant} (h : theme.CompilesTo given defaults entry compiled)
    (hd : defaults.Distinct) : compiled.parts.Distinct := by
  obtain ⟨parts, hparts, hclasses⟩ := h.parts
  have hdistinct : parts.Distinct := distinct_of_mergedParts hd hparts
  unfold Table.Distinct at hdistinct ⊢
  rwa [Table.keys_eq_of_forall₂ hclasses fun _ _ hpart => hpart.1]

theorem CompilesTo.keys {defaults : Table Part} {entry : VariantEntry} {compiled : CompiledVariant}
    (h : theme.CompilesTo given defaults entry compiled) (hd : defaults.Distinct)
    (ho : entry.overrides.Distinct) : compiled.parts.keys =
      defaults.keys ++ entry.overrides.keys.filter (· ∉ defaults.keys) := by
  obtain ⟨parts, hparts, hclasses⟩ := h.parts
  rw [← keys_of_mergedParts hd ho hparts]
  exact Table.keys_eq_of_forall₂ hclasses fun _ _ hpart => hpart.1

end Theme

namespace Component.Distinct

variable {component : Component} (h : component.Distinct) (name : String)

include h

theorem nodup_entries : ((component.entries name).map VariantEntry.name).Nodup := by
  have hnamed : ((component.variants.filter fun entry => entry.1 ≠ defaultVariant).map
      (·.1)).Nodup := h.variants.sublist (List.filter_sublist.map _)
  have hentries : (component.entries name).map VariantEntry.name =
      (component.default.toList.map fun _ => defaultVariant) ++
        (component.variants.filter fun entry => entry.1 ≠ defaultVariant).map (·.1) := by
    simp only [Component.entries, List.map_append, List.map_map]
    rfl
  rw [hentries]
  refine List.nodup_append.2 ⟨?_, hnamed, fun a ha b hb he => ?_⟩
  · cases component.default <;> simp
  · obtain ⟨_, _, rfl⟩ := List.mem_map.1 ha
    obtain ⟨entry, hentry, rfl⟩ := List.mem_map.1 hb
    simpa [← he] using (List.mem_filter.1 hentry).2

theorem overrides {entry : VariantEntry} (he : entry ∈ component.entries name) :
    entry.overrides.Distinct := by
  rcases List.mem_append.1 he with he | he
  · obtain ⟨_, _, rfl⟩ := List.mem_map.1 he
    exact List.nodup_nil
  · obtain ⟨declared, hd, rfl⟩ := List.mem_map.1 he
    exact h.named declared (List.mem_of_mem_filter hd)

theorem defaultParts : component.defaultParts.Distinct := by
  unfold Component.defaultParts
  cases hd : component.default with
  | none => exact List.nodup_nil
  | some variant => exact h.parts variant hd

end Component.Distinct

namespace CompiledVariant

theorem layer_of_not_mem {variant : CompiledVariant} {base : List CompiledVariant}
    (h : variant.variant ∉ base.map (·.variant)) : variant.layer base = base ++ [variant] := by
  induction base with
  | nil => rfl
  | cons first rest ih =>
    have hd : variant.variant ≠ first.variant ∧ variant.variant ∉ rest.map (·.variant) := by
      simpa using h
    rw [layer, if_neg (Ne.symm hd.1), ih hd.2, List.cons_append]

theorem layerAll_of_nodup {variants : List CompiledVariant}
    (h : (variants.map (·.variant)).Nodup) : layerAll [] variants = variants := by
  induction variants using List.reverseRecOn with
  | nil => rfl
  | append_singleton variants last ih =>
    rw [List.map_append, List.map_singleton] at h
    have hd := List.nodup_append.1 h
    have hlast : last.variant ∉ variants.map (·.variant) := fun hm => hd.2.2 _ hm _ (by simp) rfl
    rw [layerAll_concat, ih hd.1, layer_of_not_mem hlast]

end CompiledVariant

namespace Theme

open Compile

variable {σ : Type} [StyleEngine σ] {theme : Theme}

theorem compile_of_no_parent {name : String} {component : Component}
    (found : theme.components.find? name = some component) (root : component.parent = none) :
    (theme.compile name : Compile σ _) = (do
      let own ← theme.ownVariants name component
      return ⟨name, CompiledVariant.layerAll [] own⟩) := by
  rw [compile, compileFrom_eq, found]
  simp only [if_neg List.not_mem_nil, root, pure_bind]

/-- The variants of a component that extends nothing are the ones that it declares and that have a
box, each of them once and in their order. The top of the component is the only place where it
declares its default variant. -/
theorem declared_variants_compiled {config : Value} (proper : config.Proper)
    (read : Theme.ofConfig config = .ok theme) {name : String} {component : Component}
    (found : theme.components.find? name = some component) (root : component.parent = none)
    {engine after : σ} {compiled : CompiledComponent}
    (run : (theme.compile name).run.run engine = (.ok compiled, after)) :
    (∀ entry ∈ component.entries name, ∃ styles, theme.variantStyles entry = .ok styles) ∧
    List.Forall₂ (fun entry variant =>
        theme.CompilesTo (HandedOut σ) component.defaultParts entry variant ∧
        variant.parts.keys = component.defaultParts.keys ++
          entry.overrides.keys.filter (· ∉ component.defaultParts.keys))
      ((component.entries name).filter theme.shows) compiled.variants ∧
    (compiled.variants.map (·.variant)).Nodup ∧
    (component.default = none → ∀ variant ∈ compiled.variants,
      variant.variant ≠ defaultVariant) := by
  have distinct : component.Distinct :=
    distinct_of_ofConfig proper read _ (Table.mem_of_find? found)
  have hyields : YieldsIn (fun _ : σ => True) (theme.compile name) fun compiled => ∃ own,
      theme.OwnCompileTo (HandedOut σ) name component own ∧
      compiled.variants = CompiledVariant.layerAll [] own := by
    rw [compile_of_no_parent found root]
    exact (yields_own assigns_handedOut name component).bind fun own hown => .pure ⟨own, hown, rfl⟩
  obtain ⟨-, own, hown, hlayered⟩ := hyields engine compiled after trivial run
  have hnodup : (own.map (·.variant)).Nodup := hown.nodup (distinct.nodup_entries name)
  rw [CompiledVariant.layerAll_of_nodup hnodup] at hlayered
  rw [hlayered]
  refine ⟨hown.1, ?_, hnodup, fun hnone variant hv hname => ?_⟩
  · have hentries : ∀ entry ∈ (component.entries name).filter theme.shows,
        entry.overrides.Distinct :=
      fun entry he => distinct.overrides name (List.mem_of_mem_filter he)
    exact ((List.forall₂_and_left _ _).2 ⟨hentries, hown.2⟩).imp
      fun _ _ ⟨ho, hmade⟩ => ⟨hmade, hmade.keys distinct.defaultParts ho⟩
  · have hm : defaultVariant ∈ ((component.entries name).filter theme.shows).map
        VariantEntry.name := by
      rw [← hown.names, ← hname]
      exact List.mem_map_of_mem hv
    obtain ⟨entry, he, hdefault⟩ := List.mem_map.1 hm
    have hentry : entry ∈ component.entries name := List.mem_of_mem_filter he
    simp only [Component.entries, hnone, Option.toList_none, List.map_nil, List.nil_append] at hentry
    obtain ⟨declared, hd, rfl⟩ := List.mem_map.1 hentry
    have hne : declared.1 ≠ defaultVariant := by simpa using (List.mem_filter.1 hd).2
    exact hne hdefault

structure Requested where
  maps : List Styles

instance : StyleEngine Requested := ⟨fun engine maps => ("c", ⟨engine.maps ++ maps⟩)⟩

def componentsConfig (components : List (String × List (String × Value))) : Value := .object [
  ("name", .text "T"), ("version", .text "1"),
  ("components", .object (components.map fun entry => (entry.1, .object entry.2)))]

def paddedValue (padding : Int) : Value := .object [("padding", .number (.integer padding))]

def paddedVariant (padding : Int) (parts : List (String × Int)) : Value := .object [
  ("theming", paddedValue padding),
  ("parts", .object (parts.map fun part => (part.1, paddedValue part.2)))]

def badgeConfig : Value := componentsConfig [("badge", [
  ("default", paddedVariant 1 [("icon", 2)]),
  ("variants", .object [
    ("default", paddedVariant 3 [("lost", 4)]), ("ghost", .object []),
    ("big", paddedVariant 5 [("title", 6), ("icon", 7)])])])]

theorem badge_variants_compiled : badgeConfig.Proper ∧
    ∃ theme component compiled after, Theme.ofConfig badgeConfig = .ok theme ∧
      theme.components.find? "badge" = some component ∧ component.parent = none ∧
      (theme.compile "badge").run.run (Requested.mk []) = (.ok compiled, after) ∧
      (compiled.variants.map fun v => (v.variant, v.parts.keys)) =
        [("default", ["icon"]), ("big", ["icon", "title"])] := by
  have proper : badgeConfig.Proper := by
    simp [badgeConfig, componentsConfig, paddedVariant, paddedValue, Value.Proper,
      Value.ProperEntries, Table.Distinct, Table.keys]
  obtain ⟨theme, read⟩ : ∃ theme, Theme.ofConfig badgeConfig = .ok theme := ⟨_, rfl⟩
  obtain ⟨component, found⟩ : ∃ component, theme.components.find? "badge" = some component := by
    cases read
    exact ⟨_, rfl⟩
  have root : component.parent = none := by
    cases read
    cases found
    rfl
  obtain ⟨compiled, after, run⟩ : ∃ compiled after,
      (theme.compile "badge").run.run (Requested.mk []) = (.ok compiled, after) := by
    rw [compile_of_no_parent found root]
    cases read
    cases found
    exact ⟨_, _, rfl⟩
  refine ⟨proper, theme, component, compiled, after, read, found, root, run, ?_⟩
  obtain ⟨-, hmade, -, -⟩ := declared_variants_compiled proper read found root run
  obtain ⟨first, second, hshown, hfirst, hsecond⟩ : ∃ first second,
      (component.entries "badge").filter theme.shows = [first, second] ∧
      (first.name, component.defaultParts.keys ++
        first.overrides.keys.filter (· ∉ component.defaultParts.keys)) = ("default", ["icon"]) ∧
      (second.name, component.defaultParts.keys ++
        second.overrides.keys.filter (· ∉ component.defaultParts.keys)) =
          ("big", ["icon", "title"]) := by
    cases read
    cases found
    exact ⟨_, _, rfl, rfl, rfl⟩
  rw [hshown] at hmade
  obtain ⟨v, others, ⟨hv, hvkeys⟩, hothers, hvariants⟩ := List.forall₂_cons_left_iff.1 hmade
  obtain ⟨w, rest, ⟨hw, hwkeys⟩, hrest, rfl⟩ := List.forall₂_cons_left_iff.1 hothers
  obtain rfl := List.forall₂_nil_left_iff.1 hrest
  rw [hvariants, List.map_cons, List.map_cons, hv.name, hw.name, hvkeys, hwkeys, hfirst, hsecond]
  rfl

def loneDefaultConfig : Value := componentsConfig [("badge", [
  ("variants", .object [("default", paddedVariant 1 [])])])]

theorem lone_default_left_out : loneDefaultConfig.Proper ∧
    ∃ theme component variant theming, Theme.ofConfig loneDefaultConfig = .ok theme ∧
      theme.components.find? "badge" = some component ∧ component.parent = none ∧
      Table.find? component.variants defaultVariant = some variant ∧
      variant.theming = some theming ∧
      (∀ context, theme.boxCss context theming = .ok (some [("padding", .declaration "1")])) ∧
      ∀ sheet : Stylesheet, (theme.compile "badge").run.run sheet = (.ok ⟨"badge", []⟩, sheet) := by
  have proper : loneDefaultConfig.Proper := by
    simp [loneDefaultConfig, componentsConfig, paddedVariant, paddedValue, Value.Proper,
      Value.ProperEntries, Table.Distinct, Table.keys]
  refine ⟨proper, _, _, _, _, rfl, rfl, rfl, rfl, rfl, fun context => rfl, fun sheet => ?_⟩
  rw [compile_of_no_parent rfl rfl]
  rfl

end Theme

end Theming
