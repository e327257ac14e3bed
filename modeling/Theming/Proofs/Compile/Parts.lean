import Mathlib.Data.List.Nodup
import Theming.Proofs.Compile.BoxCycles
import Theming.Proofs.Compile.Chains

/-! The parts of variants. A variant lays its own parts over those of the default variant. What a
part is composed of depends only on the boxes in its reach, so a part from which no part of the
variant can be reached has the same class in both. -/

namespace Theming

open Relation

theorem Table.exists_find?_of_forall₂ {α β : Type} {R : String × α → String × β → Prop}
    {a : Table α} {b : Table β} (h : List.Forall₂ R a b) (hR : ∀ x y, R x y → y.1 = x.1)
    {key : String} {x : α} (hx : a.find? key = some x) :
    ∃ y, b.find? key = some y ∧ R (key, x) (key, y) := by
  induction h with
  | nil => cases hx
  | @cons e f _ _ he _ ih =>
    obtain ⟨k, x'⟩ := e
    obtain ⟨k', y⟩ := f
    obtain rfl : k' = k := hR _ _ he
    by_cases hk : k' = key
    · subst hk
      obtain rfl : x' = x := by simpa [find?] using hx
      exact ⟨y, by simp [find?], he⟩
    · obtain ⟨y, hy, hr⟩ := ih (by simpa [find?, hk] using hx)
      exact ⟨y, by simpa [find?, hk] using hy, hr⟩

namespace Theme

variable {theme : Theme} {changed : List String} {before after : Table (Source Box)}

/-- Parts that have been laid over others: they agree except for the changed names, which all have
a part now. -/
structure LaidOver (changed : List String) (before after : Table (Source Box)) : Prop where
  kept : ∀ name, name ∉ changed → before.find? name = after.find? name
  present : ∀ name ∈ changed, name ∈ after.keys

theorem laidOver_of_mergedParts {defaults overrides : Table Part}
    (hd : defaults.Distinct) (ho : overrides.Distinct)
    (hb : theme.mergedParts defaults [] = .ok before)
    (ha : theme.mergedParts defaults overrides = .ok after) :
    LaidOver overrides.keys before after := by
  refine ⟨fun name hn => ?_, fun name hn => ?_⟩
  · have hnone : Table.Distinct ([] : Table Part) := List.nodup_nil
    rw [find?_of_mergedParts hnone hb List.not_mem_nil, find?_of_mergedParts ho ha hn]
  · rw [keys_of_mergedParts hd ho ha]
    by_cases hdefault : name ∈ defaults.keys
    · exact List.mem_append_left _ hdefault
    · exact List.mem_append_right _ (List.mem_filter.2 ⟨hn, by simpa using hdefault⟩)

namespace LaidOver

theorem boxNode?_none (h : LaidOver changed before after) {name : String}
    (hn : theme.boxNode? (.parts after) name = none) :
    theme.boxNode? (.parts before) name = none := by
  simp only [boxNode?, BoxContext.nearby, List.find?_eq_none, List.forall_mem_cons] at hn ⊢
  obtain ⟨hset, hpart, -⟩ := hn
  refine ⟨hset, ?_, by simp⟩
  have hafter : after.find? name = none := by simpa [boxAt?] using hpart
  have hname : name ∉ changed := fun hm => Table.find?_eq_none_iff.1 hafter (h.present name hm)
  simpa [boxAt?, h.kept name hname] using hafter

/-- Where no changed part stands, the parts that were laid over are still found. -/
theorem boxNode?_some (h : LaidOver changed before after) {name : String} {node : BoxNode}
    (hn : theme.boxNode? (.parts after) name = some node)
    (hc : ∀ other ∈ changed, node ≠ .part other) :
    theme.boxNode? (.parts before) name = some node ∧
      theme.boxAt? (.parts before) node = theme.boxAt? (.parts after) node := by
  cases hs : theme.sets.boxSets.find? name with
  | some box =>
    obtain rfl : BoxNode.set name = node := by simpa [boxNode?, boxAt?, hs] using hn
    exact ⟨by simp [boxNode?, boxAt?, hs], by simp [boxAt?]⟩
  | none =>
    cases hp : after.find? name with
    | none => simp [boxNode?, boxAt?, BoxContext.nearby, hs, hp] at hn
    | some source =>
      obtain rfl : BoxNode.part name = node := by
        simpa [boxNode?, boxAt?, BoxContext.nearby, hs, hp] using hn
      have hname : name ∉ changed := fun hm => hc name hm rfl
      have hbefore := (h.kept name hname).trans hp
      exact ⟨by simp [boxNode?, boxAt?, BoxContext.nearby, hs, hbefore], by simp [boxAt?, hp, hbefore]⟩

theorem namedBoxStyles_refinedBy (h : LaidOver changed before after) {trail : Trail}
    {reference : String}
    (hc : ∀ first last, theme.boxNode? (.parts after) (referenceName reference) = some first →
      ReflTransGen (theme.BoxEdge (.parts after)) first last →
      ∀ other ∈ changed, last ≠ .part other) :
    RefinedBy (theme.namedBoxStyles (.parts after) trail reference)
      (theme.namedBoxStyles (.parts before) trail reference) := by
  induction trail, reference using namedBoxStyles.induct theme (.parts after) with
  | case1 trail reference found =>
    have hn := boxTarget?_eq_none_iff.1 found
    rw [namedBoxStyles_of_none hn, namedBoxStyles_of_none (h.boxNode?_none hn)]
    exact .refl _
  | case2 trail reference label source found seen =>
    obtain ⟨node, hn, hs, rfl⟩ := boxTarget?_eq_some_iff.1 found
    rw [namedBoxStyles_of_node hn hs, if_pos seen]
    exact .error _ _
  | case3 trail reference label source found fresh ih =>
    obtain ⟨node, hn, hs, rfl⟩ := boxTarget?_eq_some_iff.1 found
    obtain ⟨hn', hs'⟩ := h.boxNode?_some hn (hc node node hn .refl)
    rw [namedBoxStyles_of_node hn hs, namedBoxStyles_of_node hn' (hs'.trans hs), if_neg fresh,
      if_neg fresh]
    exact sourceStyles_refinedBy source fun text ht => ih text fun next last hnext hw =>
      hc node last hn (hw.head ⟨source, hs, text, ht, hnext⟩)

end LaidOver

/-- No part that a variant declares is this part or can be reached from it. -/
structure Untouched (theme : Theme) (changed : List String) (after : Table (Source Box))
    (name : String) (source : Source Box) : Prop where
  undeclared : name ∉ changed
  unreached : ∀ first last, theme.RefersTo (.parts after) source first →
    ReflTransGen (theme.BoxEdge (.parts after)) first last → ∀ other ∈ changed, last ≠ .part other

theorem Untouched.boxCss {name : String} {source : Source Box}
    (h : theme.Untouched changed after name source) (hl : LaidOver changed before after) :
    RefinedBy (theme.boxCss (.parts after) source) (theme.boxCss (.parts before) source) :=
  sourceStyles_refinedBy source fun text ht => hl.namedBoxStyles_refinedBy
    fun first last hfirst hw => h.unreached first last ⟨text, ht, hfirst⟩ hw

variable {given : Styles → String → Prop}

theorem CompilesTo.find?_part {defaults : Table Part} {entry : VariantEntry}
    {compiled : CompiledVariant} (h : theme.CompilesTo given defaults entry compiled)
    {parts : Table (Source Box)} (hp : theme.mergedParts defaults entry.overrides = .ok parts)
    {name : String} {source : Source Box} (hn : parts.find? name = some source) :
    ∃ cls styles, compiled.parts.find? name = some cls ∧
      theme.boxCss (.parts parts) source = .ok styles ∧ given (styles.getD []) cls := by
  obtain ⟨parts', hp', hclasses⟩ := h.parts
  obtain rfl : parts = parts' := Except.ok.inj (hp.symm.trans hp')
  obtain ⟨cls, hcls, -, styles, hs, hgiven⟩ :=
    Table.exists_find?_of_forall₂ hclasses (fun _ _ hpart => hpart.1) hn
  exact ⟨cls, styles, hcls, hs, hgiven⟩

theorem CompilesTo.same_part {defaults : Table Part} {first entry : VariantEntry}
    {d v : CompiledVariant} (hd : theme.CompilesTo given defaults first d)
    (hv : theme.CompilesTo given defaults entry v) (hfirst : first.overrides = [])
    (hgiven : ∀ styles a b, given styles a → given styles b → a = b)
    (hdefaults : defaults.Distinct) (ho : entry.overrides.Distinct)
    {parts : Table (Source Box)} (hp : theme.mergedParts defaults entry.overrides = .ok parts)
    {name : String} {part : Part} (hn : defaults.find? name = some part)
    (untouched : theme.Untouched entry.overrides.keys parts name part.source) :
    ∃ cls, d.parts.find? name = some cls ∧ v.parts.find? name = some cls := by
  obtain ⟨before, hb, -⟩ := hd.parts
  have hempty : theme.mergedParts defaults [] = .ok before := by rwa [hfirst] at hb
  have hlaid : LaidOver entry.overrides.keys before parts :=
    laidOver_of_mergedParts hdefaults ho hempty hp
  have hafter : parts.find? name = some part.source := by
    rw [find?_of_mergedParts ho hp untouched.undeclared, hn]
    rfl
  have hbefore : before.find? name = some part.source :=
    (hlaid.kept name untouched.undeclared).trans hafter
  obtain ⟨a, styles, ha, hs, hga⟩ := hd.find?_part hb hbefore
  obtain ⟨b, styles', hb', hs', hgb⟩ := hv.find?_part hp hafter
  obtain rfl : styles' = styles :=
    Except.ok.inj ((untouched.boxCss hlaid _ hs').symm.trans hs)
  obtain rfl := hgiven _ a b hga hgb
  exact ⟨a, ha, hb'⟩

section

variable {name : String} {component : Component} {own : List CompiledVariant}

theorem OwnCompileTo.find?_of_shows (h : theme.OwnCompileTo given name component own)
    (distinct : component.Distinct) {entry : VariantEntry}
    (he : entry ∈ component.entries name) (hs : theme.shows entry = true) :
    ∃ compiled, own.find? (·.variant == entry.name) = some compiled ∧
      theme.CompilesTo given component.defaultParts entry compiled := by
  obtain ⟨compiled, hc, hmade⟩ :=
    exists_of_forall₂ h.2.flip entry (List.mem_filter.2 ⟨he, hs⟩)
  refine ⟨compiled, ?_, hmade⟩
  rw [← hmade.name]
  exact CompiledVariant.find?_of_mem (h.nodup (distinct.nodup_entries name)) hc

theorem OwnCompileTo.shows_of_find? (h : theme.OwnCompileTo given name component own)
    (distinct : component.Distinct) {entry : VariantEntry}
    (he : entry ∈ component.entries name) {compiled : CompiledVariant}
    (hf : own.find? (·.variant == entry.name) = some compiled) : theme.shows entry = true := by
  have hname : compiled.variant = entry.name := by simpa using List.find?_some hf
  obtain ⟨other, ho, hmade⟩ := exists_of_forall₂ h.2 compiled (List.mem_of_find?_eq_some hf)
  have hsame : other = entry := List.inj_on_of_nodup_map (distinct.nodup_entries name)
    (List.mem_of_mem_filter ho) he (hmade.name.symm.trans hname)
  rw [← hsame]
  exact (List.mem_filter.1 ho).2

end

theorem exists_own_of_compile {σ : Type} [StyleEngine σ] {name : String} {component : Component}
    (found : theme.components.find? name = some component) {engine after : σ}
    {compiled : CompiledComponent}
    (run : (theme.compile name).run.run engine = (.ok compiled, after)) :
    ∃ inherited own between, (component.parent = none → inherited = []) ∧
      (theme.ownVariants name component).run.run between = (.ok own, after) ∧
      compiled.variants = CompiledVariant.layerAll inherited own := by
  rw [compile, compileFrom_eq, found] at run
  simp only [if_neg List.not_mem_nil] at run
  cases hp : component.parent with
  | none =>
    simp only [hp] at run
    obtain ⟨inherited, between, hinherited, run⟩ := Compile.run_bind_ok run
    obtain ⟨own, last, hown, run⟩ := Compile.run_bind_ok run
    cases run
    cases hinherited
    exact ⟨[], own, _, fun _ => rfl, hown, rfl⟩
  | some parent =>
    simp only [hp] at run
    obtain ⟨inherited, between, _, run⟩ := Compile.run_bind_ok run
    obtain ⟨own, last, hown, run⟩ := Compile.run_bind_ok run
    cases run
    exact ⟨inherited, own, between, nofun, hown, rfl⟩

theorem find?_part_of_variant? {compiled : CompiledComponent} {inherited own : List CompiledVariant}
    (hl : compiled.variants = CompiledVariant.layerAll inherited own)
    (hn : (own.map (·.variant)).Nodup) {name : String} {variant result : CompiledVariant}
    (hv : own.find? (·.variant == name) = some variant) (distinct : variant.parts.Distinct)
    (hr : compiled.variant? name = some result) {part cls : String}
    (hp : variant.parts.find? part = some cls) : result.parts.find? part = some cls := by
  rw [CompiledComponent.variant?, hl, CompiledVariant.find?_layerAll_of_nodup inherited hn, hv] at hr
  cases hb : inherited.find? (·.variant == name) with
  | none =>
    rw [hb] at hr
    cases hr
    exact hp
  | some base =>
    rw [hb] at hr
    cases hr
    change Table.find? (base.parts.putAll variant.parts) part = some cls
    rw [Table.find?_putAll _ distinct, hp, Option.some_or]

/-- A part of the default variant that another variant does not touch has the same class in both,
if the component compiles both of them itself. -/
theorem untouched_parts_keep_class {config : Value} (proper : config.Proper)
    (read : Theme.ofConfig config = .ok theme) {name : String} {component : Component}
    (found : theme.components.find? name = some component) {first variant : Variant}
    (declaredFirst : component.default = some first) {variantName : String}
    (declared : component.variants.find? variantName = some variant)
    (named : variantName ≠ defaultVariant) {sheet after : Stylesheet}
    {compiled : CompiledComponent}
    (run : (theme.compile name).run.run sheet = (.ok compiled, after)) {d v : CompiledVariant}
    (compiledFirst : compiled.variant? defaultVariant = some d)
    (compiledVariant : compiled.variant? variantName = some v)
    (own : component.parent = none ∨ theme.shows (.top first) = true ∧
      theme.shows (.named name variantName variant) = true) {parts : Table (Source Box)}
    (merged : theme.mergedParts first.parts variant.parts = .ok parts) {partName : String}
    {part : Part} (hp : first.parts.find? partName = some part)
    (untouched : theme.Untouched variant.parts.keys parts partName part.source) :
    ∃ cls, d.parts.find? partName = some cls ∧ v.parts.find? partName = some cls := by
  have distinct : component.Distinct :=
    distinct_of_ofConfig proper read _ (Table.mem_of_find? found)
  have hfirst := Component.top_mem_entries declaredFirst name
  have hvariant := Component.named_mem_entries declared named name
  have hdefaults : component.defaultParts = first.parts := by
    simp [Component.defaultParts, declaredFirst]
  obtain ⟨inherited, made, between, root, hmade, hl⟩ := exists_own_of_compile found run
  obtain ⟨-, hown⟩ := yields_own between.assigns_classOf name component between made after rfl hmade
  have hnodup : (made.map (·.variant)).Nodup := hown.nodup (distinct.nodup_entries name)
  -- A component that inherits nothing has compiled all the variants of the result itself.
  obtain ⟨showsFirst, showsVariant⟩ : theme.shows (.top first) = true ∧
      theme.shows (.named name variantName variant) = true := by
    rcases own with hroot | hshows
    · rw [root hroot] at hl
      have hfind (name : String) : compiled.variant? name = made.find? (·.variant == name) := by
        rw [CompiledComponent.variant?, hl, CompiledVariant.layerAll_of_nodup hnodup]
      exact ⟨hown.shows_of_find? distinct hfirst ((hfind _).symm.trans compiledFirst),
        hown.shows_of_find? distinct hvariant ((hfind _).symm.trans compiledVariant)⟩
    · exact hshows
  obtain ⟨ownFirst, hof, hcf⟩ := hown.find?_of_shows distinct hfirst showsFirst
  obtain ⟨ownVariant, hov, hcv⟩ := hown.find?_of_shows distinct hvariant showsVariant
  rw [hdefaults] at hcf hcv
  have hfd : first.parts.Distinct := distinct.parts first declaredFirst
  have hvd : variant.parts.Distinct := distinct.overrides name hvariant
  obtain ⟨cls, hd, hv⟩ := hcf.same_part hcv rfl
    (fun styles a b ha hb => ha.trans hb.symm) hfd hvd merged hp untouched
  exact ⟨cls,
    find?_part_of_variant? hl hnodup hof (hcf.distinct hfd) compiledFirst hd,
    find?_part_of_variant? hl hnodup hov (hcv.distinct hfd) compiledVariant hv⟩

def labelConfig : Value := componentsConfig [("label", [
  ("default", paddedVariant 2 [("icon", 1)]),
  ("variants", .object [("titled", paddedVariant 3 [("title", 4)])])])]

def aboutVariants {α : Type} (run : Except ThemeError CompiledComponent × Stylesheet)
    (first second : String) (f : CompiledVariant → CompiledVariant → α) : Option α :=
  run.1.toOption.bind fun compiled => (compiled.variant? first).bind fun d =>
    (compiled.variant? second).map (f d)

theorem exists_variants {α : Type} {run : Except ThemeError CompiledComponent × Stylesheet}
    {first second : String} {f : CompiledVariant → CompiledVariant → α} {a : α}
    (h : aboutVariants run first second f = some a) : ∃ compiled after d v,
      run = (.ok compiled, after) ∧ compiled.variant? first = some d ∧
      compiled.variant? second = some v ∧ f d v = a := by
  obtain ⟨result, after⟩ := run
  obtain ⟨compiled, hc, hboth⟩ := Option.bind_eq_some_iff.1 h
  obtain ⟨d, hd, hsecond⟩ := Option.bind_eq_some_iff.1 hboth
  obtain ⟨v, hv, ha⟩ := Option.map_eq_some_iff.1 hsecond
  cases result with
  | error error => cases hc
  | ok other =>
    obtain rfl : other = compiled := Option.some.inj hc
    exact ⟨other, after, d, v, rfl, hd, hv, ha⟩

theorem title_leaves_icon : labelConfig.Proper ∧ ∃ theme compiled after d v,
    Theme.ofConfig labelConfig = .ok theme ∧
      (theme.compile "label").run.run (Stylesheet.empty "go") = (.ok compiled, after) ∧
      compiled.variant? defaultVariant = some d ∧ compiled.variant? "titled" = some v ∧
      ∃ cls, d.parts.find? "icon" = some cls ∧ v.parts.find? "icon" = some cls := by
  have proper : labelConfig.Proper := by
    simp [labelConfig, componentsConfig, paddedVariant, paddedValue, Value.Proper,
      Value.ProperEntries, Table.Distinct, Table.keys]
  obtain ⟨theme, read⟩ : ∃ theme, Theme.ofConfig labelConfig = .ok theme := ⟨_, rfl⟩
  obtain ⟨component, found⟩ : ∃ component, theme.components.find? "label" = some component := by
    cases read
    exact ⟨_, rfl⟩
  obtain ⟨first, variant, parts, declaredFirst, declared, root, merged, hvariant⟩ :
      ∃ first variant parts, component.default = some first ∧
        component.variants.find? "titled" = some variant ∧ component.parent = none ∧
        theme.mergedParts first.parts variant.parts = .ok parts ∧
        variant.parts.keys = ["title"] := by
    cases read
    cases found
    exact ⟨_, _, _, rfl, rfl, rfl, rfl, rfl⟩
  obtain ⟨part, hp, hplain⟩ : ∃ part, first.parts.find? "icon" = some part ∧
      part.source = .inline paddedBox := by
    cases read
    cases found
    cases declaredFirst
    exact ⟨_, rfl, rfl⟩
  have untouched : theme.Untouched variant.parts.keys parts "icon" part.source := by
    rw [hvariant, hplain]
    refine ⟨by decide, ?_⟩
    rintro next last ⟨text, ht, -⟩
    cases ht with
    | parent extended => cases extended
    | state declared _ => cases declared
  have hcompiled : aboutVariants ((theme.compile "label").run.run (Stylesheet.empty "go"))
      defaultVariant "titled" (fun _ _ => ()) = some () := by
    rw [compile_of_no_parent found root]
    cases read
    cases found
    decide +kernel
  obtain ⟨compiled, after, d, v, run, hd, hv, -⟩ := exists_variants hcompiled
  exact ⟨proper, theme, compiled, after, d, v, read, run, hd, hv,
    untouched_parts_keep_class proper read found declaredFirst declared (by decide) run hd hv
      (.inl root) merged hp untouched⟩

/-- A card whose default variant changes the icon but has no box, so that the default variant of
the result is the one of its base. -/
def cardOverBase : Value := componentsConfig [
  ("base", [("default", paddedVariant 1 [("icon", 1)])]),
  ("card", [("__extends", .text "base"),
    ("default", .object [("parts", .object [("icon", paddedValue 2)])]),
    ("variants", .object [("big", .object [("theming", paddedValue 3)])])])]

/-- A variant without parts of its own changes the icon, since the result takes its default variant
from the base. -/
theorem big_icon_differs : cardOverBase.Proper ∧
    ∃ theme component first variant compiled after d v,
      Theme.ofConfig cardOverBase = .ok theme ∧
      theme.components.find? "card" = some component ∧ component.default = some first ∧
      first.parts.keys = ["icon"] ∧ component.variants.find? "big" = some variant ∧
      variant.parts = [] ∧
      (theme.compile "card").run.run (Stylesheet.empty "go") = (.ok compiled, after) ∧
      compiled.variant? defaultVariant = some d ∧ compiled.variant? "big" = some v ∧
      d.parts.find? "icon" = some "go2343579091" ∧
      v.parts.find? "icon" = some "go2343579092" := by
  have proper : cardOverBase.Proper := by
    simp [cardOverBase, componentsConfig, paddedVariant, paddedValue, Value.Proper,
      Value.ProperEntries, Table.Distinct, Table.keys]
  obtain ⟨theme, read⟩ : ∃ theme, Theme.ofConfig cardOverBase = .ok theme := ⟨_, rfl⟩
  obtain ⟨component, found⟩ : ∃ component, theme.components.find? "card" = some component := by
    cases read
    exact ⟨_, rfl⟩
  obtain ⟨first, variant, declaredFirst, hfirst, declared, hvariant⟩ : ∃ first variant,
      component.default = some first ∧ first.parts.keys = ["icon"] ∧
        component.variants.find? "big" = some variant ∧ variant.parts = [] := by
    cases read
    cases found
    exact ⟨_, _, rfl, rfl, rfl, rfl⟩
  have walk : theme.Walk "card" ["card"] "base" := by
    cases read
    exact ⟨rfl, .cons_cons rfl (.singleton "base"), by simp⟩
  have root : theme.parent? "base" = none := by
    cases read
    rfl
  have hcompiled : aboutVariants ((theme.compile "card").run.run (Stylesheet.empty "go"))
      defaultVariant "big" (fun d v => (d.parts.find? "icon", v.parts.find? "icon")) =
        some (some "go2343579091", some "go2343579092") := by
    rw [compile_of_root walk (by decide) root]
    cases read
    decide +kernel
  obtain ⟨compiled, after, d, v, run, hd, hv, hicons⟩ := exists_variants hcompiled
  obtain ⟨hicon, hicon'⟩ := Prod.mk.inj hicons
  exact ⟨proper, theme, component, first, variant, compiled, after, d, v, read, found,
    declaredFirst, hfirst, declared, hvariant, run, hd, hv, hicon, hicon'⟩

end Theme

end Theming
