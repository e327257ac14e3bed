import Theming.Proofs.Agreement
import Theming.Proofs.Compile.Parts
import Theming.Proofs.Merging

/-! The default props that variants inherit. A variant that declares none has an empty object in
their place. Laid over what is inherited, it leaves objects as they are, but everything else gives
way to it. What is inherited does not depend on the style engine, which only decides on classes. -/

namespace Theming

namespace Value

def IsObject (value : Value) : Prop := ∃ entries, value = .object entries

variable {value : Value}

theorem deepMerge_empty_of_isObject (h : value.IsObject) :
    value.deepMerge (.object []) = value := by
  obtain ⟨entries, rfl⟩ := h
  rw [deepMerge, merge, mergeAt_objects rfl, mergeEntries]

theorem deepMerge_empty_of_not_isObject (h : ¬ value.IsObject) :
    value.deepMerge (.object []) = .object [] := by
  have hdiffer : ¬ value.SameStructure (.object []) := by
    cases value with
    | object entries => exact absurd ⟨entries, rfl⟩ h
    | _ => exact id
  exact mergeAt_of_not_sameStructure hdiffer

/-- Only an object survives when an empty object is laid over it. -/
theorem deepMerge_empty_eq_self_iff : value.deepMerge (.object []) = value ↔ value.IsObject := by
  refine ⟨fun h => ?_, deepMerge_empty_of_isObject⟩
  by_contra hn
  rw [deepMerge_empty_of_not_isObject hn] at h
  exact hn ⟨[], h.symm⟩

end Value

namespace Compile

variable {σ τ α β γ δ ι : Type}

/-- On any two engines, both actions fail or both have results that are the same in what is looked
at. -/
def SameUpTo (f : α → γ) (action : Compile σ α) (action' : Compile τ α) : Prop :=
  ∀ a b, AgreeUpTo f (action.run.run a).1 (action'.run.run b).1

namespace SameUpTo

variable {f : α → γ} {g : β → δ}

theorem pure {a b : α} (h : f a = f b) :
    SameUpTo f (Pure.pure a : Compile σ α) (Pure.pure b : Compile τ α) :=
  fun _ _ => .ok h

theorem throw (error : ThemeError) :
    SameUpTo f (throw error : Compile σ α) (throw error : Compile τ α) :=
  fun _ _ => .refl _

theorem lift (result : Except ThemeError α) :
    SameUpTo f (liftM result : Compile σ α) (liftM result : Compile τ α) :=
  fun _ _ => .refl _

theorem bind {action : Compile σ α} {action' : Compile τ α} {next : α → Compile σ β}
    {next' : α → Compile τ β} (h : SameUpTo f action action')
    (hn : ∀ a b, f a = f b → SameUpTo g (next a) (next' b)) :
    SameUpTo g (action >>= next) (action' >>= next') := by
  intro s t
  have hst := h s t
  rw [run_bind, run_bind]
  rcases hs : action.run.run s with ⟨result, s'⟩
  rcases ht : action'.run.run t with ⟨result', t'⟩
  rw [hs, ht] at hst
  cases result with
  | error error =>
    cases result' with
    | error error' => rfl
    | ok b => cases hst
  | ok a =>
    cases result' with
    | error error' => cases hst
    | ok b => exact hn a b (Option.some.inj hst) s' t'

theorem bind_same {action : Compile σ α} {action' : Compile τ α} {next : α → Compile σ β}
    {next' : α → Compile τ β} (h : SameUpTo id action action')
    (hn : ∀ a, SameUpTo g (next a) (next' a)) :
    SameUpTo g (action >>= next) (action' >>= next') := by
  refine h.bind ?_
  rintro a _ rfl
  exact hn a

theorem mapM {step : ι → Compile σ α} {step' : ι → Compile τ α}
    (h : ∀ i, SameUpTo f (step i) (step' i)) (l : List ι) :
    SameUpTo (List.map f) (l.mapM step) (l.mapM step') := by
  induction l with
  | nil => exact .pure rfl
  | cons i rest ih =>
    rw [List.mapM_cons, List.mapM_cons]
    exact (h i).bind fun a b hab => ih.bind fun as bs habs => .pure (by simp [hab, habs])

theorem exists_ok {action : Compile σ α} {action' : Compile τ α} (h : SameUpTo f action action')
    {engine after : σ} {a : α} (run : action.run.run engine = (.ok a, after)) (other : τ) :
    ∃ b last, action'.run.run other = (.ok b, last) ∧ f a = f b := by
  have hrun := h engine other
  rw [run] at hrun
  rcases hb : action'.run.run other with ⟨result, last⟩
  rw [hb] at hrun
  cases result with
  | error error => cases hrun
  | ok b => exact ⟨b, last, rfl, Option.some.inj hrun⟩

end SameUpTo

end Compile

namespace CompiledVariant

def namedProps (variant : CompiledVariant) : String × Value :=
  (variant.variant, variant.defaultProps)

theorem namedProps_layer {v w : CompiledVariant} {base base' : List CompiledVariant}
    (h : v.namedProps = w.namedProps) (hb : base.map namedProps = base'.map namedProps) :
    (v.layer base).map namedProps = (w.layer base').map namedProps := by
  obtain ⟨hname, hprops⟩ := Prod.mk.inj h
  induction base generalizing base' with
  | nil =>
    obtain rfl : base' = [] := by simpa using hb.symm
    simpa [layer] using h
  | cons b rest ih =>
    cases base' with
    | nil => cases hb
    | cons b' rest' =>
      obtain ⟨hfirst, hrest⟩ := List.cons.inj hb
      obtain ⟨hbname, hbprops⟩ := Prod.mk.inj hfirst
      rw [layer, layer, hbname, hname]
      split
      · simp only [List.map_cons, namedProps, onto, hbname, hprops, hbprops]
        exact congrArg _ hrest
      · rw [List.map_cons, List.map_cons, hfirst, ih hrest]

theorem namedProps_layerAll {base base' own own' : List CompiledVariant}
    (hb : base.map namedProps = base'.map namedProps)
    (ho : own.map namedProps = own'.map namedProps) :
    (layerAll base own).map namedProps = (layerAll base' own').map namedProps := by
  induction own generalizing base base' own' with
  | nil =>
    obtain rfl : own' = [] := by simpa using ho.symm
    exact hb
  | cons v rest ih =>
    cases own' with
    | nil => cases ho
    | cons w rest' =>
      obtain ⟨hfirst, hrest⟩ := List.cons.inj ho
      change (layerAll (v.layer base) rest).map namedProps =
        (layerAll (w.layer base') rest').map namedProps
      exact ih (namedProps_layer hfirst hb) hrest

theorem namedProps_filterMap {compiled compiled' : List (Option CompiledVariant)}
    (h : compiled.map (Option.map namedProps) = compiled'.map (Option.map namedProps)) :
    (compiled.filterMap id).map namedProps = (compiled'.filterMap id).map namedProps := by
  have hmap (l : List (Option CompiledVariant)) : (l.filterMap id).map namedProps =
      (l.map (Option.map namedProps)).filterMap id := by
    simp [List.map_filterMap, List.filterMap_map]
  rw [hmap, hmap, h]

theorem exists_find?_of_namedProps {variants variants' : List CompiledVariant}
    (h : variants.map namedProps = variants'.map namedProps) {name : String} {v : CompiledVariant}
    (hv : variants.find? (·.variant == name) = some v) :
    ∃ w, variants'.find? (·.variant == name) = some w ∧ w.defaultProps = v.defaultProps := by
  induction variants generalizing variants' with
  | nil => cases hv
  | cons first rest ih =>
    cases variants' with
    | nil => cases h
    | cons first' rest' =>
      obtain ⟨hfirst, hrest⟩ := List.cons.inj h
      obtain ⟨hname, hprops⟩ := Prod.mk.inj hfirst
      by_cases hn : first.variant = name
      · obtain rfl : first = v := by simpa [hn] using hv
        exact ⟨first', by simp [← hname, hn], hprops.symm⟩
      · obtain ⟨w, hw, hsame⟩ := ih hrest (by simpa [hn] using hv)
        exact ⟨w, by simpa [← hname, hn] using hw, hsame⟩

end CompiledVariant

namespace Theme

open Compile CompiledVariant

section

variable {σ τ : Type} [StyleEngine σ] [StyleEngine τ] (theme : Theme)

theorem sameUpTo_className (styles : Styles) : SameUpTo (fun _ => ())
    (Compile.className styles : Compile σ _) (Compile.className styles : Compile τ _) := by
  unfold Compile.className
  split
  · exact .pure rfl
  · exact fun _ _ => .ok rfl

theorem sameUpTo_compileVariant (name : String) (variant : Variant)
    (parts : Table (Source Box)) (context : BoxContext) : SameUpTo (Option.map namedProps)
      (theme.compileVariant name variant parts context : Compile σ _)
      (theme.compileVariant name variant parts context : Compile τ _) := by
  unfold compileVariant
  cases variant.theming with
  | none => exact .pure rfl
  | some theming =>
    refine (SameUpTo.lift _).bind_same fun styles => ?_
    cases styles with
    | none => exact .pure rfl
    | some styles =>
      refine (sameUpTo_className styles).bind fun className className' _ => ?_
      refine SameUpTo.bind (SameUpTo.mapM (f := fun _ => ()) (fun part => ?_) parts)
        fun classes classes' _ => ?_
      · exact (SameUpTo.lift _).bind_same fun styles =>
          (sameUpTo_className _).bind fun _ _ _ => .pure rfl
      · cases variant.defaultProps with
        | none => exact (SameUpTo.pure rfl).bind_same fun props => .pure rfl
        | some declared => exact (SameUpTo.lift _).bind_same fun props => .pure rfl

theorem sameUpTo_ownVariants (name : String) (component : Component) :
    SameUpTo (List.map namedProps) (theme.ownVariants name component : Compile σ _)
      (theme.ownVariants name component : Compile τ _) := by
  rw [ownVariants_eq, ownVariants_eq]
  refine SameUpTo.bind (SameUpTo.mapM (fun entry => ?_) _) fun compiled compiled' h =>
    .pure (namedProps_filterMap h)
  exact (SameUpTo.lift _).bind_same fun parts => theme.sameUpTo_compileVariant _ _ parts _

/-- The engine decides on classes, but not on names and default props, nor on success. -/
theorem sameUpTo_compileFrom (trail : Trail) (name : String) :
    SameUpTo (fun compiled => compiled.variants.map namedProps)
      (theme.compileFrom trail name : Compile σ _)
      (theme.compileFrom trail name : Compile τ _) := by
  fun_induction compileFrom (σ := σ) theme trail name
  case case1 name found =>
    rw [compileFrom_eq (σ := τ), found]
    exact .pure rfl
  case case2 name component found seen =>
    rw [compileFrom_eq (σ := τ), found]
    simp only [if_pos seen]
    exact .throw _
  case case3 name component found seen _ parent hparent ih =>
    rw [compileFrom_eq (σ := τ), found]
    simp only [if_neg seen, hparent, map_eq_pure_bind]
    refine SameUpTo.bind (f := List.map namedProps) (ih.bind fun _ _ h => .pure h) fun _ _ hi => ?_
    exact (theme.sameUpTo_ownVariants name component).bind fun _ _ ho =>
      .pure (namedProps_layerAll hi ho)
  case case4 name component found seen _ hroot =>
    rw [compileFrom_eq (σ := τ), found]
    simp only [if_neg seen, hroot]
    refine (SameUpTo.pure (f := List.map namedProps) rfl).bind fun _ _ hi => ?_
    exact (theme.sameUpTo_ownVariants name component).bind fun _ _ ho =>
      .pure (namedProps_layerAll hi ho)

end

variable {σ : Type} [StyleEngine σ] {theme : Theme} {name parent last : String}

theorem exists_walk_to_root {engine after : σ} {compiled : CompiledComponent}
    (run : (theme.compile name).run.run engine = (.ok compiled, after)) :
    ∃ earlier last, theme.Walk name earlier last ∧ last ∉ earlier ∧ theme.parent? last = none := by
  obtain ⟨earlier, last, head, along, distinct, event⟩ :=
    exists_walk theme [] name List.nodup_nil
  have walk : theme.Walk name earlier last := ⟨head, along, distinct⟩
  have fresh : last ∉ earlier := by
    intro seen
    rw [compile_of_cycle walk seen] at run
    cases run
  exact ⟨earlier, last, walk, fresh, event.resolve_left (by simpa using fresh)⟩

theorem Walk.tail {rest : List String} (walk : theme.Walk name (name :: rest) last)
    (hparent : theme.parent? name = some parent) : theme.Walk parent rest last := by
  obtain ⟨next, hnext⟩ : ∃ next, (rest ++ [last]).head? = some next := by
    cases rest <;> simp
  obtain ⟨hstep, along⟩ := List.isChain_cons.1 walk.along
  obtain rfl : parent = next := Option.some.inj (hparent.symm.trans (hstep next hnext))
  exact ⟨hnext, along, (List.nodup_cons.1 walk.distinct).2⟩

theorem compile_of_parent (hparent : theme.parent? name = some parent) {engine after : σ}
    {compiled : CompiledComponent}
    (run : (theme.compile name).run.run engine = (.ok compiled, after)) :
    (theme.compile name : Compile σ _) = (do
      let base ← theme.compile parent
      let own ← theme.ownOf name
      return ⟨name, CompiledVariant.layerAll base.variants own⟩) := by
  obtain ⟨earlier, last, walk, fresh, root⟩ := exists_walk_to_root run
  obtain ⟨rest, rfl⟩ : ∃ rest, earlier = name :: rest := by
    cases earlier with
    | nil =>
      obtain rfl : last = name := by simpa using walk.head?
      rw [root] at hparent
      cases hparent
    | cons first rest =>
      obtain rfl : first = name := by simpa using walk.head?
      exact ⟨rest, rfl⟩
  have hfresh : last ∉ rest := fun hm => fresh (List.mem_cons_of_mem _ hm)
  rw [compile_of_root walk fresh root, compile_of_root (walk.tail hparent) hfresh root]
  simp [List.mapM_append, CompiledVariant.layerAll, List.foldl_append]

theorem OwnCompileTo.find?_of_not_shows {given : Styles → String → Prop} {component : Component}
    {own : List CompiledVariant} (h : theme.OwnCompileTo given name component own)
    (distinct : component.Distinct) {entry : VariantEntry} (he : entry ∈ component.entries name)
    (hs : theme.shows entry = false) : own.find? (·.variant == entry.name) = none := by
  cases hf : own.find? (·.variant == entry.name) with
  | none => rfl
  | some compiled => simp [h.shows_of_find? distinct he hf] at hs

/-- What a component has for a variant without default props, laid over an inherited one. -/
theorem OwnCompileTo.exists_layered {given : Styles → String → Prop} {component : Component}
    {base own : List CompiledVariant} (h : theme.OwnCompileTo given name component own)
    (distinct : component.Distinct) {entry : VariantEntry} (he : entry ∈ component.entries name)
    (hprops : entry.variant.defaultProps = none) {inherited : CompiledVariant}
    (hi : base.find? (·.variant == entry.name) = some inherited) :
    ∃ variant, (layerAll base own).find? (·.variant == entry.name) = some variant ∧
      variant.defaultProps = if theme.shows entry
        then inherited.defaultProps.deepMerge (.object []) else inherited.defaultProps := by
  have hfind := find?_layerAll_of_nodup base (h.nodup (distinct.nodup_entries name)) entry.name
  rw [hi] at hfind
  cases hs : theme.shows entry with
  | false =>
    rw [h.find?_of_not_shows distinct he hs] at hfind
    exact ⟨inherited, hfind, rfl⟩
  | true =>
    obtain ⟨variant, hvariant, hmade⟩ := h.find?_of_shows distinct he hs
    rw [hvariant] at hfind
    have hempty : variant.defaultProps = .object [] := by
      have hdeclared := hmade.defaultProps
      rwa [hprops] at hdeclared
    refine ⟨variant.onto inherited, hfind, ?_⟩
    rw [onto, hempty]
    rfl

/-- If a component compiles, so does the one that it extends, on any engine. A variant without
default props keeps the inherited ones exactly if they are an object, and has an empty object
otherwise. If it has no box, the inherited variant stays as it is. -/
theorem inherited_props_kept_iff_object {config : Value} (proper : config.Proper)
    (read : Theme.ofConfig config = .ok theme) {component : Component}
    (found : theme.components.find? name = some component) {reference : String}
    (extended : component.parent = some reference) {engine after : σ}
    {compiled : CompiledComponent}
    (run : (theme.compile name).run.run engine = (.ok compiled, after)) {τ : Type}
    [StyleEngine τ] (other : τ) :
    ∃ base last, (theme.compile (referenceName reference)).run.run other = (.ok base, last) ∧
      ∀ entry ∈ component.entries name, entry.variant.defaultProps = none →
        ∀ inherited, base.variant? entry.name = some inherited →
          ∃ variant, compiled.variant? entry.name = some variant ∧
            (theme.shows entry = true →
              (variant.defaultProps = inherited.defaultProps ↔ inherited.defaultProps.IsObject) ∧
              (¬ inherited.defaultProps.IsObject → variant.defaultProps = .object [])) ∧
            (theme.shows entry = false → variant.defaultProps = inherited.defaultProps) := by
  have distinct : component.Distinct :=
    distinct_of_ofConfig proper read _ (Table.mem_of_find? found)
  cases hp : theme.components.find? (referenceName reference) with
  | none =>
    refine ⟨⟨referenceName reference, []⟩, other, ?_, fun entry _ _ inherited hi => by cases hi⟩
    rw [compile, compileFrom_eq, hp]
    rfl
  | some extendedComponent =>
    have hparent : theme.parent? name = some (referenceName reference) := by
      simp [parent?, found, extended, hp]
    rw [compile_of_parent hparent run] at run
    obtain ⟨below, between, hbelow, run⟩ := run_bind_ok run
    obtain ⟨own, _, hown, run⟩ := run_bind_ok run
    cases run
    obtain ⟨base, last, hbase, hsame⟩ :=
      (theme.sameUpTo_compileFrom [] (referenceName reference)).exists_ok hbelow other
    refine ⟨base, last, hbase, fun entry he hprops inherited hi => ?_⟩
    obtain ⟨under, hunder, hequal⟩ := exists_find?_of_namedProps hsame.symm hi
    simp only [ownOf, found] at hown
    obtain ⟨-, hmade⟩ := yields_own assigns_handedOut name component between own _ trivial hown
    obtain ⟨variant, hvariant, hresult⟩ := hmade.exists_layered distinct he hprops hunder
    rw [hequal] at hresult
    refine ⟨variant, hvariant, fun hs => ⟨?_, fun hn => ?_⟩, fun hs => ?_⟩
    · rw [hresult, if_pos hs, Value.deepMerge_empty_eq_self_iff]
    · rw [hresult, if_pos hs, Value.deepMerge_empty_of_not_isObject hn]
    · rw [hresult, hs, if_neg Bool.false_ne_true]

/-- A card without default props of its own, over a base that has a flag, an object and a list in
their place. The flat card has no box. -/
def plainCardConfig : Value :=
  let variant (padding : Int) (props : Value) : Value := .object [
    ("theming", paddedValue padding), ("defaultProps", props)]
  componentsConfig [
    ("base", [("default", variant 1 (.flag true)), ("variants", .object [
      ("framed", variant 2 (.object [("size", .number (.integer 1))])),
      ("flat", variant 3 (.list [.flag true]))])]),
    ("card", [("__extends", .text "base"), ("default", variant 4 .null), ("variants", .object [
      ("framed", .object [("theming", paddedValue 5)]), ("flat", .object [])])])]

theorem plain_card_loses_flag : plainCardConfig.Proper ∧
    ∃ theme component base last compiled after d framed flat,
      Theme.ofConfig plainCardConfig = .ok theme ∧
      theme.components.find? "card" = some component ∧ component.parent = some "base" ∧
      (theme.compile "base").run.run (Requested.mk []) = (.ok base, last) ∧
      base.variants.map namedProps = [("default", .flag true),
        ("framed", .object [("size", .number (.integer 1))]), ("flat", .list [.flag true])] ∧
      (theme.compile "card").run.run (Requested.mk []) = (.ok compiled, after) ∧
      compiled.variant? "default" = some d ∧ d.defaultProps = .object [] ∧
      compiled.variant? "framed" = some framed ∧
      framed.defaultProps = .object [("size", .number (.integer 1))] ∧
      compiled.variant? "flat" = some flat ∧ flat.defaultProps = .list [.flag true] := by
  have proper : plainCardConfig.Proper := by
    simp [plainCardConfig, componentsConfig, paddedValue, Value.Proper, Value.ProperEntries,
      Value.ProperItems, Table.Distinct, Table.keys]
  obtain ⟨theme, read⟩ : ∃ theme, Theme.ofConfig plainCardConfig = .ok theme := ⟨_, rfl⟩
  obtain ⟨component, found, extended⟩ : ∃ component,
      theme.components.find? "card" = some component ∧ component.parent = some "base" := by
    cases read
    exact ⟨_, rfl, rfl⟩
  have root : theme.parent? "base" = none := by
    cases read
    rfl
  have walk : theme.Walk "card" ["card"] "base" := by
    cases read
    exact ⟨rfl, .cons_cons rfl (.singleton "base"), by simp⟩
  obtain ⟨compiled, after, run⟩ : ∃ compiled after,
      (theme.compile "card").run.run (Requested.mk []) = (.ok compiled, after) := by
    rw [compile_of_root walk (by decide) root]
    cases read
    exact ⟨_, _, rfl⟩
  obtain ⟨base, last, hbase, inherits⟩ :=
    inherited_props_kept_iff_object proper read found extended run (Requested.mk [])
  have alone : theme.Walk "base" [] "base" := ⟨rfl, .singleton "base", .nil⟩
  have hbase' : (theme.compile "base").run.run (Requested.mk []) = (.ok ⟨"base", [
      ⟨"default", "c", [], .flag true⟩,
      ⟨"framed", "c", [], .object [("size", .number (.integer 1))]⟩,
      ⟨"flat", "c", [], .list [.flag true]⟩]⟩, ⟨[
        [("padding", .declaration "1")], [("padding", .declaration "2")],
        [("padding", .declaration "3")]]⟩) := by
    rw [compile_of_root alone (by decide) root]
    cases read
    rfl
  cases hbase.symm.trans hbase'
  obtain ⟨a, b, c, hentries, ha, hb, hc⟩ : ∃ a b c, component.entries "card" = [a, b, c] ∧
      (a.name, a.variant.defaultProps, theme.shows a) = ("default", none, true) ∧
      (b.name, b.variant.defaultProps, theme.shows b) = ("framed", none, true) ∧
      (c.name, c.variant.defaultProps, theme.shows c) = ("flat", none, false) := by
    cases read
    cases found
    exact ⟨_, _, _, rfl, rfl, rfl, rfl⟩
  simp only [Prod.mk.injEq] at ha hb hc
  simp only [hentries, List.forall_mem_cons] at inherits
  obtain ⟨hdefault, hframed, hflat, -⟩ := inherits
  rw [ha.1] at hdefault
  rw [hb.1] at hframed
  rw [hc.1] at hflat
  have hflag : ¬ (Value.flag true).IsObject := by
    rintro ⟨_, h⟩
    cases h
  obtain ⟨d, hd, hdprops, -⟩ := hdefault ha.2.1 _ rfl
  obtain ⟨framed, hf, hfprops, -⟩ := hframed hb.2.1 _ rfl
  obtain ⟨flat, hl, -, hlprops⟩ := hflat hc.2.1 _ rfl
  exact ⟨proper, theme, component, _, _, compiled, after, d, framed, flat, read, found, extended,
    hbase, rfl, run, hd, (hdprops ha.2.2).2 hflag, hf, (hfprops hb.2.2).1.2 ⟨_, rfl⟩, hl,
    hlprops hc.2.2⟩

end Theme

end Theming
