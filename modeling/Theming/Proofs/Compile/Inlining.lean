import Theming.Proofs.Compile.BoxCycles
import Theming.Proofs.Compile.Lists
import Theming.Proofs.Compile.Requests
import Theming.Proofs.Compile.SetReferences

/-! Definitions in the place of references to them. A set in the place of a reference changes
nothing, and neither does a box set wherever labels tell boxes apart. What stands behind the
reference is composed behind a different trail, but no label on it is met again unless there is a
cycle, and then both fail. -/

namespace Theming

open Relation Trail

/-- A reference to a box set is replaced by the box set. -/
inductive Theme.Inlines (theme : Theme) : Source Box → Source Box → Prop where
  | reference {text : String} {box : Box}
      (found : theme.sets.boxSets.find? (referenceName text) = some box) :
      Inlines theme (.reference text) (.inline box)
  | item {source source' : Source Box} (before after : List (Source Box))
      (inner : Inlines theme source source') :
      Inlines theme (.list (before ++ source :: after)) (.list (before ++ source' :: after))
  | state {slots : BoxSlots} {states : States (Source Box)} {state : State}
      {source source' : Source Box} (declared : states state = some source)
      (inner : Inlines theme source source') :
      Inlines theme (.inline (.mk slots states))
        (.inline (.mk slots (states.put state (some source'))))

inductive Theme.InlinesSet (theme : Theme) {kind : SetKind} :
    Source (StyleSet kind) → Source (StyleSet kind) → Prop where
  | reference {text : String} {set : StyleSet kind}
      (found : (theme.sets.table kind).find? (referenceName text) = some set) :
      InlinesSet theme (.reference text) (.inline set)
  | item {source source' : Source (StyleSet kind)} (before after : List (Source (StyleSet kind)))
      (inner : InlinesSet theme source source') :
      InlinesSet theme (.list (before ++ source :: after)) (.list (before ++ source' :: after))

theorem mergeItems_refinedBy {ε α : Type} {css : α → Except ε Styles} {item item' : α}
    (h : RefinedBy (css item) (css item')) {merged : Styles} (before after : List α) :
    RefinedBy (mergeItems css merged (before ++ item :: after))
      (mergeItems css merged (before ++ item' :: after)) := by
  rw [mergeItems_append, mergeItems_append]
  refine (RefinedBy.refl _).bind fun _ => ?_
  rw [mergeItems_cons, mergeItems_cons]
  exact h.bind fun _ => .refl _

namespace Theme

variable {theme : Theme} {context : BoxContext} {kind : SetKind}

theorem namedBoxStyles_refinedBy {trail other : Trail} {reference : String}
    (h : ∀ node, theme.boxNode? context (referenceName reference) = some node →
      Covers (theme.BoxEdge context) BoxNode.label trail other node) :
    RefinedBy (theme.namedBoxStyles context trail reference)
      (theme.namedBoxStyles context other reference) := by
  induction trail, reference using namedBoxStyles.induct theme context generalizing other with
  | case1 trail reference found =>
    have hn := boxTarget?_eq_none_iff.1 found
    rw [namedBoxStyles_of_none hn, namedBoxStyles_of_none hn]
    exact .refl _
  | case2 trail reference label source found seen =>
    obtain ⟨node, hn, hs, rfl⟩ := boxTarget?_eq_some_iff.1 found
    rw [namedBoxStyles_of_node hn hs, if_pos seen]
    exact .error _ _
  | case3 trail reference label source found fresh ih =>
    obtain ⟨node, hn, hs, rfl⟩ := boxTarget?_eq_some_iff.1 found
    have hcovers := h node hn
    rw [namedBoxStyles_of_node hn hs, namedBoxStyles_of_node hn hs, if_neg fresh,
      if_neg (hcovers.fresh fresh)]
    exact sourceStyles_refinedBy source fun text ht =>
      ih text fun next hnext => hcovers.step ⟨source, hs, text, ht, hnext⟩

theorem boxNode?_of_find? (context : BoxContext) {name : String} {box : Box}
    (found : theme.sets.boxSets.find? name = some box) :
    theme.boxNode? context name = some (.set name) ∧
      theme.boxAt? context (.set name) = some (.inline box) := by
  have hat : theme.boxAt? context (.set name) = some (.inline box) := by simp [boxAt?, found]
  exact ⟨by simp [boxNode?, hat], hat⟩

theorem exists_boxNode?_of_reflTransGen {name : String} {node last : BoxNode}
    (hn : theme.boxNode? context name = some node)
    (hw : ReflTransGen (theme.BoxEdge context) node last) :
    ∃ name, theme.boxNode? context name = some last := by
  cases hw with
  | refl => exact ⟨name, hn⟩
  | tail _ along =>
    obtain ⟨_, _, text, _, hlast⟩ := along
    exact ⟨_, hlast⟩

/-- A box set has the styles of a reference to it. The reference has the styles of the box set if
labels tell boxes apart. -/
theorem refinedBy_boxSet {text : String} {box : Box}
    (found : theme.sets.boxSets.find? (referenceName text) = some box) :
    RefinedBy (theme.boxCss context (.reference text)) (theme.boxCss context (.inline box)) ∧
      (¬ context.Ambiguous →
        RefinedBy (theme.boxCss context (.inline box)) (theme.boxCss context (.reference text))) := by
  obtain ⟨hset, hat⟩ := boxNode?_of_find? context found
  have hreference : theme.boxCss context (.reference text) = theme.sourceStyles
      (theme.namedBoxStyles context [(BoxNode.set (referenceName text)).label]) (.inline box) := by
    rw [boxCss, sourceStyles, namedBoxStyles_of_node hset hat, if_neg List.not_mem_nil,
      List.nil_append]
  rw [hreference]
  refine ⟨sourceStyles_refinedBy _ fun next _ => namedBoxStyles_refinedBy fun _ _ => .nil _ _,
    fun hclear => sourceStyles_refinedBy _ fun next ht styles hs => ?_⟩
  refine namedBoxStyles_refinedBy (fun node hn => ?_) styles hs
  refine (explores_namedBoxStyles theme context).covers ⟨next, styles, hn, hs⟩
    ⟨_, hat, next, ht, hn⟩ fun last hw hl => ?_
  obtain ⟨name, hlast⟩ := exists_boxNode?_of_reflTransGen hn hw
  exact BoxContext.eq_of_label_eq hclear (mem_of_boxNode? hlast) (mem_of_boxNode? hset) hl

theorem boxStyles_refinedBy_state {refer : String → Except ThemeError (Option Styles)}
    {source source' : Source Box} {slots : BoxSlots} {states : States (Source Box)} {state : State}
    (declared : states state = some source)
    (h : RefinedBy (theme.sourceStyles refer source) (theme.sourceStyles refer source')) :
    RefinedBy (theme.boxStyles refer (.mk slots states))
      (theme.boxStyles refer (.mk slots (states.put state (some source')))) := by
  have hstate (s : State) : RefinedBy (theme.boxStateStyles refer s (states s))
      (theme.boxStateStyles refer s (states.put state (some source') s)) := by
    by_cases hs : s = state
    · subst hs
      rw [declared, States.put, if_pos rfl, boxStateStyles, boxStateStyles]
      exact h.bind fun _ => .refl _
    · rw [States.put, if_neg hs]
      exact .refl _
  rw [boxStyles, boxStyles]
  exact (RefinedBy.refl _).bind fun _ =>
    (RefinedBy.foldlM fun _ s _ => (hstate s).bind fun _ => .refl _).bind fun _ => .refl _

theorem boxCss_list_refinedBy {source source' : Source Box}
    (h : RefinedBy (theme.boxCss context source) (theme.boxCss context source'))
    (before after : List (Source Box)) :
    RefinedBy (theme.boxCss context (.list (before ++ source :: after)))
      (theme.boxCss context (.list (before ++ source' :: after))) := by
  have hitem : RefinedBy (theme.itemStyles (theme.namedBoxStyles context []) source)
      (theme.itemStyles (theme.namedBoxStyles context []) source') := h.map _
  rw [boxCss, boxCss, sourceStyles, sourceStyles, listStyles_eq_mergeItems,
    listStyles_eq_mergeItems]
  exact (mergeItems_refinedBy hitem before after).bind fun _ => .refl _

theorem boxCss_state_refinedBy {source source' : Source Box} {slots : BoxSlots}
    {states : States (Source Box)} {state : State} (declared : states state = some source)
    (h : RefinedBy (theme.boxCss context source) (theme.boxCss context source')) :
    RefinedBy (theme.boxCss context (.inline (.mk slots states)))
      (theme.boxCss context (.inline (.mk slots (states.put state (some source'))))) := by
  rw [boxCss, boxCss, sourceStyles, sourceStyles]
  exact (boxStyles_refinedBy_state declared h).bind fun _ => .refl _

theorem Inlines.refinedBy {source source' : Source Box} (h : theme.Inlines source source') :
    RefinedBy (theme.boxCss context source) (theme.boxCss context source') := by
  induction h with
  | reference found => exact (refinedBy_boxSet found).1
  | item before after _ ih => exact boxCss_list_refinedBy ih before after
  | state declared _ ih => exact boxCss_state_refinedBy declared ih

theorem Inlines.refines (hclear : ¬ context.Ambiguous) {source source' : Source Box}
    (h : theme.Inlines source source') :
    RefinedBy (theme.boxCss context source') (theme.boxCss context source) := by
  induction h with
  | reference found => exact (refinedBy_boxSet found).2 hclear
  | item before after _ ih => exact boxCss_list_refinedBy ih before after
  | @state slots states state source source' declared _ ih =>
    have hput : states.put state (some source') state = some source' := if_pos rfl
    have hback : (states.put state (some source')).put state (some source) = states := by
      funext s
      by_cases hs : s = state
      · subst hs
        simp [States.put, declared]
      · simp [States.put, hs]
    have hrefined : RefinedBy _ (theme.boxCss context (.inline (.mk slots _))) :=
      boxCss_state_refinedBy hput ih
    rwa [hback] at hrefined

theorem InlinesSet.setStyles_toOption {source source' : Source (StyleSet kind)}
    (h : theme.InlinesSet source source') :
    (theme.setStyles source).toOption = (theme.setStyles source').toOption := by
  induction h with
  | reference found =>
    rw [setStyles, setStyles]
    exact namedSetStyles_toOption found
  | item before after _ ih =>
    obtain ⟨hto, hback⟩ := toOption_eq_iff.1 ih
    rw [setStyles, setStyles, setListStyles_eq_mergeItems, setListStyles_eq_mergeItems]
    exact toOption_eq_iff.2
      ⟨mergeItems_refinedBy hto before after, mergeItems_refinedBy hback before after⟩

end Theme

variable {σ α β : Type}

/-- Two actions leave an engine in the same state, and have the same result or both fail. -/
def Compile.Alike (action action' : Compile σ α) : Prop :=
  ∀ engine, (action.run.run engine).1.toOption = (action'.run.run engine).1.toOption ∧
    (action.run.run engine).2 = (action'.run.run engine).2

namespace Compile

theorem Alike.refl (action : Compile σ α) : Alike action action := fun _ => ⟨rfl, rfl⟩

theorem Alike.lift {x y : Except ThemeError α} (h : x.toOption = y.toOption) :
    Alike (liftM x : Compile σ α) (liftM y) := fun _ => ⟨h, rfl⟩

theorem Alike.bind {action action' : Compile σ α} {next next' : α → Compile σ β}
    (h : Alike action action') (hn : ∀ a, Alike (next a) (next' a)) :
    Alike (action >>= next) (action' >>= next') := by
  intro engine
  obtain ⟨hresult, hengine⟩ := h engine
  rw [run_bind, run_bind]
  rcases hrun : action.run.run engine with ⟨result, after⟩
  rcases hrun' : action'.run.run engine with ⟨result', after'⟩
  rw [hrun, hrun'] at hresult hengine
  cases hengine
  cases result with
  | error error =>
    cases result' with
    | error error' => exact ⟨rfl, rfl⟩
    | ok a => cases hresult
  | ok a =>
    cases result' with
    | error error' => cases hresult
    | ok a' =>
      cases hresult
      exact hn a after

end Compile

open Compile

namespace Theme

variable {theme : Theme} {context : BoxContext} {source source' : Source Box} [StyleEngine σ]

theorem alike_compileVariant
    (h : (theme.boxCss context source).toOption = (theme.boxCss context source').toOption)
    (name : String) (variant : Variant) (parts : Table (Source Box)) :
    Alike (theme.compileVariant name { variant with theming := some source } parts context :
        Compile σ _)
      (theme.compileVariant name { variant with theming := some source' } parts context) :=
  (Alike.lift h).bind fun _ => .refl _

theorem variants_compile {name : String} {variant : Variant}
    (found : theme.components.find? name = some ⟨none, some variant, []⟩) :
    (CompiledComponent.variants <$> theme.compile name : Compile σ _) = (do
      let parts ← (theme.mergedParts variant.parts [] : Except _ _)
      let first ← theme.compileVariant defaultVariant variant parts .global
      return CompiledVariant.layerAll [] first.toList) := by
  rw [compile, compileFrom]
  split
  · next h => simp [found] at h
  · next component h =>
    obtain rfl : component = ⟨none, some variant, []⟩ := by simpa [found] using h.symm
    simp [ownVariants]

theorem alike_compile {a b : String} {variant : Variant}
    (ha : theme.components.find? a = some ⟨none, some { variant with theming := some source }, []⟩)
    (hb : theme.components.find? b = some ⟨none, some { variant with theming := some source' }, []⟩)
    (h : (theme.boxCss .global source).toOption = (theme.boxCss .global source').toOption) :
    Alike (CompiledComponent.variants <$> theme.compile a : Compile σ _)
      (CompiledComponent.variants <$> theme.compile b) := by
  rw [variants_compile ha, variants_compile hb]
  exact (Alike.refl _).bind fun parts =>
    (alike_compileVariant h defaultVariant variant parts).bind fun _ => .refl _

theorem Inlines.boxCss_toOption (hclear : ¬ context.Ambiguous)
    (h : ReflTransGen theme.Inlines source source') :
    (theme.boxCss context source).toOption = (theme.boxCss context source').toOption := by
  induction h with
  | refl => rfl
  | tail _ hone ih =>
    exact ih.trans (toOption_eq_iff.2 ⟨hone.refinedBy, hone.refines hclear⟩)

/-- Definitions can take the place of references to them. For boxes the result is at least as
defined as before, and the same if labels tell boxes apart. For sets it is the same. A variant then
asks for the same classes, and so do two components that only differ in such a box. -/
theorem references_transparent (theme : Theme) :
    (∀ context source source', ReflTransGen theme.Inlines source source' →
      RefinedBy (theme.boxCss context source) (theme.boxCss context source') ∧
      (¬ context.Ambiguous →
        (theme.boxCss context source).toOption = (theme.boxCss context source').toOption)) ∧
    (∀ (kind : SetKind) (source source' : Source (StyleSet kind)),
      ReflTransGen theme.InlinesSet source source' →
        (theme.setStyles source).toOption = (theme.setStyles source').toOption) ∧
    ∀ (σ : Type) [StyleEngine σ] (variant : Variant) (source source' : Source Box),
      ReflTransGen theme.Inlines source source' →
      (∀ context name parts, ¬ context.Ambiguous →
        Alike (theme.compileVariant name { variant with theming := some source } parts context :
            Compile σ _)
          (theme.compileVariant name { variant with theming := some source' } parts context)) ∧
      ∀ a b,
        theme.components.find? a = some ⟨none, some { variant with theming := some source }, []⟩ →
        theme.components.find? b = some ⟨none, some { variant with theming := some source' }, []⟩ →
        Alike (CompiledComponent.variants <$> theme.compile a : Compile σ _)
          (CompiledComponent.variants <$> theme.compile b) := by
  refine ⟨fun context source source' h => ⟨?_, fun hclear => Inlines.boxCss_toOption hclear h⟩,
    fun kind source source' h => ?_, fun σ _ variant source source' h => ⟨?_, ?_⟩⟩
  · induction h with
    | refl => exact .refl _
    | tail _ hone ih => exact ih.trans hone.refinedBy
  · induction h with
    | refl => rfl
    | tail _ hone ih => exact ih.trans hone.setStyles_toOption
  · intro context name parts hclear
    exact alike_compileVariant (Inlines.boxCss_toOption hclear h) name variant parts
  · intro a b ha hb
    have hglobal : ¬ BoxContext.global.Ambiguous := fun h => h
    exact alike_compile ha hb (Inlines.boxCss_toOption hglobal h)

/-- A reference whose label is shared fails where its definition does not. -/
theorem shared_label_not_transparent :
    sharedLabel.Inlines (.reference "$$variants.x") (.inline (boxExtending "$$x")) ∧
    sharedLabel.boxCss (.component "boxSets") (.reference "$$variants.x") =
      .error (.cycle .boxes ["boxSets.variants.x", "boxSets.variants.x"]) ∧
    sharedLabel.boxCss (.component "boxSets") (.inline (boxExtending "$$x")) =
      .ok (some [("padding", .declaration "1")]) ∧
    (BoxContext.component "boxSets").Ambiguous := by
  have hinlines : sharedLabel.Inlines (.reference "$$variants.x") (.inline (boxExtending "$$x")) :=
    .reference (by rfl)
  have hinner : sharedLabel.namedBoxStyles (.component "boxSets") [] "$$x" =
      .ok (some [("padding", .declaration "1")]) := by
    rw [namedBoxStyles_of_node boxNode?_sharedLabel.2 rfl, if_neg (by decide)]
    rfl
  have hinline : sharedLabel.boxCss (.component "boxSets") (.inline (boxExtending "$$x")) =
      .ok (some [("padding", .declaration "1")]) := by
    simp only [boxCss, sourceStyles, boxExtending, boxStyles, plainStyles, slotStyles, hinner]
    rfl
  refine ⟨hinlines, boxCss_sharedLabel, hinline, Classical.byContradiction fun hclear => ?_⟩
  have hsame := ((references_transparent sharedLabel).1 _ _ _ (.single hinlines)).2 hclear
  rw [boxCss_sharedLabel, hinline] at hsame
  cases hsame

end Theme

end Theming
