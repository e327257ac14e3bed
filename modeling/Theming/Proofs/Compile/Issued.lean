import Theming.Proofs.Compile.Layering
import Theming.Proofs.Compile.Requests

/-! Where the classes of compiled components come from. Each of them is empty or was given out by
the engine when it was asked for the map of a box. -/

namespace Theming

variable {σ α β γ : Type} [StyleEngine σ]

/-- The engine gives out the name when it is asked for the maps one after the other. -/
def StyleEngine.Gives (engine : σ) (maps : List Styles) (name : String) : Prop :=
  ∃ before styles after, maps = before ++ styles :: after ∧
    name = (StyleEngine.emitClass (StyleEngine.emitAll engine before) [styles]).1

theorem StyleEngine.emitAll_append (engine : σ) (maps more : List Styles) :
    StyleEngine.emitAll engine (maps ++ more) =
      StyleEngine.emitAll (StyleEngine.emitAll engine maps) more := by
  simp only [StyleEngine.emitAll, List.foldl_append]

theorem StyleEngine.Gives.append_right {engine : σ} {maps : List Styles} {name : String}
    (h : StyleEngine.Gives engine maps name) (more : List Styles) :
    StyleEngine.Gives engine (maps ++ more) name := by
  obtain ⟨before, styles, after, rfl, hname⟩ := h
  exact ⟨before, styles, after ++ more, by simp, hname⟩

theorem StyleEngine.Gives.append_left {engine : σ} {maps more : List Styles} {name : String}
    (h : StyleEngine.Gives (StyleEngine.emitAll engine maps) more name) :
    StyleEngine.Gives engine (maps ++ more) name := by
  obtain ⟨before, styles, after, rfl, hname⟩ := h
  refine ⟨maps ++ before, styles, after, by simp, ?_⟩
  rw [StyleEngine.emitAll_append]
  exact hname

namespace Compile

/-- An action only asks for classes of maps with a property. The classes in its result are known
before, empty or given out for these maps. -/
def Issues (P : Styles → Prop) (known : List String) (classes : α → List String)
    (action : Compile σ α) : Prop :=
  ∀ engine, ∃ maps : List Styles, (∀ styles ∈ maps, P styles) ∧
    (action.run.run engine).2 = StyleEngine.emitAll engine maps ∧
    ∀ a, (action.run.run engine).1 = .ok a → ∀ name ∈ classes a,
      name ∈ known ∨ name = "" ∨ StyleEngine.Gives engine maps name

variable {P : Styles → Prop} {known : List String} {classes : α → List String}
  {classes' : β → List String}

theorem Issues.pure {a : α} (h : ∀ name ∈ classes a, name ∈ known ∨ name = "") :
    Issues P known classes (pure a : Compile σ α) := by
  refine fun engine => ⟨[], by simp, rfl, fun b hb name hn => ?_⟩
  cases hb
  exact (h name hn).imp_right .inl

theorem Issues.throw (error : ThemeError) : Issues P known classes (throw error : Compile σ α) :=
  fun _ => ⟨[], by simp, rfl, nofun⟩

theorem Issues.mono {known' : List String} {fewer : α → List String} {action : Compile σ α}
    (h : Issues P known classes action) (hk : ∀ name ∈ known, name ∈ known')
    (hc : ∀ a, ∀ name ∈ fewer a, name ∈ classes a) : Issues P known' fewer action := by
  intro engine
  obtain ⟨maps, hmaps, hafter, hnames⟩ := h engine
  exact ⟨maps, hmaps, hafter, fun a ha name hn => (hnames a ha name (hc a name hn)).imp_left (hk name)⟩

theorem Issues.bind {action : Compile σ α} {next : α → Compile σ β}
    (h : Issues P known classes action)
    (hn : ∀ a, Issues P (known ++ classes a) classes' (next a)) :
    Issues P known classes' (action >>= next) := by
  intro engine
  obtain ⟨maps, hmaps, hafter, hnames⟩ := h engine
  rw [run_bind]
  rcases hrun : action.run.run engine with ⟨result, after⟩
  rw [hrun] at hafter hnames
  cases result with
  | error error => exact ⟨maps, hmaps, hafter, nofun⟩
  | ok a =>
    obtain rfl : after = StyleEngine.emitAll engine maps := hafter
    obtain ⟨more, hmore, hlast, hothers⟩ := hn a (StyleEngine.emitAll engine maps)
    refine ⟨maps ++ more, fun styles hs => (List.mem_append.1 hs).elim (hmaps styles) (hmore styles),
      ?_, fun b hb name hname => ?_⟩
    · rw [StyleEngine.emitAll_append]
      exact hlast
    · -- A name is new, or it was in the result of the first action.
      rcases hothers b hb name hname with hold | hempty | hgiven
      · rcases List.mem_append.1 hold with hknown | hfirst
        · exact .inl hknown
        · rcases hnames a rfl name hfirst with hknown | hempty | hgiven
          · exact .inl hknown
          · exact .inr (.inl hempty)
          · exact .inr (.inr (hgiven.append_right more))
      · exact .inr (.inl hempty)
      · exact .inr (.inr hgiven.append_left)

theorem Issues.map {action : Compile σ α} {f : α → β} (h : Issues P known classes action)
    (hf : ∀ a, ∀ name ∈ classes' (f a), name ∈ classes a) :
    Issues P known classes' (f <$> action) := by
  rw [← bind_pure_comp]
  exact h.bind fun a => .pure fun name hn => .inl (List.mem_append_right known (hf a name hn))

theorem Issues.lift_bind {result : Except ThemeError α} {next : α → Compile σ β}
    (hn : ∀ a, result = .ok a → Issues P known classes' (next a)) :
    Issues P known classes' ((liftM result : Compile σ α) >>= next) := by
  cases result with
  | error error => exact fun _ => ⟨[], by simp, rfl, nofun⟩
  | ok a => exact hn a rfl

theorem Issues.mapM {f : γ → Compile σ α} {l : List γ}
    (h : ∀ c ∈ l, Issues P [] classes (f c)) :
    Issues P known (fun as : List α => as.flatMap classes) (l.mapM f) := by
  induction l generalizing known with
  | nil => exact .pure (by simp)
  | cons c rest ih =>
    rw [List.mapM_cons]
    have hfirst : Issues P known classes (f c) :=
      (h c List.mem_cons_self).mono (by simp) fun _ _ hn => hn
    refine hfirst.bind fun a => (ih fun d hd => h d (List.mem_cons_of_mem _ hd)).bind fun as => ?_
    refine .pure fun name hn => .inl ?_
    rw [List.flatMap_cons] at hn
    rw [List.append_assoc]
    exact List.mem_append_right known hn

theorem Issues.asks {action : Compile σ α} (h : Issues P known classes action)
    (hp : ∀ styles, P styles → styles ≠ []) : Asks action := by
  intro engine
  obtain ⟨maps, hmaps, hafter, -⟩ := h engine
  exact ⟨maps, fun styles hs => hp styles (hmaps styles hs), hafter⟩

theorem issues_className {styles : Styles} (h : styles ≠ [] → P styles) :
    Issues P known (fun name => [name]) (className styles : Compile σ String) := by
  unfold className
  cases styles with
  | nil => exact .pure (by simp)
  | cons e rest =>
    refine fun engine => ⟨[e :: rest], by simpa using h, rfl, fun name hn other ho => ?_⟩
    cases hn
    rw [List.mem_singleton.1 ho]
    exact .inr (.inr ⟨[], e :: rest, [], rfl, rfl⟩)

end Compile

def CompiledVariant.classes (variant : CompiledVariant) : List String :=
  variant.className :: variant.parts.map (·.2)

def CompiledComponent.classes (component : CompiledComponent) : List String :=
  component.variants.flatMap CompiledVariant.classes

namespace CompiledVariant

theorem mem_classes_onto {variant base : CompiledVariant} {name : String}
    (h : name ∈ (variant.onto base).classes) : name ∈ base.classes ∨ name ∈ variant.classes := by
  have hparts (base entries : Table String) (e : String × String) (he : e ∈ base.putAll entries) :
      e ∈ base ∨ e ∈ entries := by
    induction entries using List.reverseRecOn with
    | nil => exact .inl he
    | append_singleton entries last ih =>
      rw [Table.putAll_concat] at he
      rcases Table.mem_put he with rfl | he
      · exact .inr (by simp)
      · exact (ih he).imp_right (List.mem_append_left _)
  simp only [classes, onto, List.mem_cons, List.mem_map] at h ⊢
  rcases h with rfl | ⟨e, he, rfl⟩
  · exact .inr (.inl rfl)
  · exact (hparts _ _ e he).imp (fun hb => .inr ⟨e, hb, rfl⟩) fun hv => .inr ⟨e, hv, rfl⟩

theorem mem_classes_layer {variant : CompiledVariant} {base : List CompiledVariant} {name : String}
    (h : name ∈ (variant.layer base).flatMap classes) :
    name ∈ base.flatMap classes ∨ name ∈ variant.classes := by
  induction base with
  | nil => simpa [layer] using h
  | cons first rest ih =>
    rw [layer] at h
    split at h
    · rcases List.mem_append.1 h with hf | hr
      · exact (mem_classes_onto hf).imp_left (List.mem_append_left _)
      · exact .inl (List.mem_append_right _ hr)
    · rcases List.mem_append.1 h with hf | hr
      · exact .inl (List.mem_append_left _ hf)
      · exact (ih hr).imp_left (List.mem_append_right _)

theorem mem_classes_layerAll {base variants : List CompiledVariant} {name : String}
    (h : name ∈ (layerAll base variants).flatMap classes) :
    name ∈ base.flatMap classes ∨ name ∈ variants.flatMap classes := by
  induction variants using List.reverseRecOn with
  | nil => exact .inl h
  | append_singleton variants last ih =>
    rw [layerAll, List.foldl_append] at h
    rcases mem_classes_layer h with hb | hl
    · exact (ih hb).imp_right fun hm => by simp [hm]
    · exact .inr (by simp [hl])

end CompiledVariant

namespace Theme

open Compile

def Composes (theme : Theme) (styles : Styles) : Prop :=
  ∃ context source, theme.boxCss context source = .ok (some styles)

def Requests (theme : Theme) (styles : Styles) : Prop := styles ≠ [] ∧ theme.Composes styles

variable (theme : Theme)

theorem issues_compileVariant (name : String) (variant : Variant) (parts : Table (Source Box))
    (context : BoxContext) : Issues theme.Requests []
      (fun compiled : Option CompiledVariant => compiled.elim [] CompiledVariant.classes)
      (theme.compileVariant name variant parts context : Compile σ _) := by
  unfold compileVariant
  cases variant.theming with
  | none => exact .pure (by simp)
  | some theming =>
    refine .lift_bind fun found hfound => ?_
    cases found with
    | none => exact .pure (by simp)
    | some styles =>
      refine (issues_className fun hne => ⟨hne, context, theming, hfound⟩).bind fun className => ?_
      have hpart (part : String × Source Box) : Issues theme.Requests []
          (fun entry : String × String => [entry.2]) (do
            let styles ← (theme.boxCss (.parts parts) part.2 : Except _ _)
            return (part.1, ← Compile.className (styles.getD [])) : Compile σ (String × String)) := by
        refine .lift_bind fun found hfound => ?_
        have hrequest : found.getD [] ≠ [] → theme.Requests (found.getD []) := by
          intro hne
          cases found with
          | none => exact absurd rfl hne
          | some styles => exact ⟨hne, _, _, hfound⟩
        exact (issues_className hrequest).bind fun name => .pure (by simp)
      refine (Issues.mapM fun part _ => hpart part).bind fun classes => ?_
      have hdone (props : Value) : ∀ other ∈ (some (CompiledVariant.mk name className classes
          props)).elim [] CompiledVariant.classes,
          other ∈ [] ++ [className] ++ classes.flatMap (fun entry => [entry.2]) ∨ other = "" := by
        intro other ho
        refine .inl ?_
        simpa [CompiledVariant.classes] using ho
      cases variant.defaultProps with
      | none => exact .pure (hdone _)
      | some props => exact .lift_bind fun props _ => .pure (hdone props)

theorem issues_ownVariants (name : String) (component : Component) :
    Issues theme.Requests []
      (fun own : List CompiledVariant => own.flatMap CompiledVariant.classes)
      (theme.ownVariants name component : Compile σ _) := by
  unfold ownVariants
  extract_lets defaults named finish
  have hfinish (first : Option CompiledVariant) : Issues theme.Requests
      ([] ++ first.elim [] CompiledVariant.classes)
      (fun own : List CompiledVariant => own.flatMap CompiledVariant.classes) (finish first) := by
    refine (Issues.mapM fun entry _ => .lift_bind fun parts _ =>
      theme.issues_compileVariant _ _ parts _).bind fun compiled => .pure fun other ho => .inl ?_
    rw [List.flatMap_append, List.mem_append] at ho
    rcases ho with hf | hr
    · cases first with
      | none => simp at hf
      | some variant => exact List.mem_append_left _ (by simpa using hf)
    · obtain ⟨variant, hv, ho⟩ := List.mem_flatMap.1 hr
      exact List.mem_append_right _ (List.mem_flatMap.2 ⟨some variant, by simpa using hv, ho⟩)
  cases component.default with
  | none => exact (Issues.pure (by simp)).bind hfinish
  | some variant =>
    exact .lift_bind fun parts _ => (theme.issues_compileVariant _ variant parts _).bind hfinish

theorem issues_compileFrom (trail : Trail) (name : String) :
    Issues theme.Requests [] CompiledComponent.classes
      (theme.compileFrom trail name : Compile σ CompiledComponent) := by
  have hown (inherited : List CompiledVariant) (component : Component) (name : String) :
      Issues theme.Requests ([] ++ inherited.flatMap CompiledVariant.classes)
        CompiledComponent.classes (do
          let own ← theme.ownVariants name component
          return ⟨name, CompiledVariant.layerAll inherited own⟩ : Compile σ CompiledComponent) := by
    have hissues : Issues theme.Requests ([] ++ inherited.flatMap CompiledVariant.classes)
        (fun own => own.flatMap CompiledVariant.classes)
        (theme.ownVariants name component : Compile σ (List CompiledVariant)) :=
      (theme.issues_ownVariants name component).mono (by simp) fun _ _ hn => hn
    exact hissues.bind fun own => .pure fun other ho =>
      .inl (List.mem_append.2 (CompiledVariant.mem_classes_layerAll ho))
  fun_induction compileFrom (σ := σ) theme trail name
  case case1 => exact .pure (by simp [CompiledComponent.classes])
  case case2 => exact .throw _
  case case3 name component _ _ _ parent _ ih =>
    have hparent : Issues theme.Requests []
        (fun inherited : List CompiledVariant => inherited.flatMap CompiledVariant.classes)
        (CompiledComponent.variants <$>
          theme.compileFrom (_ ++ [name]) (referenceName parent) : Compile σ _) :=
      ih.map fun _ _ hn => hn
    exact hparent.bind fun inherited => hown inherited component name
  case case4 name component _ _ _ _ =>
    exact (Issues.pure (by simp)).bind fun inherited => hown inherited component name

end Theme

end Theming
