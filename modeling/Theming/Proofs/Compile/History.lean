import Theming.Proofs.Compile.Requests
import Theming.Proofs.Css.Cached
import Theming.Proofs.Css.Collected

/-! Compiling on engines with different pasts. A component only sees what an engine answers, so on
engines that answer alike it comes out the same. What stylesheets answer does not depend on what
they were asked before, and between two extractions they collect the rules of a class once. -/

namespace Theming

variable {σ τ α β γ : Type} [StyleEngine σ] [StyleEngine τ] {R : σ → τ → Prop}

/-- Engines in related states give the same class to the same maps and stay related. -/
def StyleEngine.AnswerAlike (R : σ → τ → Prop) : Prop :=
  ∀ a b maps, R a b →
    (StyleEngine.emitClass a maps).1 = (StyleEngine.emitClass b maps).1 ∧
    R (StyleEngine.emitClass a maps).2 (StyleEngine.emitClass b maps).2

namespace Compile

omit [StyleEngine σ] [StyleEngine τ]

def SameOn (R : σ → τ → Prop) (action : Compile σ α) (action' : Compile τ α) : Prop :=
  ∀ a b, R a b → (action.run.run a).1 = (action'.run.run b).1 ∧
    R (action.run.run a).2 (action'.run.run b).2

theorem SameOn.pure (a : α) : SameOn R (pure a) (pure a) := fun _ _ h => ⟨rfl, h⟩

theorem SameOn.throw (error : ThemeError) : SameOn R (throw error : Compile σ α) (throw error) :=
  fun _ _ h => ⟨rfl, h⟩

theorem SameOn.lift (result : Except ThemeError α) :
    SameOn R (liftM result : Compile σ α) (liftM result) :=
  fun _ _ h => ⟨rfl, h⟩

theorem SameOn.bind {action : Compile σ α} {action' : Compile τ α} {next : α → Compile σ β}
    {next' : α → Compile τ β} (h : SameOn R action action')
    (hn : ∀ a, SameOn R (next a) (next' a)) : SameOn R (action >>= next) (action' >>= next') := by
  intro s t hst
  obtain ⟨hresult, hafter⟩ := h s t hst
  rw [run_bind, run_bind]
  rcases hs : action.run.run s with ⟨result, s'⟩
  rcases ht : action'.run.run t with ⟨result', t'⟩
  rw [hs, ht] at hresult hafter
  cases hresult
  cases result with
  | error error => exact ⟨rfl, hafter⟩
  | ok a => exact hn a s' t' hafter

theorem SameOn.map {action : Compile σ α} {action' : Compile τ α} (f : α → β)
    (h : SameOn R action action') : SameOn R (f <$> action) (f <$> action') := by
  rw [← bind_pure_comp, ← bind_pure_comp]
  exact h.bind fun a => .pure (f a)

theorem SameOn.mapM {f : γ → Compile σ α} {f' : γ → Compile τ α}
    (h : ∀ c, SameOn R (f c) (f' c)) (l : List γ) : SameOn R (l.mapM f) (l.mapM f') := by
  induction l with
  | nil => exact .pure []
  | cons c rest ih =>
    rw [List.mapM_cons, List.mapM_cons]
    exact (h c).bind fun a => ih.bind fun as => .pure (a :: as)

end Compile

theorem Theme.compileFrom_eq (theme : Theme) (trail : Trail) (name : String) :
    (theme.compileFrom trail name : Compile σ _) = match theme.components.find? name with
      | none => pure ⟨name, []⟩
      | some component =>
        if name ∈ trail then throw (.cycle .components (trail ++ [name]))
        else do
          let inherited ← match component.parent with
            | some parent =>
              CompiledComponent.variants <$>
                theme.compileFrom (trail ++ [name]) (referenceName parent)
            | none => pure []
          let own ← theme.ownVariants name component
          return ⟨name, CompiledVariant.layerAll inherited own⟩ := by
  rw [compileFrom]
  split
  · next found => rw [found]
  · next component found =>
    rw [found]
    split
    · rfl
    · rfl

namespace StyleEngine.AnswerAlike

open Compile

variable (h : AnswerAlike R) (theme : Theme)

include h

theorem className (styles : Styles) :
    SameOn R (Compile.className styles) (Compile.className styles) := by
  unfold Compile.className
  split
  · exact .pure ""
  · exact fun s t hst => by
      obtain ⟨hname, hafter⟩ := h s t [styles] hst
      exact ⟨congrArg Except.ok hname, hafter⟩

theorem compileVariant (name : String) (variant : Variant) (parts : Table (Source Box))
    (context : BoxContext) : SameOn R (theme.compileVariant name variant parts context)
      (theme.compileVariant name variant parts context) := by
  unfold Theme.compileVariant
  cases variant.theming with
  | none => exact .pure none
  | some theming =>
    refine (SameOn.lift _).bind fun styles => ?_
    cases styles with
    | none => exact .pure none
    | some styles =>
      refine (h.className styles).bind fun className => ?_
      refine SameOn.bind (SameOn.mapM (fun part => ?_) parts) fun classes => ?_
      · exact (SameOn.lift _).bind fun styles => (h.className _).bind fun name => .pure _
      · cases variant.defaultProps with
        | none => exact (SameOn.pure _).bind fun props => .pure _
        | some props => exact (SameOn.lift _).bind fun props => .pure _

theorem ownVariants (name : String) (component : Component) :
    SameOn R (theme.ownVariants name component) (theme.ownVariants name component) := by
  unfold Theme.ownVariants
  extract_lets defaults named finish finish'
  have hfinish (first : Option CompiledVariant) : SameOn R (finish first) (finish' first) :=
    (SameOn.mapM (fun entry => (SameOn.lift _).bind fun parts =>
      h.compileVariant theme _ _ parts _) _).bind fun compiled => .pure _
  cases component.default with
  | none => exact (SameOn.pure none).bind hfinish
  | some variant =>
    exact (SameOn.lift _).bind fun parts =>
      (h.compileVariant theme _ variant parts _).bind hfinish

theorem compileFrom (trail : Trail) (name : String) :
    SameOn R (theme.compileFrom trail name) (theme.compileFrom trail name) := by
  fun_induction Theme.compileFrom (σ := σ) theme trail name
  case case1 name found =>
    rw [Theme.compileFrom_eq (σ := τ), found]
    exact .pure _
  case case2 name component found seen =>
    rw [Theme.compileFrom_eq (σ := τ), found]
    simp only [if_pos seen]
    exact .throw _
  case case3 name component found seen _ parent hparent ih =>
    rw [Theme.compileFrom_eq (σ := τ), found]
    simp only [if_neg seen, hparent]
    exact (SameOn.map _ ih).bind fun inherited =>
      (h.ownVariants theme name component).bind fun own => .pure _
  case case4 name component found seen _ hroot =>
    rw [Theme.compileFrom_eq (σ := τ), found]
    simp only [if_neg seen, hroot]
    exact (SameOn.pure []).bind fun inherited =>
      (h.ownVariants theme name component).bind fun own => .pure _

end StyleEngine.AnswerAlike

theorem Stylesheet.answerAlike :
    StyleEngine.AnswerAlike fun a b : Stylesheet => a.classPrefix = b.classPrefix := by
  intro a b maps h
  exact ⟨className_of_classPrefix h _, h⟩

theorem CachedStylesheet.answerAlike :
    StyleEngine.AnswerAlike fun (cached : CachedStylesheet) (sheet : Stylesheet) =>
      cached.Faithful ∧ cached.sheet.classPrefix = sheet.classPrefix := by
  rintro cached sheet maps ⟨hfaithful, hprefix⟩
  have hnext := hfaithful.emitClass maps
  have hname : (cached.emitClass maps).1 = (sheet.emitClass maps).1 := by
    rw [hfaithful.emitClass_eq]
    exact Stylesheet.className_of_classPrefix hprefix _
  have hsheet : (cached.emitClass maps).2.sheet.classPrefix = sheet.classPrefix := by
    rw [hfaithful.emitClass_eq]
    exact hprefix
  exact ⟨hname, hnext, hsheet⟩

namespace Stylesheet

/-- What a component compiles to depends on the prefix of the stylesheet but on nothing that it was
asked before, also if it remembers the names that it gave out. Its text is made of the rules of
classes that are all different, and a class that was asked for since the last extraction adds
nothing. -/
theorem compile_ignores_history (classPrefix : String) (steps steps' : List Step) :
    let sheet := (empty classPrefix).run steps
    let other := (empty classPrefix).run steps'
    let cached := (CachedStylesheet.empty classPrefix).run steps
    (∀ (theme : Theme) (name : String),
      ((theme.compile name).run.run sheet).1 = ((theme.compile name).run.run other).1 ∧
      ((theme.compile name).run.run cached).1 = ((theme.compile name).run.run other).1) ∧
    cached.sheet = sheet ∧
    (∃ names : List String, names.Nodup ∧
      (∀ name ∈ names, (∃ styles ∈ recent steps, sheet.className styles = name) ∧
        ∃ rules, sheet.rules.find? name = some rules) ∧
      sheet.css = String.join (names.map sheet.rulesOf)) ∧
    ∀ maps, (∃ styles ∈ recent steps, sheet.className styles = sheet.className (layered maps)) →
      (sheet.emitClass maps).2.css = sheet.css := by
  intro sheet other cached
  have hprefix : sheet.classPrefix = other.classPrefix := by
    rw [classPrefix_run, classPrefix_run]
  obtain ⟨hfaithful, hsheet⟩ := (CachedStylesheet.faithful_empty classPrefix).run steps
  have hcached : cached.sheet.classPrefix = other.classPrefix := by
    rw [hsheet]
    exact hprefix
  have hcollects : sheet.Collects (recent steps) := collects_run classPrefix steps
  refine ⟨fun theme name => ⟨?_, ?_⟩, hsheet,
    ⟨collected sheet.rulesOf (sheet.classes (recent steps)), ?_, fun name hn => ?_, hcollects.css⟩,
    fun maps hm => hcollects.css_emitClass (mem_classes.2 hm)⟩
  · exact (answerAlike.compileFrom theme [] name sheet other hprefix).1
  · exact (CachedStylesheet.answerAlike.compileFrom theme [] name cached other
      ⟨hfaithful, hcached⟩).1
  · exact (nodup_classes sheet _).sublist (collected_sublist _)
  · have hname := (collected_sublist _).subset hn
    exact ⟨mem_classes.1 hname, hcollects.registered name hname⟩

end Stylesheet

end Theming
