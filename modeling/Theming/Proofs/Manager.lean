import Theming.Proofs.Compile.Issued
import Theming.Proofs.Success

/-! Loads that fail. They keep the active theme, but not the stylesheet: the classes that were asked
for before the failure stay in it. -/

namespace Theming

open Compile

section

variable {σ : Type} [StyleEngine σ]

theorem LoadedTheme.ofConfig_fails_or_compiles (config : Value) (pool : List Value) (engine : σ) :
    (∃ error, (LoadedTheme.ofConfig config pool).run.run engine = (.error error, engine)) ∨
    ∃ merged theme, config.isNull = false ∧ config.inherit pool = .ok merged ∧
      Theme.ofConfig merged = .ok theme ∧
      (LoadedTheme.ofConfig config pool : Compile σ _) =
        (theme.components.keys.mapM theme.compile >>= fun components =>
          pure ⟨theme, components⟩) := by
  unfold LoadedTheme.ofConfig
  cases hnull : config.isNull with
  | true => exact .inl ⟨_, rfl⟩
  | false =>
    cases hmerged : config.inherit pool with
    | error error => exact .inl ⟨error, rfl⟩
    | ok merged =>
      cases htheme : Theme.ofConfig merged with
      | error error =>
        refine .inl ⟨error, ?_⟩
        change (((Theme.ofConfig merged : Except _ _) : Compile σ Theme) >>= _).run.run engine = _
        rw [htheme]
        rfl
      | ok theme =>
        refine .inr ⟨merged, theme, rfl, rfl, htheme, ?_⟩
        change ((Theme.ofConfig merged : Except _ _) : Compile σ Theme) >>= _ = _
        rw [htheme]
        rfl

namespace Manager

/-- The engine of a load that compiled the components in front of one and failed there. -/
def FailsCompiling (manager : Manager σ) (config : Value) (pool : List Value) (error : ThemeError)
    (after : σ) : Prop :=
  ∃ merged theme done name rest compiled engine,
    config.isNull = false ∧ config.inherit pool = .ok merged ∧ Theme.ofConfig merged = .ok theme ∧
    theme.components.keys = done ++ name :: rest ∧
    (done.mapM theme.compile).run.run manager.engine = (.ok compiled, engine) ∧
    (theme.compile name).run.run engine = (.error error, after)

theorem failed_load_cases {manager : Manager σ} {config : Value} {pool : List Value}
    {error : ThemeError} (h : (manager.load config pool).1 = .error error) :
    (manager.load config pool).2.active = manager.active ∧
    ((manager.load config pool).2.engine = manager.engine ∨
      manager.FailsCompiling config pool error (manager.load config pool).2.engine) := by
  unfold load at h ⊢
  cases hrun : (LoadedTheme.ofConfig config pool).run.run manager.engine with
  | mk result after =>
    rw [hrun] at h
    change result = .error error at h
    subst h
    refine ⟨rfl, ?_⟩
    rcases LoadedTheme.ofConfig_fails_or_compiles config pool manager.engine with
      ⟨failure, hfails⟩ | ⟨merged, theme, hnull, hmerged, htheme, hcompiles⟩
    · rw [hrun] at hfails
      cases hfails
      exact .inl rfl
    · have hall : (theme.components.keys.mapM theme.compile).run.run manager.engine =
          (.error error, after) := by
        rw [hcompiles] at hrun
        exact run_bind_pure_error hrun
      obtain ⟨done, name, rest, compiled, engine, hkeys, hdone, hname⟩ := run_mapM_error hall
      exact .inr ⟨merged, theme, done, name, rest, compiled, engine, hnull, hmerged, htheme, hkeys,
        hdone, hname⟩

theorem FailsCompiling.asked {manager : Manager σ} {config : Value} {pool : List Value}
    {error : ThemeError} {after : σ} (h : manager.FailsCompiling config pool error after) :
    ∃ maps : List Styles, (∀ styles ∈ maps, styles ≠ []) ∧
      after = StyleEngine.emitAll manager.engine maps := by
  obtain ⟨_, theme, done, name, _, compiled, engine, _, _, _, _, hdone, hname⟩ := h
  have hissues : Issues theme.Requests [] CompiledComponent.classes
      (done.mapM theme.compile >>= fun _ => theme.compile name : Compile σ _) :=
    (Issues.mapM fun name _ => theme.issues_compileFrom [] name).bind
      fun _ => (theme.issues_compileFrom [] name).mono (by simp) fun _ _ hn => hn
  have hasks := hissues.asks fun _ h => h.1
  obtain ⟨maps, hmaps, hafter⟩ := hasks manager.engine
  rw [run_bind, hdone] at hafter
  change ((theme.compile name).run.run engine).2 = _ at hafter
  rw [hname] at hafter
  exact ⟨maps, hmaps, hafter⟩

end Manager

end

theorem Stylesheet.grown_emitAll (sheet : Stylesheet) (maps : List Styles) :
    Grown sheet (StyleEngine.emitAll sheet maps) := by
  induction maps generalizing sheet with
  | nil => exact .refl sheet
  | cons styles rest ih => exact (grown_emitClass sheet [styles]).trans (ih _)

namespace Manager

/-- A load that fails keeps the active theme. It leaves the stylesheet as it was, or it fails in a
component and the classes asked for up to there have been added. -/
theorem failed_load_only_adds {manager : Manager Stylesheet} {config : Value} {pool : List Value}
    {error : ThemeError} (h : (manager.load config pool).1 = .error error) :
    let after := (manager.load config pool).2
    after.active = manager.active ∧
    (after.engine = manager.engine ∨
      manager.FailsCompiling config pool error after.engine ∧
      ∃ maps : List Styles, (∀ styles ∈ maps, styles ≠ []) ∧
        after.engine = StyleEngine.emitAll manager.engine maps) ∧
    Stylesheet.Grown manager.engine after.engine := by
  intro after
  obtain ⟨hactive, hunchanged | hfails⟩ := failed_load_cases h
  · refine ⟨hactive, .inl hunchanged, ?_⟩
    rw [hunchanged]
    exact .refl _
  · obtain ⟨maps, hmaps, hengine⟩ := hfails.asked
    refine ⟨hactive, .inr ⟨hfails, maps, hmaps, hengine⟩, ?_⟩
    rw [hengine]
    exact Stylesheet.grown_emitAll _ maps

def fresh : Manager Stylesheet := ⟨.empty "go", none⟩

def themeOf (components : Table Value) : Value :=
  .object [("name", .text "T"), ("version", .text "1"), ("globals", .object []),
    ("sets", .object []), ("components", .object components)]

def padded (text : String) : Value :=
  .object [("default", .object [("theming", .object [("padding", .text text)])])]

def cyclic (name : String) : Value := .object [("__extends", .text name)]

theorem failed_load_keeps_padded :
    let before := (fresh.load (themeOf [("A", padded "1px")]) []).2
    let after := (before.load (themeOf [("A", padded "2px"), ("B", cyclic "B")]) []).2
    before.active.isSome ∧ after.active = before.active ∧
      Stylesheet.Grown before.engine after.engine := by
  intro before after
  obtain ⟨error, h⟩ : ∃ error, (before.load (themeOf [("A", padded "2px"), ("B", cyclic "B")])
      []).1 = .error error := exists_error_of_isOk (by decide +kernel)
  obtain ⟨hactive, -, hgrown⟩ := failed_load_only_adds h
  exact ⟨by decide +kernel, hactive, hgrown⟩

/-- The component in front of the one that fails has left its class in the stylesheet. -/
theorem failed_load_leaves_class :
    let loaded := fresh.load (themeOf [("A", padded "1px"), ("B", cyclic "B")]) []
    (∃ error, loaded.1 = .error error) ∧ loaded.2.engine.css ≠ fresh.engine.css :=
  ⟨exists_error_of_isOk (by decide +kernel), by decide +kernel⟩

end Manager

end Theming
