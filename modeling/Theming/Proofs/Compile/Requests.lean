import Theming.Manager
import Theming.Proofs.Css.Stylesheet

/-! What compiling does to a style engine. However it ends, the engine has been asked for a sequence
of classes and nothing else has happened to it. -/

namespace Theming

variable {σ α β : Type}

namespace Compile

theorem run_bind (action : Compile σ α) (next : α → Compile σ β) (engine : σ) :
    (action >>= next).run.run engine = match action.run.run engine with
      | (.ok a, engine) => (next a).run.run engine
      | (.error error, engine) => (.error error, engine) := by
  change (action.run.run engine |> fun pair => ExceptT.bindCont next pair.1 pair.2) = _
  rcases action.run.run engine with ⟨result, engine⟩
  cases result <;> rfl

theorem run_bind_pure_error {action : Compile σ α} {f : α → β} {engine after : σ}
    {error : ThemeError}
    (h : (action >>= fun a => pure (f a)).run.run engine = (.error error, after)) :
    action.run.run engine = (.error error, after) := by
  rw [run_bind] at h
  cases hrun : action.run.run engine with
  | mk result last =>
    rw [hrun] at h
    cases result with
    | error failure =>
      cases h
      rfl
    | ok a => cases h

/-- A sequence of actions that fails has run those in front of the one that failed. -/
theorem run_mapM_error {γ : Type} {f : γ → Compile σ α} {l : List γ} {engine after : σ}
    {error : ThemeError} (h : (l.mapM f).run.run engine = (.error error, after)) :
    ∃ done c rest values between, l = done ++ c :: rest ∧
      (done.mapM f).run.run engine = (.ok values, between) ∧
      (f c).run.run between = (.error error, after) := by
  induction l generalizing engine with
  | nil => cases h
  | cons c rest ih =>
    rw [List.mapM_cons, run_bind] at h
    cases hc : (f c).run.run engine with
    | mk result between =>
      rw [hc] at h
      cases result with
      | error failure =>
        cases h
        exact ⟨[], c, rest, [], engine, rfl, rfl, hc⟩
      | ok a =>
        have hrest := run_bind_pure_error h
        obtain ⟨done, d, later, values, last, rfl, hdone, hd⟩ := ih hrest
        refine ⟨c :: done, d, later, a :: values, last, rfl, ?_, hd⟩
        rw [List.mapM_cons, run_bind, hc]
        change (done.mapM f >>= fun as => pure (a :: as)).run.run between = _
        rw [run_bind, hdone]
        rfl

end Compile

variable [StyleEngine σ]

def StyleEngine.emitAll (engine : σ) (maps : List Styles) : σ :=
  maps.foldl (fun engine styles => (StyleEngine.emitClass engine [styles]).2) engine

namespace Compile

/-- An action only asks for classes of maps that are not empty. -/
def Asks (action : Compile σ α) : Prop :=
  ∀ engine, ∃ maps : List Styles, (∀ styles ∈ maps, styles ≠ []) ∧
    (action.run.run engine).2 = StyleEngine.emitAll engine maps

end Compile

end Theming
