import Mathlib.Data.List.Forall2
import Theming.Proofs.Compile.Requests

/-! What actions that succeed lead to. From states of an engine with an invariant they lead to such
states again, and what they result in has a property. The rules follow the way in which actions are
put together. -/

namespace Theming.Compile

variable {σ α β γ : Type} {I : σ → Prop} {P : α → Prop} {Q : β → Prop}

/-- A sequence of two actions that succeeds has run both. -/
theorem run_bind_ok {action : Compile σ α} {next : α → Compile σ β} {engine after : σ} {b : β}
    (h : (action >>= next).run.run engine = (.ok b, after)) :
    ∃ a between, action.run.run engine = (.ok a, between) ∧
      (next a).run.run between = (.ok b, after) := by
  rw [run_bind] at h
  cases ha : action.run.run engine with
  | mk result between =>
    rw [ha] at h
    cases result with
    | error error => cases h
    | ok a => exact ⟨a, between, rfl, h⟩

/-- From a state with the invariant, the action succeeds only in such a state and with a result
that has the property. -/
def YieldsIn (I : σ → Prop) (action : Compile σ α) (P : α → Prop) : Prop :=
  ∀ engine a after, I engine → action.run.run engine = (.ok a, after) → I after ∧ P a

namespace YieldsIn

theorem pure {a : α} (h : P a) : YieldsIn I (pure a : Compile σ α) P := by
  intro engine b after hI hrun
  cases hrun
  exact ⟨hI, h⟩

theorem lift {result : Except ThemeError α} (h : ∀ a, result = .ok a → P a) :
    YieldsIn I (liftM result : Compile σ α) P := by
  intro engine a after hI hrun
  have hresult : result = .ok a := congrArg Prod.fst hrun
  have hafter : engine = after := congrArg Prod.snd hrun
  exact ⟨hafter ▸ hI, h a hresult⟩

theorem bind {action : Compile σ α} {next : α → Compile σ β} (h : YieldsIn I action P)
    (hn : ∀ a, P a → YieldsIn I (next a) Q) : YieldsIn I (action >>= next) Q := by
  intro engine b after hI hrun
  obtain ⟨a, between, ha, hb⟩ := run_bind_ok hrun
  obtain ⟨hbetween, hP⟩ := h engine a between hI ha
  exact hn a hP between b after hbetween hb

theorem mapM {f : γ → Compile σ α} {R : γ → α → Prop} (h : ∀ c, YieldsIn I (f c) (R c))
    (l : List γ) : YieldsIn I (l.mapM f) (List.Forall₂ R l) := by
  induction l with
  | nil => exact .pure .nil
  | cons c rest ih =>
    rw [List.mapM_cons]
    exact (h c).bind fun a ha => ih.bind fun as has => .pure (.cons ha has)

end YieldsIn

variable [StyleEngine σ]

/-- From states with the invariant, the engine gives maps no other classes than the relation
allows. -/
def Assigns (I : σ → Prop) (given : Styles → String → Prop) : Prop :=
  ∀ styles, YieldsIn I (className styles : Compile σ String) (given styles)

inductive HandedOut (σ : Type) [StyleEngine σ] : Styles → String → Prop where
  | empty : HandedOut σ [] ""
  | emitted {styles : Styles} (engine : σ) (full : styles ≠ []) :
      HandedOut σ styles (StyleEngine.emitClass engine [styles]).1

theorem className_cases (styles : Styles) (engine : σ) :
    (styles = [] ∧ (className styles : Compile σ String).run.run engine = (.ok "", engine)) ∨
      (styles ≠ [] ∧ (className styles : Compile σ String).run.run engine =
        (.ok (StyleEngine.emitClass engine [styles]).1,
          (StyleEngine.emitClass engine [styles]).2)) := by
  cases styles with
  | nil => exact .inl ⟨rfl, rfl⟩
  | cons e rest => exact .inr ⟨by simp, rfl⟩

theorem assigns_handedOut : Assigns (fun _ : σ => True) (HandedOut σ) := by
  intro styles engine name after _ hrun
  refine ⟨trivial, ?_⟩
  rcases className_cases styles engine with ⟨rfl, h⟩ | ⟨hfull, h⟩
  · rw [h] at hrun
    cases hrun
    exact .empty
  · rw [h] at hrun
    cases hrun
    exact .emitted engine hfull

end Compile

namespace Stylesheet

open Compile

def classOf (sheet : Stylesheet) (styles : Styles) : String :=
  if styles = [] then "" else sheet.className (layered [styles])

/-- Stylesheets with the same prefix give the same classes. -/
theorem assigns_classOf (sheet : Stylesheet) :
    Assigns (fun other : Stylesheet => other.classPrefix = sheet.classPrefix)
      fun styles name => name = sheet.classOf styles := by
  intro styles other name after hname hrun
  rcases className_cases styles other with ⟨rfl, h⟩ | ⟨hfull, h⟩
  · rw [h] at hrun
    cases hrun
    exact ⟨hname, rfl⟩
  · rw [h] at hrun
    cases hrun
    have hclass : sheet.classOf styles = sheet.className (layered [styles]) := if_neg hfull
    exact ⟨hname, (className_of_classPrefix hname _).trans hclass.symm⟩

end Stylesheet

end Theming
