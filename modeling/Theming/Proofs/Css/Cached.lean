import Theming.Proofs.Css.Stylesheet

/-! A stylesheet that remembers the class name of every text. It cannot be told from one that works
the names out each time, whatever it has been asked for before. -/

namespace Theming

structure CachedStylesheet where
  sheet : Stylesheet
  /-- The class names given out so far, by the text of their maps. -/
  names : Table String

namespace CachedStylesheet

open Stylesheet (Step layered)

def empty (classPrefix : String) : CachedStylesheet := ⟨.empty classPrefix, []⟩

def emitClass (cached : CachedStylesheet) (maps : List Styles) : String × CachedStylesheet :=
  let styles := layered maps
  let text := Styles.flatten styles
  let name := (cached.names.find? text).getD (cached.sheet.className styles)
  let rule := (cached.sheet.rules.find? name).getD (styles.ruleText ("." ++ name))
  let css := if Text.contains cached.sheet.css rule then cached.sheet.css
    else cached.sheet.css ++ rule
  (name, { sheet := { cached.sheet with rules := cached.sheet.rules.put name rule, css := css },
           names := cached.names.put text name })

instance : StyleEngine CachedStylesheet := ⟨emitClass⟩

def step (cached : CachedStylesheet) : Step → CachedStylesheet
  | .emit maps => (cached.emitClass maps).2
  | .extract => { cached with sheet := cached.sheet.extractCss.2 }

def run (cached : CachedStylesheet) (steps : List Step) : CachedStylesheet := steps.foldl step cached

/-- Every remembered name is the one that is worked out from its text. -/
def Faithful (cached : CachedStylesheet) : Prop :=
  ∀ styles name, cached.names.find? (Styles.flatten styles) = some name →
    name = cached.sheet.className styles

theorem Faithful.emitClass_eq {cached : CachedStylesheet} (h : cached.Faithful)
    (maps : List Styles) : cached.emitClass maps = ((cached.sheet.emitClass maps).1,
      ⟨(cached.sheet.emitClass maps).2,
        cached.names.put (Styles.flatten (layered maps)) (cached.sheet.className (layered maps))⟩) := by
  have hname : (cached.names.find? (Styles.flatten (layered maps))).getD
      (cached.sheet.className (layered maps)) = cached.sheet.className (layered maps) := by
    cases hf : cached.names.find? (Styles.flatten (layered maps)) with
    | none => rfl
    | some name => exact h _ _ hf
  simp only [emitClass, hname]
  rfl

theorem Faithful.emitClass {cached : CachedStylesheet} (h : cached.Faithful)
    (maps : List Styles) : (cached.emitClass maps).2.Faithful := by
  rw [h.emitClass_eq]
  intro styles name hf
  by_cases htext : Styles.flatten styles = (Styles.flatten (layered maps))
  · rw [htext, Table.find?_put_self] at hf
    cases hf
    simp only [Stylesheet.emitClass_eq, Stylesheet.className, htext]
  · rw [Table.find?_put_ne _ _ htext] at hf
    exact h styles name hf

theorem Faithful.step {cached : CachedStylesheet} (h : cached.Faithful) (next : Step) :
    (cached.step next).Faithful ∧ (cached.step next).sheet = cached.sheet.step next := by
  cases next with
  | emit maps =>
    have hsheet : (cached.emitClass maps).2.sheet = (cached.sheet.emitClass maps).2 := by
      rw [h.emitClass_eq]
    exact ⟨h.emitClass maps, hsheet⟩
  | extract => exact ⟨h, rfl⟩

theorem Faithful.run {cached : CachedStylesheet} (h : cached.Faithful) (steps : List Step) :
    (cached.run steps).Faithful ∧ (cached.run steps).sheet = cached.sheet.run steps := by
  induction steps generalizing cached with
  | nil => exact ⟨h, rfl⟩
  | cons first rest ih =>
    obtain ⟨hfaithful, hsheet⟩ := h.step first
    have hrest := ih hfaithful
    rw [hsheet] at hrest
    exact hrest

theorem faithful_empty (classPrefix : String) : (empty classPrefix).Faithful :=
  fun _ _ hf => by cases hf

end CachedStylesheet

end Theming
