import Theming.Css.Stylesheet

/-! Runs of requests to a stylesheet. A class carries the rules of the first map that was given it,
whatever is asked for or taken out in between. Two maps share a class if their texts have the same
hash, and then the second one gets the rules of the first. -/

namespace Theming.Stylesheet

inductive Step where
  | emit (maps : List Styles)
  | extract

/-- The map that a request stands for: later maps replace entries of earlier ones. -/
def layered (maps : List Styles) : Styles := maps.foldl Table.putAll []

def step (sheet : Stylesheet) : Step → Stylesheet
  | .emit maps => (sheet.emitClass maps).2
  | .extract => sheet.extractCss.2

def run (sheet : Stylesheet) (steps : List Step) : Stylesheet := steps.foldl step sheet

def requests (steps : List Step) : List Styles :=
  steps.filterMap fun
    | .emit maps => some (layered maps)
    | .extract => none

/-- The rules that a request gives a class, if no earlier request has given it any. -/
def rulesFor (sheet : Stylesheet) (maps : List Styles) : String :=
  let name := sheet.className (layered maps)
  (sheet.rules.find? name).getD ((layered maps).ruleText ("." ++ name))

theorem emitClass_eq (sheet : Stylesheet) (maps : List Styles) :
    sheet.emitClass maps = (sheet.className (layered maps),
      { sheet with
        rules := sheet.rules.put (sheet.className (layered maps)) (sheet.rulesFor maps)
        css := if Text.contains sheet.css (sheet.rulesFor maps) then sheet.css
          else sheet.css ++ sheet.rulesFor maps }) := rfl

theorem className_of_classPrefix {a b : Stylesheet} (h : a.classPrefix = b.classPrefix)
    (styles : Styles) : a.className styles = b.className styles := by
  simp only [className, h]

theorem rulesFor_infix_css (sheet : Stylesheet) (maps : List Styles) :
    (sheet.rulesFor maps).toList <:+: (sheet.emitClass maps).2.css.toList := by
  rw [emitClass_eq]
  split
  · next h => exact Text.contains_iff.1 h
  · rw [String.toList_append]
    exact (List.suffix_append _ _).isInfix

/-- A stylesheet that has only gained rules. Those it had are the same. -/
structure Grown (before after : Stylesheet) : Prop where
  css : before.css.toList <+: after.css.toList
  rules : ∀ name rules, before.rules.find? name = some rules → after.rules.find? name = some rules

theorem Grown.refl (sheet : Stylesheet) : Grown sheet sheet :=
  ⟨List.prefix_refl _, fun _ _ h => h⟩

theorem Grown.trans {a b c : Stylesheet} (hab : Grown a b) (hbc : Grown b c) : Grown a c :=
  ⟨hab.css.trans hbc.css, fun name rules h => hbc.rules name rules (hab.rules name rules h)⟩

theorem grown_emitClass (sheet : Stylesheet) (maps : List Styles) :
    Grown sheet (sheet.emitClass maps).2 := by
  rw [emitClass_eq]
  refine ⟨?_, fun name rules h => ?_⟩
  · split
    · exact List.prefix_refl _
    · rw [String.toList_append]
      exact List.prefix_append _ _
  · by_cases hn : sheet.className (layered maps) = name
    · subst hn
      rw [Table.find?_put_self, rulesFor, h]
      rfl
    · rw [Table.find?_put_ne _ _ (Ne.symm hn), h]

def Registers (sheet : Stylesheet) (requested : List Styles) : Prop :=
  ∀ name, sheet.rules.find? name =
    (requested.find? fun styles => sheet.className styles == name).map (·.ruleText ("." ++ name))

theorem Registers.rulesFor_eq {sheet : Stylesheet} {requested : List Styles}
    (h : sheet.Registers requested) (maps : List Styles) :
    ∃ first, (requested ++ [layered maps]).find?
        (fun styles => sheet.className styles == sheet.className (layered maps)) = some first ∧
      sheet.rulesFor maps = first.ruleText ("." ++ sheet.className (layered maps)) := by
  rw [List.find?_append, rulesFor, h]
  cases hf : requested.find? fun styles =>
      sheet.className styles == sheet.className (layered maps) with
  | none => exact ⟨layered maps, by simp, rfl⟩
  | some first => exact ⟨first, by simp, rfl⟩

theorem Registers.emitClass {sheet : Stylesheet} {requested : List Styles}
    (h : sheet.Registers requested) (maps : List Styles) :
    (sheet.emitClass maps).2.Registers (requested ++ [layered maps]) := by
  intro name
  have hname := className_of_classPrefix
    (show (sheet.emitClass maps).2.classPrefix = sheet.classPrefix by rw [emitClass_eq])
  simp only [hname]
  rw [emitClass_eq]
  by_cases hn : sheet.className (layered maps) = name
  · obtain ⟨first, hf, hr⟩ := h.rulesFor_eq maps
    subst hn
    rw [Table.find?_put_self, hf, hr]
    rfl
  · rw [Table.find?_put_ne _ _ (Ne.symm hn), h name, List.find?_append]
    simp [hn]

theorem Registers.run {sheet : Stylesheet} {requested : List Styles}
    (h : sheet.Registers requested) (steps : List Step) :
    (sheet.run steps).Registers (requested ++ requests steps) := by
  induction steps generalizing sheet requested with
  | nil => simpa [Stylesheet.run, requests] using h
  | cons step rest ih =>
    cases step with
    | emit maps =>
      have hrest := ih (h.emitClass maps)
      rw [List.append_assoc] at hrest
      exact hrest
    | extract =>
      have hdrained : sheet.extractCss.2.Registers requested := h
      exact ih hdrained

theorem classPrefix_run (sheet : Stylesheet) (steps : List Step) :
    (sheet.run steps).classPrefix = sheet.classPrefix := by
  induction steps generalizing sheet with
  | nil => rfl
  | cons step rest ih => cases step <;> exact ih _

/-- Right after a request the text holds the rules of the first map of the run that was given the
same class, and so those of the requested map unless another one was given the class before. -/
theorem emitClass_carries_first (classPrefix : String) (steps : List Step) (maps : List Styles) :
    let fresh := empty classPrefix
    let emitted := (fresh.run steps).emitClass maps
    emitted.1 = fresh.className (layered maps) ∧
    (∃ first : Styles, (requests steps ++ [layered maps]).find?
        (fun styles => fresh.className styles == emitted.1) = some first ∧
      (first.ruleText ("." ++ emitted.1)).toList <:+: emitted.2.css.toList) ∧
    ((∀ styles ∈ requests steps, fresh.className styles = emitted.1 →
        styles.ruleText ("." ++ emitted.1) = (layered maps).ruleText ("." ++ emitted.1)) →
      ((layered maps).ruleText ("." ++ emitted.1)).toList <:+: emitted.2.css.toList) := by
  intro fresh emitted
  have hclass := className_of_classPrefix (classPrefix_run fresh steps)
  have hname : emitted.1 = fresh.className (layered maps) := hclass _
  have hregisters : (fresh.run steps).Registers (requests steps) := by
    have h : fresh.Registers [] := fun name => rfl
    simpa using h.run steps
  obtain ⟨first, hf, hr⟩ := hregisters.rulesFor_eq maps
  have hcss := (fresh.run steps).rulesFor_infix_css maps
  simp only [hclass, ← hname] at hf
  rw [hr, hclass, ← hname] at hcss
  refine ⟨hname, ⟨first, hf, hcss⟩, fun hsame => ?_⟩
  -- The first map with the name is an earlier one or the one that is asked for now.
  rcases List.mem_append.1 (List.mem_of_find?_eq_some hf) with hm | hm
  · have hfirst : fresh.className first = emitted.1 := by
      have h := List.find?_some hf
      exact beq_iff_eq.1 h
    rw [← hsame first hm hfirst]
    exact hcss
  · rw [← List.mem_singleton.1 hm]
    exact hcss

def contentMap (text : String) : Styles := [("content", .declaration text)]

/-- A map is given the class of another one with the same hash, and none of its own rules. -/
theorem shared_class_lacks_rules :
    let before := (empty "go").run [.emit [contentMap "aĬ"]]
    let emitted := before.emitClass [contentMap "bÇ"]
    layered [contentMap "bÇ"] = contentMap "bÇ" ∧
    emitted.1 = (before.emitClass [contentMap "aĬ"]).1 ∧
    ¬ ((contentMap "bÇ").ruleText ("." ++ emitted.1)).toList <:+: emitted.2.css.toList := by
  refine ⟨rfl, by decide +kernel, ?_⟩
  rw [← Text.contains_iff]
  decide +kernel

end Theming.Stylesheet
