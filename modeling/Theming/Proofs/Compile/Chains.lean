import Mathlib.Data.List.Chain
import Theming.Proofs.Compile.Variants

/-! Chains of components. A component is laid over the one that it extends, that one over the next,
and so on. A chain either comes back to a component it has met, and then nothing is compiled, or it
has a root, from which on all components of the chain are compiled and laid over each other. -/

namespace Theming

variable {σ : Type}

namespace Theme

open Compile

variable [StyleEngine σ] {theme : Theme} {trail : Trail} {name parent last : String}
  {earlier : List String}

/-- The component that a component extends, if both exist. -/
def parent? (theme : Theme) (name : String) : Option String := do
  let component ← theme.components.find? name
  let reference ← component.parent
  let _ ← theme.components.find? (referenceName reference)
  return referenceName reference

/-- What the component of a name compiles itself. One that does not exist compiles nothing. -/
def ownOf (theme : Theme) (name : String) : Compile σ (List CompiledVariant) :=
  match theme.components.find? name with
  | some component => theme.ownVariants name component
  | none => pure []

/-- From a component along the chain, past components that are all different. -/
structure Walk (theme : Theme) (name : String) (earlier : List String) (last : String) : Prop where
  head? : (earlier ++ [last]).head? = some name
  along : (earlier ++ [last]).IsChain fun child parent => theme.parent? child = some parent
  distinct : earlier.Nodup

theorem compileFrom_of_seen (h : (theme.parent? name).isSome ∨ (theme.components.find? name).isSome)
    (seen : name ∈ trail) : (theme.compileFrom trail name : Compile σ _) =
      throw (.cycle .components (trail ++ [name])) := by
  rw [compileFrom]
  split
  · next hf => simp [parent?, hf] at h
  · rw [dif_pos seen]

theorem compileFrom_of_parent (h : theme.parent? name = some parent) (fresh : name ∉ trail) :
    (theme.compileFrom trail name : Compile σ _) = (do
      let inherited ← CompiledComponent.variants <$> theme.compileFrom (trail ++ [name]) parent
      let own ← theme.ownOf name
      return ⟨name, CompiledVariant.layerAll inherited own⟩) := by
  obtain ⟨component, hc, h⟩ := Option.bind_eq_some_iff.1 h
  obtain ⟨reference, hr, h⟩ := Option.bind_eq_some_iff.1 h
  obtain ⟨_, hp, h⟩ := Option.bind_eq_some_iff.1 h
  cases h
  rw [compileFrom]
  split
  · next hf => rw [hc] at hf; cases hf
  · next component' hf =>
    obtain rfl : component = component' := Option.some.inj (hc.symm.trans hf)
    simp only [dif_neg fresh, hr, ownOf, hc]

theorem compileFrom_of_root (h : theme.parent? name = none) (fresh : name ∉ trail) :
    (theme.compileFrom trail name : Compile σ _) = (do
      let own ← theme.ownOf name
      return ⟨name, CompiledVariant.layerAll [] own⟩) := by
  rw [compileFrom]
  split
  · next hf => simp [ownOf, hf, CompiledVariant.layerAll]
  · next component hf =>
    simp only [dif_neg fresh, ownOf, hf]
    cases hr : component.parent with
    | none => simp
    | some reference =>
      have hnone : theme.components.find? (referenceName reference) = none := by
        cases hp : theme.components.find? (referenceName reference) with
        | none => rfl
        | some other => simp [parent?, hf, hr, hp] at h
      have hcompiled : (theme.compileFrom (trail ++ [name]) (referenceName reference) :
          Compile σ _) = pure ⟨referenceName reference, []⟩ := by
        rw [compileFrom]
        split
        · rfl
        · next other ho => rw [hnone] at ho; cases ho
      simp [hcompiled]

/-- The components that a walk has passed are laid over what the last one gives. -/
theorem variants_compileFrom (earlier : List String) (trail : Trail) (name : String)
    (head : (earlier ++ [last]).head? = some name)
    (along : (earlier ++ [last]).IsChain fun child parent => theme.parent? child = some parent)
    (distinct : (trail ++ earlier).Nodup) :
    (CompiledComponent.variants <$> theme.compileFrom trail name : Compile σ _) = (do
      let inherited ← CompiledComponent.variants <$> theme.compileFrom (trail ++ earlier) last
      let owns ← earlier.reverse.mapM theme.ownOf
      return CompiledVariant.layerAll inherited owns.flatten) := by
  induction earlier generalizing trail name with
  | nil =>
    obtain rfl : last = name := by simpa using head
    simp [CompiledVariant.layerAll]
  | cons first rest ih =>
    obtain rfl : first = name := by simpa using head
    obtain ⟨next, hnext⟩ : ∃ next, (rest ++ [last]).head? = some next := by
      cases rest <;> simp
    have hparent : theme.parent? first = some next := (List.isChain_cons.1 along).1 next hnext
    have hfresh : first ∉ trail := fun hm =>
      (List.nodup_append.1 distinct).2.2 first hm first (by simp) rfl
    have hrest := ih (trail ++ [first]) next hnext (List.isChain_cons.1 along).2
      (by simpa using distinct)
    rw [compileFrom_of_parent hparent hfresh, hrest]
    simp [List.mapM_append, CompiledVariant.layerAll, List.foldl_append]

theorem component_compileFrom (trail : Trail) (name : String) :
    (theme.compileFrom trail name : Compile σ _) =
      (fun variants => ⟨name, variants⟩) <$>
        (CompiledComponent.variants <$> theme.compileFrom trail name) := by
  rw [compileFrom]
  split
  · simp
  · next component _ =>
    split
    · rfl
    · cases component.parent <;> simp

theorem exists_walk (theme : Theme) (trail : Trail) (name : String) (h : trail.Nodup) :
    ∃ earlier last, (earlier ++ [last]).head? = some name ∧
      ((earlier ++ [last]).IsChain fun child parent => theme.parent? child = some parent) ∧
      (trail ++ earlier).Nodup ∧ (last ∈ trail ++ earlier ∨ theme.parent? last = none) := by
  by_cases seen : name ∈ trail
  · exact ⟨[], name, rfl, .singleton name, by simpa using h, .inl (by simpa using seen)⟩
  · cases hp : theme.parent? name with
    | none => exact ⟨[], name, rfl, .singleton name, by simpa using h, .inr hp⟩
    | some parent =>
      have hnodup : (trail ++ [name]).Nodup :=
        List.nodup_append.2 ⟨h, by simp, by simpa using fun a ha => by grind⟩
      have shorter : Trail.ahead theme.components.keys (trail ++ [name]) parent <
          Trail.ahead theme.components.keys trail name := by
        obtain ⟨component, hc, hp⟩ := Option.bind_eq_some_iff.1 hp
        obtain ⟨reference, hr, hp⟩ := Option.bind_eq_some_iff.1 hp
        obtain ⟨other, ho, hp⟩ := Option.bind_eq_some_iff.1 hp
        cases hp
        exact Trail.ahead_append_lt seen (Table.mem_keys_of_find? ho)
      obtain ⟨earlier, last, head, along, distinct, event⟩ :=
        exists_walk theme (trail ++ [name]) parent hnodup
      refine ⟨name :: earlier, last, rfl, ?_, by simpa using distinct, by simpa using event⟩
      refine List.isChain_cons.2 ⟨fun next hn => ?_, along⟩
      obtain rfl : parent = next := Option.some.inj (head.symm.trans hn)
      exact hp
termination_by Trail.ahead theme.components.keys trail name

theorem yields_ownVariants {component : Component} (h : component.Distinct) (name : String) :
    YieldsIn (fun _ => True) (theme.ownVariants name component : Compile σ _) fun own =>
      (own.map (·.variant)).Nodup ∧ ∀ v ∈ own, v.parts.Distinct := by
  intro engine own after hI hrun
  obtain ⟨-, hown⟩ := yields_own assigns_handedOut name component engine own after hI hrun
  refine ⟨trivial, hown.nodup (h.nodup_entries name), fun v hv => ?_⟩
  obtain ⟨entry, -, hmade⟩ := hown.exists_entry hv
  exact hmade.distinct h.defaultParts

theorem compile_of_cycle (walk : theme.Walk name earlier last) (seen : last ∈ earlier) :
    (theme.compile name : Compile σ _) = throw (.cycle .components (earlier ++ [last])) := by
  have hexists : (theme.parent? last).isSome ∨ (theme.components.find? last).isSome := by
    -- the component was met before, and the walk went on from there
    obtain ⟨before, after, rfl⟩ := List.append_of_mem seen
    obtain ⟨next, hnext⟩ : ∃ next, (after ++ [last]).head? = some next := by
      cases after <;> simp
    have hrest := (List.isChain_append.1 (by simpa using walk.along)).2.1
    exact .inl (by simp [(List.isChain_cons.1 hrest).1 next hnext])
  rw [compile, component_compileFrom,
    variants_compileFrom earlier [] name walk.head? walk.along (by simpa using walk.distinct),
    List.nil_append, compileFrom_of_seen hexists seen]
  rfl

theorem compile_of_root (walk : theme.Walk name earlier last) (fresh : last ∉ earlier)
    (root : theme.parent? last = none) : (theme.compile name : Compile σ _) = (do
      let owns ← (earlier ++ [last]).reverse.mapM theme.ownOf
      return ⟨name, CompiledVariant.layerAll [] owns.flatten⟩) := by
  rw [compile, component_compileFrom,
    variants_compileFrom earlier [] name walk.head? walk.along (by simpa using walk.distinct),
    List.nil_append, compileFrom_of_root root fresh]
  simp [CompiledVariant.layerAll, List.foldl_append]

theorem yields_chain (h : theme.Distinct) (names : List String) :
    YieldsIn (fun _ => True) (names.mapM theme.ownOf : Compile σ _) fun owns =>
      ∀ own ∈ owns, (own.map (·.variant)).Nodup ∧ ∀ v ∈ own, v.parts.Distinct := by
  have hone (name : String) : YieldsIn (fun _ => True) (theme.ownOf name : Compile σ _) fun own =>
      (own.map (·.variant)).Nodup ∧ ∀ v ∈ own, v.parts.Distinct := by
    unfold ownOf
    split
    · next component hc => exact yields_ownVariants (h _ (Table.mem_of_find? hc)) name
    · exact .pure (by simp)
  intro engine owns after hI hrun
  refine ⟨trivial, ?_⟩
  obtain ⟨-, hall⟩ := YieldsIn.mapM hone names engine owns after hI hrun
  clear hrun
  induction hall with
  | nil => simp
  | cons hfirst _ ih => exact List.forall_mem_cons.2 ⟨hfirst, ih⟩

/-- A chain that comes back to one of its components is a cycle, for which no class is asked. Any
other chain has a root. Its components are compiled from the root on and laid over each other. -/
theorem components_layer_their_chain {config : Value} (proper : config.Proper)
    (read : Theme.ofConfig config = .ok theme) (name : String) :
    (∀ earlier last, theme.Walk name earlier last → last ∈ earlier → ∀ engine : σ,
      (theme.compile name).run.run engine =
        (.error (.cycle .components (earlier ++ [last])), engine)) ∧
    (∀ earlier last, theme.Walk name earlier last → last ∉ earlier → theme.parent? last = none →
      (theme.compile name : Compile σ _) = (do
        let owns ← (earlier ++ [last]).reverse.mapM theme.ownOf
        return ⟨name, CompiledVariant.layerAll [] owns.flatten⟩) ∧
      ∀ (engine after : σ) (owns : List (List CompiledVariant)),
        ((earlier ++ [last]).reverse.mapM theme.ownOf).run.run engine = (.ok owns, after) →
        ∃ variants, (theme.compile name).run.run engine = (.ok ⟨name, variants⟩, after) ∧
          (variants.map (·.variant)).Nodup ∧
          variants.map (·.variant) = (owns.flatten.map (·.variant)).eraseDups ∧
          ∀ v ∈ variants, ∃ first rest,
            (owns.filterMap fun own => own.find? (·.variant == v.variant)) = first :: rest ∧
            v.Layers first rest) ∧
    ∃ earlier last, theme.Walk name earlier last ∧
      (last ∈ earlier ∨ last ∉ earlier ∧ theme.parent? last = none) := by
  refine ⟨fun earlier last walk seen engine => ?_, fun earlier last walk fresh root => ?_, ?_⟩
  · rw [compile_of_cycle walk seen]
    rfl
  · have hcompile := compile_of_root (σ := σ) walk fresh root
    refine ⟨hcompile, fun engine after owns hrun => ?_⟩
    obtain ⟨-, howns⟩ :=
      yields_chain (distinct_of_ofConfig proper read) _ engine owns after trivial hrun
    refine ⟨CompiledVariant.layerAll [] owns.flatten, ?_, CompiledVariant.layerAll_chain
      (fun own ho => (howns own ho).1) (fun own ho => (howns own ho).2)⟩
    rw [hcompile, run_bind, hrun]
    rfl
  · obtain ⟨earlier, last, head, along, distinct, event⟩ :=
      exists_walk theme [] name List.nodup_nil
    refine ⟨earlier, last, ⟨head, along, distinct⟩, ?_⟩
    by_cases seen : last ∈ earlier
    · exact .inl seen
    · exact .inr ⟨seen, event.resolve_left (by simpa using seen)⟩

def cardConfig : Value :=
  let number (n : Int) : Value := .number (.integer n)
  let variant (padding : Int) (part : String) (props : List (String × Value)) : Value := .object [
    ("theming", .object [("padding", number padding)]),
    ("parts", .object [(part, .object [("width", number padding)])]),
    ("defaultProps", .object props)]
  .object [("name", .text "T"), ("version", .text "1"), ("components", .object [
    ("base", .object [("default", variant 1 "icon" [("size", number 1), ("wide", .flag true)])]),
    ("card", .object [("__extends", .text "$$base"),
      ("default", variant 2 "title" [("size", number 2)])])])]

theorem card_layers_over_base : cardConfig.Proper ∧ ∃ theme, Theme.ofConfig cardConfig = .ok theme ∧
    theme.Walk "card" ["card"] "base" ∧ theme.parent? "base" = none ∧
    ∃ v, (theme.compile "card").run.run (Requested.mk []) = (.ok ⟨"card", [v]⟩, ⟨[
        [("padding", .declaration "1")], [("width", .declaration "1")],
        [("padding", .declaration "2")], [("width", .declaration "2")]]⟩) ∧
      v.variant = "default" ∧ v.parts.keys = ["icon", "title"] ∧
      v.defaultProps = .object [("size", .number (.integer 2)), ("wide", .flag true)] := by
  have proper : cardConfig.Proper := by
    simp [cardConfig, Value.Proper, Value.ProperEntries, Table.Distinct, Table.keys]
  obtain ⟨theme, read⟩ : ∃ theme, Theme.ofConfig cardConfig = .ok theme := ⟨_, rfl⟩
  have walk : theme.Walk "card" ["card"] "base" := by
    cases read
    exact ⟨rfl, .cons_cons rfl (.singleton "base"), by simp⟩
  have root : theme.parent? "base" = none := by
    cases read
    rfl
  have hrun : ((["card"] ++ ["base"]).reverse.mapM theme.ownOf).run.run (Requested.mk []) = (.ok [
      [⟨"default", "c", [("icon", "c")],
        .object [("size", .number (.integer 1)), ("wide", .flag true)]⟩],
      [⟨"default", "c", [("title", "c")], .object [("size", .number (.integer 2))]⟩]], ⟨[
        [("padding", .declaration "1")], [("width", .declaration "1")],
        [("padding", .declaration "2")], [("width", .declaration "2")]]⟩) := by
    cases read
    rfl
  obtain ⟨variants, hcompiled, -, hnames, hlayers⟩ :=
    ((components_layer_their_chain proper read "card").2.1 ["card"] "base" walk (by decide) root).2
      _ _ _ hrun
  obtain ⟨v, rfl, hv⟩ : ∃ v, variants = [v] ∧ v.variant = "default" := by
    have hone : variants.map (·.variant) = ["default"] := hnames
    obtain ⟨v, hv, rest⟩ := List.map_eq_singleton_iff.1 hone
    exact ⟨v, hv, rest⟩
  obtain ⟨first, rest, hmembers, layers⟩ := hlayers v (by simp)
  rw [hv] at hmembers
  cases hmembers
  exact ⟨proper, theme, read, walk, root, v, hcompiled, hv, layers.parts, layers.defaultProps⟩

end Theme

end Theming
