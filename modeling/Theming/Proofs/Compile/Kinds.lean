import Theming.Proofs.Compile.RuleText

/-! The kinds of keys in composed maps. Outside pseudo-elements a key of the vocabulary always has a
block or always a declaration, wherever it stands. No two maps that are merged on the way differ in
the kind of a key, so merging puts neither in the place of the other. -/

namespace Theming

def blockKeys : List String :=
  stateSelectors ++ pseudoElementSelectors ++ plainSelectors ++ [backdropFallback]

theorem blockKeys_disjoint : ∀ key ∈ blockKeys, key ∉ propertyKeys := by decide +kernel

theorem Place.kindOf?_eq_pseudoElement {place inside : Place} {key : String}
    (h : place.kindOf? key = some (.block inside)) :
    inside = .pseudoElement ↔ key ∈ pseudoElementSelectors := by
  obtain ⟨rfl, -⟩ := kindOf?_eq_block h
  constructor
  · rintro rfl
    obtain ⟨-, ⟨-, hk⟩ | ⟨hi, -⟩ | ⟨hi, -⟩ | ⟨hi, -⟩⟩ := kindOf?_eq_block h
    · exact hk
    · cases hi
    · cases hi
    · cases hi
  · intro hk
    rw [kindOf?, if_pos hk] at h
    cases h
    rfl

theorem Place.mem_blockKeys {place inside : Place} {key : String}
    (h : place.kindOf? key = some (.block inside)) : key ∈ blockKeys := by
  simp only [blockKeys, List.mem_append, List.mem_singleton]
  obtain ⟨-, ⟨-, hk⟩ | ⟨-, hk⟩ | ⟨-, hk⟩ | ⟨-, hk⟩⟩ := kindOf?_eq_block h <;> simp [hk]

theorem Place.mem_propertyKeys {place : Place} {key : String} (hp : place ≠ .pseudoElement)
    (h : place.kindOf? key = some .declaration) : key ∈ propertyKeys := by
  cases place with
  | pseudoElement => exact absurd rfl hp
  | plain =>
    by_contra hk
    simp [kindOf?, hk] at h
  | fallback =>
    by_cases hk : key = "background"
    · rw [hk]
      decide
    · simp [kindOf?, hk] at h
  | rules =>
    by_contra hk
    simp only [kindOf?, if_neg hk] at h
    grind

theorem KeyKind.at?_concat (kind : Option KeyKind) (path : List String) (key : String) :
    KeyKind.at? kind (path ++ [key]) = match KeyKind.at? kind path with
      | some (.block place) => place.kindOf? key
      | _ => none := by
  induction path generalizing kind with
  | nil =>
    rcases kind with _ | _ | place
    · rfl
    · rfl
    · rfl
  | cons first path ih =>
    rcases kind with _ | _ | place
    · rfl
    · rfl
    · exact ih (place.kindOf? first)

/-- Only inside a pseudo-element are the keys free. -/
theorem KeyKind.place_eq_pseudoElement_iff {path : List String} {place : Place}
    (h : KeyKind.at? (some (.block .rules)) path = some (.block place)) :
    place = .pseudoElement ↔ ∃ key ∈ pseudoElementSelectors, path.getLast? = some key := by
  cases path using List.reverseRecOn with
  | nil =>
    cases h
    simp
  | append_singleton path key =>
    rw [at?_concat] at h
    split at h
    · simpa using Place.kindOf?_eq_pseudoElement h
    · cases h

namespace Styles

/-- Directly inside a pseudo-element every key declares. Everywhere else the key alone decides. -/
def FixedKinds (styles : Styles) : Prop :=
  ∀ path inner, (Style.block styles).at? path = some (.block inner) →
    Table.Distinct inner ∧ ∀ key style, (key, style) ∈ inner →
      if ∃ last ∈ pseudoElementSelectors, path.getLast? = some last then style.isBlock = false
      else if style.isBlock then key ∈ blockKeys else key ∈ propertyKeys

theorem Fit.fixedKinds {styles : Styles} (h : Fit .rules styles) : FixedKinds styles := by
  intro path inner hat
  obtain ⟨place, hplace, hfit, -⟩ := h.block.at? hat
  have hpseudo := KeyKind.place_eq_pseudoElement_iff hplace
  refine ⟨(fit_iff.1 hfit).1, fun key style hm => ?_⟩
  have hfits : style.Fits (place.kindOf? key) := (fit_iff.1 hfit).2 _ hm
  split
  · next hfree =>
    rw [hpseudo.2 hfree] at hfits
    cases style with
    | declaration text => rfl
    | block deeper =>
      obtain ⟨_, hk, _⟩ := hfits
      cases hk
  · next hfixed =>
    cases style with
    | declaration text => exact Place.mem_propertyKeys (fun hp => hfixed (hpseudo.1 hp)) hfits
    | block deeper =>
      obtain ⟨_, hk, _⟩ := hfits
      exact Place.mem_blockKeys hk

end Styles

namespace Theme

open Styles

/-- The maps that are merged when styles are composed: the styles of a set onto those of its parent,
the items of a list one after the other, and the maps of a box one after the other. -/
inductive Merges (theme : Theme) : (base later : Styles) → Prop
  | parent {kind : SetKind} {trail : Trail} {parent : String} {set : StyleSet kind}
      {inherited own : Styles} (hp : theme.namedSetStyles kind trail parent = .ok inherited)
      (ho : theme.ownStyles set = .ok own) : Merges theme inherited own
  | setItem {kind : SetKind} {before : List (Source (StyleSet kind))}
      {item : Source (StyleSet kind)} {merged styles : Styles}
      (hb : theme.setListStyles [] before = .ok merged) (hi : theme.setStyles item = .ok styles) :
      Merges theme merged styles
  | boxItem {context : BoxContext} {trail : Trail} {before : List (Source Box)}
      {item : Source Box} {merged styles : Styles}
      (hb : theme.listStyles (theme.namedBoxStyles context trail) [] before = .ok merged)
      (hi : theme.sourceStyles (theme.namedBoxStyles context trail) item = .ok (some styles)) :
      Merges theme merged styles
  | boxMap {context : BoxContext} {trail : Trail} {slots : BoxSlots}
      {states : States (Source Box)} {plain : List Styles} {blocks : List (List Styles)}
      {before after : List Styles} {map : Styles}
      (hp : theme.plainStyles (theme.namedBoxStyles context trail) slots = .ok plain)
      (hb : State.boxOrder.mapM (fun state =>
        theme.boxStateStyles (theme.namedBoxStyles context trail) state (states state)) = .ok blocks)
      (hm : blocks.reverse.flatten ++ plain = before ++ map :: after) :
      Merges theme (mergeAll before) map

variable {theme : Theme}

theorem fit_of_namedSetStyles {kind : SetKind} {trail : Trail} {reference : String}
    {styles : Styles} (h : theme.namedSetStyles kind trail reference = .ok styles) :
    Fit .rules styles :=
  mergeClosed_fit.namedSetStyles (fun _ _ => fit_of_ownStyles) trail reference h

theorem Merges.fit {base later : Styles} (h : theme.Merges base later) :
    Fit .rules base ∧ Fit .rules later := by
  cases h with
  | parent hp ho => exact ⟨fit_of_namedSetStyles hp, fit_of_ownStyles ho⟩
  | @setItem kind before item merged styles hb hi =>
    exact ⟨mergeClosed_fit.setListStyles (fun _ _ => fit_of_ownStyles) before .nil hb,
      fit_of_setStyles item hi⟩
  | @boxItem context trail before item merged styles hb hi =>
    exact ⟨fit_of_listStyles (fit_of_namedBoxStyles trail) before .nil hb,
      fit_of_sourceStyles (fit_of_namedBoxStyles trail) item hi⟩
  | @boxMap context trail slots states plain blocks before after _ hp hb hm =>
    have hrefer : FitReferences (theme.namedBoxStyles context trail) := fit_of_namedBoxStyles trail
    have hall := fit_of_boxMaps hrefer
      (fun state _ => fit_of_boxStateStyles hrefer (states state)) hp hb
    rw [hm] at hall
    exact ⟨Fit.mergeAll fun map hmap => hall map (List.mem_append_left _ hmap),
      hall later (by simp)⟩

theorem composed_maps_keep_kinds (theme : Theme) :
    (∀ key ∈ blockKeys, key ∉ propertyKeys) ∧
    (∀ (kind : SetKind) (source : Source (StyleSet kind)) styles,
      theme.setStyles source = .ok styles → FixedKinds styles) ∧
    (∀ context source styles, theme.boxCss context source = .ok (some styles) →
      FixedKinds styles) ∧
    ∀ base later, theme.Merges base later →
      (Style.block base).Compatible (.block later) ∧
      (Style.block base).Compatible (.block (Styles.merge base later)) ∧
      (Style.block later).Compatible (.block (Styles.merge base later)) := by
  refine ⟨blockKeys_disjoint, fun kind source styles h => (fit_of_setStyles source h).fixedKinds,
    fun context source styles h => ?_, fun base later h => ?_⟩
  · exact (fit_of_sourceStyles (fit_of_namedBoxStyles []) source h).fixedKinds
  · obtain ⟨hbase, hlater⟩ := h.fit
    have hmerged : Fit .rules (Styles.merge base later) := hbase.merge hlater
    exact ⟨hbase.block.compatible hlater.block, hbase.block.compatible hmerged.block,
      hlater.block.compatible hmerged.block⟩

theorem frosted_keeps_kinds :
    Theme.record.blank.boxCss .global (.inline frosted) = .ok (some frostedStyles) ∧
      FixedKinds frostedStyles ∧ Theme.record.blank.Merges frostedStyles frostedStyles ∧
      (Style.block frostedStyles).Compatible
        (.block (Styles.merge frostedStyles frostedStyles)) := by
  have hmerges : Theme.record.blank.Merges frostedStyles frostedStyles :=
    @Merges.boxItem _ .global [] [.inline frosted] (.inline frosted) _ _ rfl boxCss_frosted
  obtain ⟨-, -, hkinds, hkeeps⟩ := composed_maps_keep_kinds Theme.record.blank
  exact ⟨boxCss_frosted, hkinds _ _ _ boxCss_frosted, hmerges, (hkeeps _ _ hmerges).2.1⟩

end Theme

end Theming
