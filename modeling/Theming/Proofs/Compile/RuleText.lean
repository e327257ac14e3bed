import Theming.Proofs.Compile.Boxes
import Theming.Proofs.Css.RuleList

/-! The text of composed maps. The selectors in the vocabulary all start at their parent, and the
only at-rule around declarations is the one for engines without backdrop filters. -/

namespace Theming

open Selector Styles

/-- The keys of blocks that stand for selectors below the present one. -/
def nestedKeys : List String := pseudoElementSelectors ++ stateSelectors ++ plainSelectors

theorem fromParent_of_mem_nestedKeys : ∀ key ∈ nestedKeys, FromParent key := by decide +kernel

theorem mem_nestedKeys_of_kindOf? {place inside : Place} {key : String}
    (h : place.kindOf? key = some (.block inside)) (hinside : inside ≠ .fallback) :
    key ∈ nestedKeys := by
  obtain ⟨-, ⟨-, hk⟩ | ⟨-, hk⟩ | ⟨-, hk⟩ | ⟨rfl, -⟩⟩ := Place.kindOf?_eq_block h
  · simp [nestedKeys, hk]
  · simp [nestedKeys, hk]
  · simp [nestedKeys, hk]
  · exact absurd rfl hinside

theorem nested_of_fromParent {key : String} (h : FromParent key) :
    BlockKind.ofKey key = .nested ∧ isAtRule key = false := by
  obtain ⟨tail, hkey⟩ := exists_tail_of_fromParent h
  simp [BlockKind.ofKey, isAtRule, hkey]

theorem eq_backdropFallback_of_kindOf? {place : Place} {key : String}
    (h : place.kindOf? key = some (.block .fallback)) : key = backdropFallback := by
  obtain ⟨-, ⟨hi, -⟩ | ⟨hi, -⟩ | ⟨hi, -⟩ | ⟨-, hk⟩⟩ := Place.kindOf?_eq_block h
  · cases hi
  · cases hi
  · cases hi
  · exact hk

theorem Styles.Fit.eq_background {styles : Styles} (h : Fit .fallback styles) (hne : styles ≠ []) :
    ∃ text, styles = [("background", .declaration text)] := by
  have hentry : ∀ e ∈ styles, e.1 = "background" ∧ ∃ text, e.2 = .declaration text := by
    rintro ⟨key, style⟩ he
    have hfits := (fit_iff.1 h).2 _ he
    have hkey : key = "background" := by
      by_contra hkey
      simp only [Place.kindOf?, if_neg hkey] at hfits
      cases style with
      | declaration text => cases hfits
      | block inner =>
        obtain ⟨_, hk, _⟩ := hfits
        cases hk
    cases hkey
    cases style with
    | declaration text => exact ⟨rfl, text, rfl⟩
    | block inner =>
      obtain ⟨_, hk, _⟩ := hfits
      cases hk
  obtain ⟨first, rest, rfl⟩ := List.exists_cons_of_ne_nil hne
  obtain ⟨hkey, text, htext⟩ := hentry first List.mem_cons_self
  have hrest : rest = [] := by
    rcases rest with _ | ⟨second, rest⟩
    · rfl
    · have hsecond := (hentry second (by simp)).1
      have hd : first.1 ∉ Table.keys (second :: rest) := (List.nodup_cons.1 (fit_iff.1 h).1).1
      exact absurd (by simp [Table.keys, hkey, hsecond]) hd
  exact ⟨text, by rw [hrest, ← hkey, ← htext]⟩

namespace Rules

/-- The rules of a map at a path, as its list of rules gives them. -/
def listed (root : String) (path : List String) (styles : Styles) : Rules :=
  let own : Rule := ⟨path, styles.texts⟩
  ⟨String.join (own.statements.map Rule.statementText),
    String.join (own.declarations.map Rule.declarationText),
    String.join ((rulesOfBlocks (Styles.innerBlocks path styles)).map (Rule.text root))⟩

variable {root : String} {path : List String}

theorem listed_cons (key : String) (style : Style) (rest : Styles) :
    listed root path ((key, style) :: rest) =
      (listed root path [(key, style)]).append (listed root path rest) := by
  have htexts : Styles.texts ((key, style) :: rest) =
      Styles.texts [(key, style)] ++ rest.texts := by
    rw [Styles.texts, Styles.texts, Styles.texts, ← List.filterMap_append]
    rfl
  have hblocks : Styles.innerBlocks path ((key, style) :: rest) =
      Styles.innerBlocks path [(key, style)] ++ Styles.innerBlocks path rest := by
    simp [Styles.innerBlocks]
  simp [listed, append, Rule.statements, Rule.declarations, rulesOfBlocks, htexts, hblocks]

theorem join_declarationText_ne_empty {entries : List (String × String)} (h : entries ≠ []) :
    String.join (entries.map Rule.declarationText) ≠ "" := by
  obtain ⟨e, rest, rfl⟩ := List.exists_cons_of_ne_nil h
  intro hempty
  have hchars := congrArg String.toList hempty
  simp [Rule.declarationText] at hchars

/-- What is written for a block: its own rule and those of the blocks inside it. -/
theorem text_listed (hc : Rule.conditionsAt path = []) (hp : Parents (Rule.selectorsAt root path))
    (styles : Styles) :
    (listed root path styles).text (",".intercalate (Rule.selectorsAt root path)) =
      String.join ((rulesOfBlocks (Style.blocks path (.block styles))).map (Rule.text root)) := by
  have hroot : (",".intercalate (Rule.selectorsAt root path)).isEmpty = false := by
    simpa using hp.intercalate_ne_empty
  have hown : (listed root path styles).text (",".intercalate (Rule.selectorsAt root path)) =
      Rule.text root ⟨path, styles.texts⟩ ++ (listed root path styles).blocks := by
    simp only [Rules.text, Rule.text, listed, hc, List.foldr_nil, hroot, Bool.false_or]
    by_cases hd : Rule.declarations ⟨path, styles.texts⟩ = []
    · simp [hd]
    · have hne := join_declarationText_ne_empty hd
      simp [hd, hne]
  have hblocks : rulesOfBlocks (Style.blocks path (.block styles)) =
      (if styles.texts.isEmpty then [] else [⟨path, styles.texts⟩]) ++
        rulesOfBlocks (Styles.innerBlocks path styles) := by
    by_cases hempty : styles.texts = []
    · simp [rulesOfBlocks, Style.blocks, hempty]
    · simp [rulesOfBlocks, Style.blocks, hempty]
  rw [hown, hblocks]
  by_cases hempty : styles.texts = []
  · simp [hempty, Rule.text, Rule.statements, Rule.declarations, hc, listed]
  · simp [hempty, listed]

end Rules

theorem Style.rules_declaration (root selector : String) (path : List String)
    (key text : String) : Style.rules selector key (.declaration text) =
      Rules.listed root path [(key, .declaration text)] := by
  by_cases hk : isAtRule key
  · simp [Style.rules, Rules.listed, Styles.texts, Style.text?, Rule.statements,
      Rule.declarations, rulesOfBlocks, Styles.innerBlocks, Style.blocks, Rules.empty, hk,
      Rule.statementText]
  · simp [Style.rules, Rules.listed, Styles.texts, Style.text?, Rule.statements,
      Rule.declarations, rulesOfBlocks, Styles.innerBlocks, Style.blocks, Rules.empty, hk,
      Rule.declarationText]

section

variable {root : String} {path : List String} (hc : Rule.conditionsAt path = [])
  (hp : Parents (Rule.selectorsAt root path))

include hc hp

theorem Style.rules_fallback (text : String) :
    Style.rules (",".intercalate (Rule.selectorsAt root path)) backdropFallback
        (.block [("background", .declaration text)]) =
      Rules.listed root path
        [(backdropFallback, .block [("background", .declaration text)])] := by
  have hat : isAtRule backdropFallback = true := by decide
  have hkind : BlockKind.ofKey backdropFallback = .conditional := by decide
  have hbackground : isAtRule "background" = false := by decide
  have hroot : (",".intercalate (Rule.selectorsAt root path)).isEmpty = false := by
    simpa using hp.intercalate_ne_empty
  have hselectors : Rule.selectorsAt root (path ++ [backdropFallback]) =
      Rule.selectorsAt root path := by
    simp [Rule.selectorsAt, hat]
  have hconditions : Rule.conditionsAt (path ++ [backdropFallback]) = [backdropFallback] := by
    rw [Rule.conditionsAt] at hc
    simp [Rule.conditionsAt, hc, hat]
  have hrule : Rules.braced backdropFallback ((Styles.rules
      (",".intercalate (Rule.selectorsAt root path)) [("background", .declaration text)]).text
        (",".intercalate (Rule.selectorsAt root path))) =
      Rule.text root ⟨path ++ [backdropFallback], [("background", text)]⟩ := by
    simp only [Rule.text, hselectors, hconditions]
    simp [Styles.rules, Style.rules, Rules.text, hbackground, Rule.statements, hroot,
      Rule.declarations, Rule.declarationText, Rules.append, Rules.empty]
  simp only [Style.rules, hkind, hrule]
  simp [Rules.listed, Styles.texts, Style.text?, Rule.statements, Rule.declarations,
    rulesOfBlocks, Styles.innerBlocks, Style.blocks, Rules.empty]

end

mutual

theorem Style.rules_eq_listed {root : String} {path : List String} {place : Place} {key : String}
    (hc : Rule.conditionsAt path = [])
    (hp : Parents (Rule.selectorsAt root path)) : {style : Style} →
    style.Fits (place.kindOf? key) →
    Style.rules (",".intercalate (Rule.selectorsAt root path)) key style =
      Rules.listed root path [(key, style)]
  | .declaration text, _ => Style.rules_declaration root _ path key text
  | .block styles, hs => by
    obtain ⟨inside, hk, hfit, hfull⟩ := hs
    by_cases hinside : inside = .fallback
    · cases hinside
      cases eq_backdropFallback_of_kindOf? hk
      obtain ⟨text, rfl⟩ := hfit.eq_background (hfull rfl)
      exact Style.rules_fallback hc hp text
    · have hparent := fromParent_of_mem_nestedKeys key (mem_nestedKeys_of_kindOf? hk hinside)
      obtain ⟨hnested, hat⟩ := nested_of_fromParent hparent
      have hselectors : Rule.selectorsAt root (path ++ [key]) =
          below (Rule.selectorsAt root path) key := by
        simp [Rule.selectorsAt, hat]
      have hc' : Rule.conditionsAt (path ++ [key]) = [] := by
        rw [Rule.conditionsAt] at hc
        simp [Rule.conditionsAt, hc, hat]
      have hp' : Parents (Rule.selectorsAt root (path ++ [key])) := by
        rw [hselectors]
        exact hp.below hparent
      have hinner := Styles.rules_eq_listed hc' hp' hfit
      have htext := Rules.text_listed hc' hp' styles
      rw [hselectors, ← nest_eq_below hp hparent] at hinner htext
      rw [← hinner] at htext
      simp [Style.rules, hnested, htext, Rules.listed, Styles.texts, Style.text?, Rules.empty,
        Rule.statements, Rule.declarations, Styles.innerBlocks]
termination_by structural style => style

theorem Styles.rules_eq_listed {root : String} {path : List String} {place : Place}
    (hc : Rule.conditionsAt path = [])
    (hp : Parents (Rule.selectorsAt root path)) : {styles : List (String × Style)} →
    Fit place styles →
    Styles.rules (",".intercalate (Rule.selectorsAt root path)) styles =
      Rules.listed root path styles
  | [], _ => rfl
  | (key, style) :: rest, ⟨_, hs, hr⟩ => by
    rw [Styles.rules, Rules.listed_cons, Style.rules_eq_listed hc hp hs,
      Styles.rules_eq_listed hc hp hr]
termination_by structural styles => styles

end

/-- The way to a block leads through selectors. Only at its end may stand the condition for engines
without backdrop filters. -/
theorem KeyKind.path_of_at? {place inside : Place} {path : List String}
    (h : KeyKind.at? (some (.block place)) path = some (.block inside)) :
    ∃ front, (∀ key ∈ front, key ∈ nestedKeys) ∧
      (path = front ∨ inside = .fallback ∧ path = front ++ [backdropFallback]) := by
  induction path generalizing place with
  | nil => exact ⟨[], by simp, .inl rfl⟩
  | cons key path ih =>
    rw [KeyKind.at?] at h
    cases hk : place.kindOf? key with
    | none =>
      rw [hk, KeyKind.at?_none] at h
      cases h
    | some kind =>
      rw [hk] at h
      cases kind with
      | declaration => cases path <;> cases h
      | block next =>
        by_cases hnext : next = .fallback
        · -- Nothing inside the condition has a block.
          subst hnext
          cases path with
          | nil =>
            cases h
            exact ⟨[], by simp, .inr ⟨rfl, by rw [eq_backdropFallback_of_kindOf? hk]; rfl⟩⟩
          | cons key' path =>
            rw [KeyKind.at?, Place.kindOf?] at h
            split at h <;> cases path <;> cases h
        · obtain ⟨front, hfront, hpath⟩ := ih h
          have hkey := mem_nestedKeys_of_kindOf? hk hnext
          refine ⟨key :: front, List.forall_mem_cons.2 ⟨hkey, hfront⟩, ?_⟩
          exact hpath.imp (congrArg (key :: ·)) (And.imp_right (congrArg (key :: ·)))

theorem isAtRule_of_mem_nestedKeys {key : String} (h : key ∈ nestedKeys) : isAtRule key = false :=
  (nested_of_fromParent (fromParent_of_mem_nestedKeys key h)).2

/-- What passes from parents to the selectors below them holds at every place of a composed map. -/
theorem Styles.Fit.forall_mem_selectorsAt {styles inner : Styles} {path : List String}
    (h : Fit .rules styles) (hat : (Style.block styles).at? path = some (.block inner))
    {root : String} {P : String → Prop} (hroot : P root)
    (hbelow : ∀ key ∈ nestedKeys, ∀ parents, (∀ parent ∈ parents, P parent) →
      ∀ selector ∈ below parents key, P selector) :
    ∀ selector ∈ Rule.selectorsAt root path, P selector := by
  obtain ⟨inside, hkind, _⟩ := h.block.at? hat
  obtain ⟨front, hfront, hpath⟩ := KeyKind.path_of_at? hkind
  have hkeys : ∀ key ∈ path.filter fun key => !isAtRule key, key ∈ nestedKeys := by
    intro key hk
    obtain ⟨hm, hplain⟩ := List.mem_filter.1 hk
    rcases hpath with rfl | ⟨-, rfl⟩
    · exact hfront key hm
    · rcases List.mem_append.1 hm with hm | hm
      · exact hfront key hm
      · rw [List.mem_singleton.1 hm] at hplain
        cases hplain
  have hfold (keys : List String) (hk : ∀ key ∈ keys, key ∈ nestedKeys) (parents : List String)
      (hp : ∀ parent ∈ parents, P parent) : ∀ selector ∈ keys.foldl below parents, P selector := by
    induction keys generalizing parents with
    | nil => exact hp
    | cons key keys ih =>
      exact ih (fun k hm => hk k (List.mem_cons_of_mem key hm)) _
        (hbelow key (hk key List.mem_cons_self) parents hp)
  exact hfold _ hkeys [root] (by simpa using hroot)

theorem Rule.parents_class {name : String} (hname : ',' ∉ name.toList) :
    Parents (selectorsAt ("." ++ name) []) := by
  refine ⟨by simp [selectorsAt], fun selector hs => ?_⟩
  rw [List.mem_singleton.1 hs]
  refine ⟨fun he => ?_, by simpa using hname⟩
  have hchars := congrArg String.toList he
  simp at hchars

theorem Styles.Fit.ruleText_eq {styles : Styles} (h : Fit .rules styles) {name : String}
    (hname : ',' ∉ name.toList) : styles.ruleText ("." ++ name) =
      String.join (styles.ruleList.map (Rule.text ("." ++ name))) := by
  have hlisted := Styles.rules_eq_listed rfl (Rule.parents_class hname) h
  have htext := Rules.text_listed rfl (Rule.parents_class hname) styles
  rw [← hlisted] at htext
  simpa [Styles.ruleText, Rule.selectorsAt, Styles.ruleList] using htext

namespace Theme

def frosted : Box :=
  let filter : Filter := ⟨some (.number (.integer 2)), some (.plain (.number (.integer 3)))⟩
  let props : ColorProps :=
    { ColorProps.record.blank with backdropFilter := some (.filter filter) }
  let disabled : Box := .mk
    { BoxSlots.record.blank with colorSet := some (.inline ⟨none, props, fun _ => none, none⟩) }
    fun _ => none
  .mk { BoxSlots.record.blank with padding := some (.number (.integer 1)) }
    (States.put (fun _ => none) .disabled (some (.inline disabled)))

def frostedStyles : Styles :=
  [("padding", .declaration "1"), (State.disabled.selector, .block
    [("backdropFilter", .declaration "2"),
      (backdropFallback, .block [("background", .declaration "3")])])]

theorem boxCss_frosted :
    Theme.record.blank.boxCss .global (.inline frosted) = .ok (some frostedStyles) := by
  rfl

end Theme

end Theming
