import Mathlib.Data.List.Induction
import Theming.Compile.Boxes
import Theming.Proofs.Css.Cascade

/-! The keys of composed style maps. Only the place of a key decides whether a declaration or a
block stands under it, so merging two composed maps never replaces one by the other. -/

namespace Theming

/-- Where a map stands. Only the rules of a box or of a state have further states inside. The keys
inside a pseudo-element are free, and all of them declare. The rule for engines without backdrop
filters declares a background and nothing else. -/
inductive Place where
  | rules
  | plain
  | pseudoElement
  | fallback
  deriving DecidableEq

inductive KeyKind where
  | declaration
  | block (inside : Place)
  deriving DecidableEq

def pseudoElementSelectors : List String := ["&::before", "&::after"]

def stateSelectors : List String := State.setOrder.map State.selector

def plainSelectors : List String := [selectionSelector, "& svg"]

def edgeKeys (stem : String) : List String := [stem ++ "-image", stem ++ "-style", stem ++ "-width"]

def borderStems : List String :=
  ["border", "border-bottom", "border-left", "border-right", "border-top"]

def propertyKeys : List String :=
  ["transitionDuration", "background", "borderColor", "filter", "backdropFilter", "color",
    "boxShadow"] ++ borderStems.flatMap edgeKeys ++ ["border-radius"] ++
  ["font-family", "letter-spacing", "lineHeight", "fontSize", "fontStyle", "fontWeight",
    "textTransform"] ++ ["transform", "will-change", "padding", "height", "width"] ++
  ["pointer-events"]

def Place.kindOf? : Place → String → Option KeyKind
  | .pseudoElement, _ => some .declaration
  | .fallback, key => if key = "background" then some .declaration else none
  | .plain, key => if key ∈ propertyKeys then some .declaration else none
  | .rules, key =>
    if key ∈ pseudoElementSelectors then some (.block .pseudoElement)
    else if key ∈ stateSelectors then some (.block .rules)
    else if key ∈ plainSelectors then some (.block .plain)
    else if key = backdropFallback then some (.block .fallback)
    else if key ∈ propertyKeys then some .declaration
    else none

/-- Which keys have blocks, and where what is inside them stands. -/
theorem Place.kindOf?_eq_block {place inside : Place} {key : String}
    (h : place.kindOf? key = some (.block inside)) : place = .rules ∧
      (inside = .pseudoElement ∧ key ∈ pseudoElementSelectors ∨
        inside = .rules ∧ key ∈ stateSelectors ∨ inside = .plain ∧ key ∈ plainSelectors ∨
        inside = .fallback ∧ key = backdropFallback) := by
  cases place with
  | rules =>
    simp only [kindOf?] at h
    split at h
    · cases h
      simp_all
    · split at h
      · cases h
        simp_all
      · split at h
        · cases h
          simp_all
        · split at h
          · cases h
            simp_all
          · split at h <;> cases h
  | pseudoElement => cases h
  | plain | fallback =>
    simp only [kindOf?] at h
    split at h <;> cases h

theorem Place.kindOf?_selector (s : State) : rules.kindOf? s.selector = some (.block .rules) := by
  cases s <;> decide

mutual

def Style.Fits (kind : Option KeyKind) : Style → Prop
  | .declaration _ => kind = some .declaration
  | .block styles => ∃ place, kind = some (.block place) ∧ Styles.Fit place styles ∧
      (place = .fallback → styles ≠ [])
termination_by structural style => style

/-- The keys of a map are distinct, and all its styles have the kinds of their keys. -/
def Styles.Fit (place : Place) : List (String × Style) → Prop
  | [] => True
  | (key, style) :: rest =>
    key ∉ Table.keys rest ∧ Style.Fits (place.kindOf? key) style ∧ Styles.Fit place rest
termination_by structural styles => styles

end

namespace Styles

variable {place : Place}

theorem fit_iff {styles : Styles} : Fit place styles ↔
    styles.Distinct ∧ ∀ e ∈ styles, e.2.Fits (place.kindOf? e.1) := by
  induction styles with
  | nil => simp [Fit, Table.Distinct, Table.keys]
  | cons e rest ih =>
    simp only [Fit, ih, List.mem_cons, forall_eq_or_imp]
    constructor
    · rintro ⟨hk, hs, hd, hr⟩
      exact ⟨List.nodup_cons.2 ⟨hk, hd⟩, hs, hr⟩
    · rintro ⟨hd, hs, hr⟩
      exact ⟨(List.nodup_cons.1 hd).1, hs, (List.nodup_cons.1 hd).2, hr⟩

theorem Fit.find? {styles : Styles} {key : String} {style : Style} (h : Fit place styles)
    (hk : Table.find? styles key = some style) : style.Fits (place.kindOf? key) :=
  (fit_iff.1 h).2 _ (Table.mem_of_find? hk)

theorem Fit.put {styles : Styles} {key : String} {style : Style} (h : Fit place styles)
    (hs : style.Fits (place.kindOf? key)) : Fit place (Table.put styles key style) := by
  refine fit_iff.2 ⟨(fit_iff.1 h).1.put key style, fun e he => ?_⟩
  rcases Table.mem_put he with rfl | he
  · exact hs
  · exact (fit_iff.1 h).2 e he

theorem Fit.perm {a b : Styles} (h : Fit place a) (hp : b.Perm a) : Fit place b :=
  fit_iff.2 ⟨(hp.map _).nodup_iff.2 (fit_iff.1 h).1,
    fun e he => (fit_iff.1 h).2 e (hp.mem_iff.1 he)⟩

theorem Fit.sorted {styles : Styles} (h : Fit place styles) : Fit place styles.sorted :=
  h.perm (sorted_perm styles)

theorem merge_ne_nil {base later : Styles} (h : base ≠ []) : Styles.merge base later ≠ [] := by
  induction later generalizing base with
  | nil => simpa only [Styles.merge] using h
  | cons e rest ih =>
    rw [Styles.merge]
    refine ih fun hput => ?_
    have hk := congrArg Table.keys hput
    rw [Table.keys_put] at hk
    split at hk
    · next hmem =>
      rw [hk] at hmem
      simp [Table.keys] at hmem
    · simp [Table.keys] at hk

end Styles

mutual

theorem Style.Fits.overlay {kind : Option KeyKind} {base : Style} : {later : Style} →
    base.Fits kind → later.Fits kind → (base.overlay later).Fits kind
  | .declaration text, _, hl => by simpa only [Style.overlay, Style.Fits] using hl
  | .block later, hb, hl => by
    cases base with
    | declaration text => simpa only [Style.overlay] using hl
    | block styles =>
      obtain ⟨place, hk, hs, hfull⟩ := hb
      obtain ⟨place', hk', hs', _⟩ := hl
      cases hk.symm.trans hk'
      exact ⟨place, hk, Styles.Fit.merge hs hs', fun hp => Styles.merge_ne_nil (hfull hp)⟩
termination_by structural later => later

theorem Styles.Fit.merge {place : Place} {base : Styles} : {later : List (String × Style)} →
    Styles.Fit place base → Styles.Fit place later → Styles.Fit place (Styles.merge base later)
  | [], hb, _ => hb
  | (key, style) :: rest, hb, ⟨_, hs, hr⟩ => by
    rw [Styles.merge]
    refine Styles.Fit.merge (hb.put ?_) hr
    cases hf : Table.find? base key with
    | none => exact hs
    | some old => exact Style.Fits.overlay (hb.find? hf) hs
termination_by structural later => later

end

/-- The kind of the styles at the end of a path, which starts at a style of some kind. -/
def KeyKind.at? (kind : Option KeyKind) : List String → Option KeyKind
  | [] => kind
  | key :: path => match kind with
    | some (.block place) => KeyKind.at? (place.kindOf? key) path
    | _ => none

theorem KeyKind.at?_none (path : List String) : KeyKind.at? none path = none := by
  cases path <;> rfl

theorem Style.Fits.at? {kind : Option KeyKind} {style found : Style} {path : List String}
    (h : style.Fits kind) (hf : style.at? path = some found) :
    found.Fits (KeyKind.at? kind path) := by
  induction path generalizing kind style with
  | nil =>
    rw [Style.at?] at hf
    cases hf
    exact h
  | cons key path ih =>
    cases style with
    | declaration text => simp [Style.at?] at hf
    | block styles =>
      obtain ⟨place, rfl, hs, _⟩ := h
      obtain ⟨next, hn, hr⟩ := Option.bind_eq_some_iff.1 (by simpa only [Style.at?] using hf)
      exact ih (hs.find? hn) hr

theorem Style.Fits.compatible {kind : Option KeyKind} {a b : Style} (ha : a.Fits kind)
    (hb : b.Fits kind) : a.Compatible b := by
  intro path x y hx hy
  have hfx := ha.at? hx
  have hfy := hb.at? hy
  cases x with
  | declaration text =>
    cases y with
    | declaration other => rfl
    | block styles =>
      obtain ⟨place, hk, _⟩ := hfy
      rw [Style.Fits, hk] at hfx
      cases hfx
  | block styles =>
    cases y with
    | declaration other =>
      obtain ⟨place, hk, _⟩ := hfx
      rw [Style.Fits, hk] at hfy
      cases hfy
    | block styles' => rfl

theorem Style.Fits.proper {kind : Option KeyKind} {style : Style} (h : style.Fits kind) :
    style.Proper := by
  intro path styles hs
  obtain ⟨place, _, hf, _⟩ := h.at? hs
  exact (Styles.fit_iff.1 hf).1

namespace Styles

variable {place : Place}

theorem Fit.block {styles : Styles} (h : Fit .rules styles) :
    (Style.block styles).Fits (some (.block .rules)) :=
  ⟨.rules, rfl, h, nofun⟩

theorem Fit.textAt?_merge {base later : Styles} (hb : Fit .rules base) (hl : Fit .rules later)
    (path : List String) :
    textAt? (Styles.merge base later) path = (textAt? later path).or (textAt? base path) :=
  Styles.textAt?_merge (hb.block.compatible hl.block) hl.block.proper path

theorem Fit.textAt?_sorted {styles : Styles} (h : Fit place styles) (path : List String) :
    textAt? styles.sorted path = textAt? styles path :=
  Styles.textAt?_sorted (fit_iff.1 h).1 path

theorem Fit.nil : Fit place [] := trivial

theorem Fit.foldl_merge {base : Styles} {maps : List Styles} (hb : Fit place base)
    (h : ∀ styles ∈ maps, Fit place styles) : Fit place (maps.foldl Styles.merge base) := by
  induction maps generalizing base with
  | nil => exact hb
  | cons first rest ih =>
    exact ih (hb.merge (h first List.mem_cons_self))
      fun styles hm => h styles (List.mem_cons_of_mem _ hm)

theorem Fit.mergeAll {maps : List Styles} (h : ∀ styles ∈ maps, Fit place styles) :
    Fit place (Styles.mergeAll maps) :=
  Fit.nil.foldl_merge h

/-- Merging maps onto a first one is merging them on their own and laying the result over it. -/
theorem Fit.textAt?_foldl_merge {base : Styles} {maps : List Styles} (hb : Fit .rules base)
    (h : ∀ styles ∈ maps, Fit .rules styles) (path : List String) :
    textAt? (maps.foldl Styles.merge base) path =
      (textAt? (Styles.mergeAll maps) path).or (textAt? base path) := by
  induction maps using List.reverseRecOn with
  | nil =>
    have hnone : textAt? (Styles.mergeAll []) path = none := by cases path <;> rfl
    simp [hnone]
  | append_singleton maps last ih =>
    have hm : ∀ styles ∈ maps, Fit .rules styles := fun styles hs => h styles (by simp [hs])
    have hl : Fit .rules last := h last (by simp)
    simp only [Styles.mergeAll, List.foldl_append, List.foldl_cons, List.foldl_nil] at ih ⊢
    rw [(hb.foldl_merge hm).textAt?_merge hl, (Fit.nil.foldl_merge hm).textAt?_merge hl, ih hm,
      Option.or_assoc]

end Styles

end Theming
