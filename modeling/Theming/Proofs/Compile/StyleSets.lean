import Theming.Proofs.Compile.Vocabulary
import Theming.Proofs.Success

/-! The styles of style sets. Every map that a set gives has its keys in a fixed order and keeps to
the vocabulary of composed maps. -/

namespace Theming

namespace Styles

/-- The keys of a map are some of the given ones, in their order. -/
def Spelled (keys : List String) (styles : Styles) : Prop :=
  (Table.keys styles).Sublist keys ∧ ∀ e ∈ styles, e.2.Fits (Place.rules.kindOf? e.1)

theorem Spelled.nil (keys : List String) : Spelled keys [] := ⟨by simp [Table.keys], by simp⟩

theorem Spelled.append {keys keys' : List String} {a b : Styles} (ha : Spelled keys a)
    (hb : Spelled keys' b) : Spelled (keys ++ keys') (a ++ b) := by
  refine ⟨by simpa only [Table.keys, List.map_append] using ha.1.append hb.1, fun e he => ?_⟩
  rcases List.mem_append.1 he with he | he
  · exact ha.2 e he
  · exact hb.2 e he

theorem Spelled.fit {keys : List String} {styles : Styles} (h : Spelled keys styles)
    (hd : keys.Nodup) : Fit .rules styles :=
  fit_iff.2 ⟨hd.sublist h.1, h.2⟩

theorem spelled_declaration {key : String} (h : Place.rules.kindOf? key = some .declaration)
    (text : String) : Spelled [key] [(key, .declaration text)] :=
  ⟨by simp [Table.keys], by simpa [Style.Fits] using h⟩

theorem spelled_block {key : String} {place : Place} {styles : Styles}
    (h : Place.rules.kindOf? key = some (.block place)) (hs : Fit place styles)
    (hfull : place = .fallback → styles ≠ []) : Spelled [key] [(key, .block styles)] :=
  ⟨by simp [Table.keys], by simpa [Style.Fits, h] using ⟨hs, hfull⟩⟩

theorem spelled_blockUnlessEmpty {key : String} {place : Place} {styles : Styles}
    (h : Place.rules.kindOf? key = some (.block place)) (hs : Fit place styles) :
    Spelled [key] (blockUnlessEmpty key styles) := by
  unfold blockUnlessEmpty
  split
  · exact .nil _
  · next hfull => exact spelled_block h hs fun _ => by simpa using hfull

/-- Keys of one kind in two places may stand in both. -/
theorem Spelled.fit_inside {keys : List String} {styles : Styles} {place : Place}
    (h : Spelled keys styles) (hd : keys.Nodup)
    (hk : ∀ key ∈ keys, place.kindOf? key = Place.rules.kindOf? key) : Fit place styles := by
  refine fit_iff.2 ⟨hd.sublist h.1, fun e he => ?_⟩
  rw [hk e.1 (h.1.subset (List.mem_map_of_mem he))]
  exact h.2 e he

end Styles

open Styles

theorem spelled_of_declared {globals : Globals} {key : String} {value : Option Scalar}
    {styles : Styles} (hk : Place.rules.kindOf? key = some .declaration)
    (h : declared globals key value = .ok styles) : Spelled [key] styles := by
  unfold declared at h
  split at h
  · obtain ⟨text, _, h⟩ := bind_eq_ok_iff.1 h
    cases h
    exact spelled_declaration hk text
  · cases h
    exact .nil _

theorem spelled_of_coloured {globals : Globals} {key : String} {allowGradient : Bool}
    {value : Option Color} {styles : Styles} (hk : Place.rules.kindOf? key = some .declaration)
    (h : coloured globals key allowGradient value = .ok styles) : Spelled [key] styles := by
  unfold coloured at h
  split at h
  · obtain ⟨text, _, h⟩ := bind_eq_ok_iff.1 h
    cases h
    exact spelled_declaration hk text
  · cases h
    exact .nil _

theorem slotStyles_cases {α : Type} {fill : α → Except ThemeError Styles} {slot : Option α}
    {styles : Styles} (h : slotStyles fill slot = .ok styles) :
    styles = [] ∨ ∃ a, slot = some a ∧ fill a = .ok styles := by
  cases slot with
  | none =>
    cases h
    exact .inl rfl
  | some a => exact .inr ⟨a, rfl, h⟩

theorem spelled_of_slotStyles {α : Type} {fill : α → Except ThemeError Styles} {slot : Option α}
    {styles : Styles} {keys : List String}
    (hf : ∀ a filled, fill a = .ok filled → Spelled keys filled)
    (h : slotStyles fill slot = .ok styles) : Spelled keys styles := by
  rcases slotStyles_cases h with rfl | ⟨a, _, ha⟩
  · exact .nil _
  · exact hf a styles ha

theorem fit_of_slotStyles {α : Type} {fill : α → Except ThemeError Styles} {slot : Option α}
    {styles : Styles} {place : Place} (hf : ∀ a filled, fill a = .ok filled → Fit place filled)
    (h : slotStyles fill slot = .ok styles) : Fit place styles := by
  rcases slotStyles_cases h with rfl | ⟨a, _, ha⟩
  · exact .nil
  · exact hf a styles ha

namespace Theme

variable {theme : Theme} {styles : Styles}

theorem spelled_of_backdropStyles {backdrop : Backdrop}
    (h : theme.backdropStyles backdrop = .ok styles) :
    Spelled ["backdropFilter", backdropFallback] styles := by
  simp only [backdropStyles, bind_eq_ok_iff] at h
  obtain ⟨filter, _, own, ho, fallback, hf, h⟩ := h
  cases h
  have hfallback : Fit .fallback fallback :=
    (spelled_of_coloured (by decide) hf).fit_inside (by decide) (by decide)
  exact (spelled_of_declared (by decide) ho).append
    (spelled_blockUnlessEmpty (by decide) hfallback)

def colorKeys : List String :=
  ["transitionDuration", "background", "borderColor", "filter", "backdropFilter", backdropFallback,
    "color", "& svg", "boxShadow"]

theorem spelled_of_colorStyles {props : ColorProps} (h : theme.colorStyles props = .ok styles) :
    Spelled colorKeys styles := by
  simp only [colorStyles, bind_eq_ok_iff] at h
  obtain ⟨duration, hd, background, hb, border, hbo, filter, hf, backdrop, hba, foreground, hfo,
    icon, hi, shadow, hs, h⟩ := h
  cases h
  have hbackdrop := spelled_of_slotStyles (fun _ _ => spelled_of_backdropStyles) hba
  have hicon : Fit .plain icon :=
    (spelled_of_declared (by decide) hi).fit_inside (by decide) (by decide)
  exact (((((((spelled_of_declared (by decide) hd).append
    (spelled_of_coloured (by decide) hb)).append (spelled_of_coloured (by decide) hbo)).append
    (spelled_of_declared (by decide) hf)).append hbackdrop).append
    (spelled_of_coloured (by decide) hfo)).append
    (spelled_blockUnlessEmpty (by decide) hicon)).append
    (spelled_of_declared (by decide) hs)

theorem spelled_of_selectionStyles {selection : Selection}
    (h : theme.selectionStyles selection = .ok styles) : Spelled [selectionSelector] styles := by
  simp only [selectionStyles, bind_eq_ok_iff] at h
  obtain ⟨foreground, hf, background, hb, h⟩ := h
  cases h
  have hinner := (spelled_of_coloured (by decide) hf).append (spelled_of_coloured (by decide) hb)
  have hfit : Fit .plain (foreground ++ background) := hinner.fit_inside (by decide) (by decide)
  exact spelled_block (by decide) hfit nofun

theorem spelled_of_edgeStyles {stem : String} {edge : BorderEdge} (hstem : stem ∈ borderStems)
    (h : theme.edgeStyles stem edge = .ok styles) : Spelled (edgeKeys stem) styles := by
  have hall : ∀ stem ∈ borderStems, ∀ key ∈ edgeKeys stem,
      Place.rules.kindOf? key = some .declaration := by decide
  have hkeys := hall stem hstem
  simp only [edgeStyles, bind_eq_ok_iff] at h
  obtain ⟨image, hi, style, hs, width, hw, h⟩ := h
  cases h
  exact ((spelled_of_declared (hkeys _ (by simp [edgeKeys])) hi).append
    (spelled_of_declared (hkeys _ (by simp [edgeKeys])) hs)).append
    (spelled_of_declared (hkeys _ (by simp [edgeKeys])) hw)

def borderKeys : List String :=
  edgeKeys "border" ++ ["transitionDuration"] ++ edgeKeys "border-bottom" ++
    edgeKeys "border-left" ++ edgeKeys "border-right" ++ edgeKeys "border-top" ++ ["border-radius"]

theorem spelled_of_borderStyles {props : BorderProps} (h : theme.borderStyles props = .ok styles) :
    Spelled borderKeys styles := by
  simp only [borderStyles, bind_eq_ok_iff] at h
  obtain ⟨edges, he, duration, hd, bottom, hb, left, hl, right, hr, top, ht, radius, hra, h⟩ := h
  cases h
  have side {stem : String} {edge : Option BorderEdge} {styles : Styles}
      (hstem : stem ∈ borderStems) (h : slotStyles (theme.edgeStyles stem) edge = .ok styles) :
      Spelled (edgeKeys stem) styles :=
    spelled_of_slotStyles (fun _ _ => spelled_of_edgeStyles hstem) h
  exact ((((((spelled_of_edgeStyles (by decide) he).append
    (spelled_of_declared (by decide) hd)).append (side (by decide) hb)).append
    (side (by decide) hl)).append (side (by decide) hr)).append (side (by decide) ht)).append
    (spelled_of_declared (by decide) hra)

def fontKeys : List String :=
  ["transitionDuration", "font-family", "letter-spacing", "lineHeight", "fontSize", "fontStyle",
    "fontWeight", "textTransform"]

theorem spelled_of_fontStyles {props : FontProps} (h : theme.fontStyles props = .ok styles) :
    Spelled fontKeys styles := by
  simp only [fontStyles, bind_eq_ok_iff] at h
  obtain ⟨duration, hd, family, hf, letterSpacing, hl, lineHeight, hh, size, hs, style, hst,
    weight, hw, transform, ht, h⟩ := h
  cases h
  exact (((((((spelled_of_declared (by decide) hd).append
    (spelled_of_declared (by decide) hf)).append (spelled_of_declared (by decide) hl)).append
    (spelled_of_declared (by decide) hh)).append (spelled_of_declared (by decide) hs)).append
    (spelled_of_declared (by decide) hst)).append (spelled_of_declared (by decide) hw)).append
    (spelled_of_declared (by decide) ht)

def plainKeys : SetKind → List String
  | .color => colorKeys
  | .border => borderKeys
  | .font => fontKeys

/-- The keys of a set without those that it inherits. -/
def ownKeys (kind : SetKind) : List String :=
  plainKeys kind ++ State.setOrder.map State.selector ++ [selectionSelector]

theorem nodup_ownKeys (kind : SetKind) : (ownKeys kind ++ ["pointer-events"]).Nodup := by
  cases kind <;> decide +kernel

theorem nodup_plainKeys (kind : SetKind) : (plainKeys kind ++ ["pointer-events"]).Nodup := by
  refine (nodup_ownKeys kind).sublist (List.Sublist.append_right ?_ _)
  rw [ownKeys, List.append_assoc]
  exact List.sublist_append_left _ _

theorem spelled_of_propStyles {kind : SetKind} {props : kind.Props}
    (h : theme.propStyles kind props = .ok styles) : Spelled (plainKeys kind) styles := by
  cases kind with
  | color => exact spelled_of_colorStyles h
  | border => exact spelled_of_borderStyles h
  | font => exact spelled_of_fontStyles h

/-- The block of a state has the properties of the set and perhaps one more, but no further
states. -/
theorem exists_of_stateStyles {kind : SetKind} {state : State} {props : Option kind.Props}
    (h : theme.stateStyles kind state props = .ok styles) : styles = [] ∨ ∃ inner,
      styles = [(state.selector, .block inner)] ∧
        Spelled (plainKeys kind ++ ["pointer-events"]) inner := by
  unfold stateStyles at h
  cases props with
  | none =>
    cases h
    exact .inl rfl
  | some props =>
    obtain ⟨inner, hi, h⟩ := bind_eq_ok_iff.1 h
    cases h
    have hplain := spelled_of_propStyles hi
    refine .inr ⟨_, rfl, ?_⟩
    by_cases hd : state = .disabled
    · rw [if_pos hd]
      exact hplain.append (spelled_declaration (by decide) "none")
    · rw [if_neg hd]
      exact hplain.append (.nil _)

theorem spelled_of_stateStyles {kind : SetKind} {state : State} {props : Option kind.Props}
    (h : theme.stateStyles kind state props = .ok styles) : Spelled [state.selector] styles := by
  rcases exists_of_stateStyles h with rfl | ⟨inner, rfl, hinner⟩
  · exact .nil _
  · exact spelled_block (Place.kindOf?_selector state) (hinner.fit (nodup_plainKeys kind)) nofun

theorem spelled_of_states {kind : SetKind} {order : List State} {states : States kind.Props}
    {blocks : List Styles}
    (h : order.mapM (fun state => theme.stateStyles kind state (states state)) = .ok blocks) :
    Spelled (order.map State.selector) blocks.flatten := by
  replace h := mapM_eq_ok_iff.1 h
  induction h with
  | nil => exact .nil _
  | cons hs _ ih => exact (spelled_of_stateStyles hs).append ih

theorem spelled_of_ownStyles {kind : SetKind} {set : StyleSet kind}
    (h : theme.ownStyles set = .ok styles) : Spelled (ownKeys kind) styles := by
  simp only [ownStyles, bind_eq_ok_iff] at h
  obtain ⟨base, hb, states, hs, selection, hse, h⟩ := h
  cases h
  exact ((spelled_of_propStyles hb).append (spelled_of_states hs)).append
    (spelled_of_slotStyles (fun _ _ => spelled_of_selectionStyles) hse)

theorem fit_of_ownStyles {kind : SetKind} {set : StyleSet kind}
    (h : theme.ownStyles set = .ok styles) : Fit .rules styles :=
  (spelled_of_ownStyles h).fit ((nodup_ownKeys kind).sublist (List.sublist_append_left _ _))

/-- Something about maps that merging and sorting keep. -/
structure MergeClosed (P : Styles → Prop) : Prop where
  nil : P []
  merge : ∀ a b, P a → P b → P (Styles.merge a b)
  sorted : ∀ a, P a → P a.sorted

namespace MergeClosed

variable {P : Styles → Prop} (hP : MergeClosed P) {kind : SetKind}
  (hown : ∀ (set : StyleSet kind) own, theme.ownStyles set = .ok own → P own)

include hP hown

theorem inlineSetStyles {set : StyleSet kind} {refer : String → Except ThemeError Styles}
    (hr : ∀ reference found, refer reference = .ok found → P found)
    (h : theme.inlineSetStyles refer set = .ok styles) : P styles := by
  simp only [Theme.inlineSetStyles, bind_eq_ok_iff] at h
  obtain ⟨own, ho, inherited, hi, h⟩ := h
  cases h
  have hinherited : P inherited := by
    rcases slotStyles_cases hi with rfl | ⟨parent, _, hp⟩
    · exact hP.nil
    · exact hr parent inherited hp
  exact hP.sorted _ (hP.merge _ _ hinherited (hown set own ho))

theorem namedSetStyles (trail : Trail) (reference : String)
    (h : theme.namedSetStyles kind trail reference = .ok styles) : P styles := by
  fun_induction Theme.namedSetStyles theme kind trail reference generalizing styles
  case case1 => cases h
  case case2 =>
    cases h
    exact hP.nil
  case case3 set found ih => exact hP.inlineSetStyles hown (fun parent _ => ih parent) h

end MergeClosed

mutual

/-- What holds of the own maps of all sets holds of what sources of sets give. -/
theorem MergeClosed.setStyles {P : Styles → Prop} (hP : MergeClosed P) {kind : SetKind}
    (hown : ∀ (set : StyleSet kind) own, theme.ownStyles set = .ok own → P own) :
    (source : Source (StyleSet kind)) → {styles : Styles} →
    theme.setStyles source = .ok styles → P styles
  | .reference text, _, h => hP.namedSetStyles hown [] text (by rwa [Theme.setStyles] at h)
  | .inline set, _, h =>
    hP.inlineSetStyles hown (fun parent _ => hP.namedSetStyles hown [] parent)
      (by rwa [Theme.setStyles] at h)
  | .list items, _, h => hP.setListStyles hown items hP.nil (by rwa [Theme.setStyles] at h)
termination_by structural source => source

theorem MergeClosed.setListStyles {P : Styles → Prop} (hP : MergeClosed P) {kind : SetKind}
    (hown : ∀ (set : StyleSet kind) own, theme.ownStyles set = .ok own → P own) :
    (items : List (Source (StyleSet kind))) → {merged styles : Styles} → P merged →
    theme.setListStyles merged items = .ok styles → P styles
  | [], _, _, hm, h => by
    cases h
    exact hm
  | item :: rest, _, _, hm, h => by
    rw [Theme.setListStyles] at h
    obtain ⟨inner, hi, h⟩ := bind_eq_ok_iff.1 h
    exact hP.setListStyles hown rest (hP.merge _ _ hm (hP.setStyles hown item hi)) h
termination_by structural items => items

end

theorem mergeClosed_fit : MergeClosed (Fit .rules) :=
  ⟨.nil, fun _ _ ha hb => ha.merge hb, fun _ h => h.sorted⟩

theorem fit_of_setStyles {kind : SetKind} (source : Source (StyleSet kind))
    (h : theme.setStyles source = .ok styles) : Fit .rules styles :=
  mergeClosed_fit.setStyles (fun _ _ => fit_of_ownStyles) source h

end Theme

end Theming
