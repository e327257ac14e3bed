import Theming.Proofs.Compile.StyleSets

/-! The styles of boxes. A box merges the blocks of its states first, then what it inherits, and
then the rest of its plain state. The result keeps to the vocabulary of composed maps. -/

namespace Theming.Theme

open Styles

variable {theme : Theme} {styles : Styles} {refer : String → Except ThemeError (Option Styles)}

theorem fit_of_pseudoElementStyles {element : PseudoElement}
    (h : theme.pseudoElementStyles element = .ok styles) : Fit .pseudoElement styles := by
  refine foldlM_keeps (fun before entry after hb hs => ?_) Fit.nil h
  obtain ⟨key, value⟩ := entry
  cases value with
  | none =>
    cases hs
    exact hb
  | some value =>
    simp only at hs
    split at hs
    · cases hs
      exact hb.put rfl
    · obtain ⟨text, _, hs⟩ := bind_eq_ok_iff.1 hs
      cases hs
      exact hb.put rfl

/-- What a box inherits stands in front of the rest of its plain state. -/
theorem plainStyles_eq_ok_iff {slots : BoxSlots} {plain : List Styles} :
    theme.plainStyles refer slots = .ok plain ↔ ∃ inherited own,
      slotStyles (fun parent => return (← refer parent).getD []) slots.parent = .ok inherited ∧
      theme.plainStyles refer { slots with parent := none } = .ok ([] :: own) ∧
      plain = inherited :: own := by
  simp only [plainStyles, bind_eq_ok_iff]
  constructor
  · rintro ⟨inherited, hi, transform, ht, border, hb, color, hc, padding, hp, font, hf, height, hh,
      width, hw, before, hbe, after, ha, h⟩
    cases h
    exact ⟨inherited, _, hi, ⟨[], rfl, transform, ht, border, hb, color, hc, padding, hp, font, hf,
      height, hh, width, hw, before, hbe, after, ha, rfl⟩, rfl⟩
  · rintro ⟨inherited, own, hi, ⟨none, _, transform, ht, border, hb, color, hc, padding, hp, font,
      hf, height, hh, width, hw, before, hbe, after, ha, h⟩, rfl⟩
    cases h
    exact ⟨inherited, hi, transform, ht, border, hb, color, hc, padding, hp, font, hf, height, hh,
      width, hw, before, hbe, after, ha, rfl⟩

theorem boxStyles_eq_ok_iff {slots : BoxSlots} {states : States (Source Box)} :
    theme.boxStyles refer (.mk slots states) = .ok styles ↔ ∃ plain blocks,
      theme.plainStyles refer slots = .ok plain ∧
      State.boxOrder.mapM (fun state => theme.boxStateStyles refer state (states state)) =
        .ok blocks ∧
      styles = Styles.sorted (mergeAll (blocks.reverse.flatten ++ plain)) := by
  simp only [boxStyles, bind_eq_ok_iff, foldlM_prepend_eq_ok_iff]
  constructor
  · rintro ⟨plain, hp, _, ⟨blocks, hb, rfl⟩, h⟩
    cases h
    exact ⟨plain, blocks, hp, hb, rfl⟩
  · rintro ⟨plain, blocks, hp, hb, rfl⟩
    exact ⟨plain, hp, _, ⟨blocks, hb, rfl⟩, rfl⟩

def FitReferences (refer : String → Except ThemeError (Option Styles)) : Prop :=
  ∀ reference found, refer reference = .ok (some found) → Fit .rules found

theorem spelled_of_transform {value : Option Scalar}
    (h : declared theme.globals "transform" value = .ok styles) :
    Spelled ["transform", "will-change"]
      (styles ++ if styles.isEmpty then [] else [("will-change", .declaration "transform")]) := by
  have ht : Spelled ["transform"] styles := spelled_of_declared (by decide) h
  split
  · exact ht.append (.nil ["will-change"])
  · exact ht.append (spelled_declaration (by decide) "transform")

theorem spelled_of_pseudo {selector : String} {slot : Option PseudoElement}
    (hk : Place.rules.kindOf? selector = some (.block .pseudoElement))
    (h : slotStyles (fun element => do
      return [(selector, .block (← theme.pseudoElementStyles element))]) slot = .ok styles) :
    Spelled [selector] styles := by
  refine spelled_of_slotStyles (fun element filled hf => ?_) h
  obtain ⟨inner, hi, hf⟩ := bind_eq_ok_iff.1 hf
  cases hf
  exact spelled_block hk (fit_of_pseudoElementStyles hi) nofun

/-- The keys that boxes have in their plain state apart from those of sets. -/
def slotKeys : List String :=
  ["transform", "will-change", "padding", "height", "width", "&::before", "&::after"]

/-- The map of a slot comes from a set or has keys of its own. -/
def FromSlot (theme : Theme) (map : Styles) : Prop :=
  (∃ kind, ∃ source : Source (StyleSet kind), theme.setStyles source = .ok map) ∨
    ∃ keys, keys.Nodup ∧ (∀ key ∈ keys, key ∈ slotKeys) ∧ Spelled keys map

theorem fromSlot_of_plainStyles {slots : BoxSlots} {inherited : Styles} {own : List Styles}
    (h : theme.plainStyles refer slots = .ok (inherited :: own)) :
    ∀ map ∈ own, theme.FromSlot map := by
  simp only [plainStyles, bind_eq_ok_iff] at h
  obtain ⟨_, _, transform, ht, border, hb, color, hc, padding, hp, font, hf, height, hh, width, hw,
    before, hbe, after, ha, h⟩ := h
  cases h
  have hset {kind : SetKind} {slot : Option (Source (StyleSet kind))} {filled : Styles}
      (h : slotStyles theme.setStyles slot = .ok filled) : theme.FromSlot filled := by
    rcases slotStyles_cases h with rfl | ⟨source, _, hs⟩
    · exact .inr ⟨[], by simp, by simp, .nil []⟩
    · exact .inl ⟨kind, source, hs⟩
  have hspelled {keys : List String} {filled : Styles}
      (hk : keys.Nodup ∧ ∀ key ∈ keys, key ∈ slotKeys) (hs : Spelled keys filled) :
      theme.FromSlot filled := .inr ⟨keys, hk.1, hk.2, hs⟩
  simp only [List.mem_cons, List.not_mem_nil, or_false]
  rintro map (rfl | rfl | rfl | rfl | rfl | rfl | rfl | rfl | rfl)
  · exact hspelled (by decide) (spelled_of_transform ht)
  · exact hset hb
  · exact hset hc
  · exact hspelled (by decide) (spelled_of_declared (by decide) hp)
  · exact hset hf
  · exact hspelled (by decide) (spelled_of_declared (by decide) hh)
  · exact hspelled (by decide) (spelled_of_declared (by decide) hw)
  · exact hspelled (by decide) (spelled_of_pseudo (by decide) hbe)
  · exact hspelled (by decide) (spelled_of_pseudo (by decide) ha)

theorem FromSlot.fit {map : Styles} (h : theme.FromSlot map) : Fit .rules map := by
  rcases h with ⟨kind, source, hs⟩ | ⟨keys, hd, _, hs⟩
  · exact fit_of_setStyles source hs
  · exact hs.fit hd

theorem fit_of_plainStyles {slots : BoxSlots} {plain : List Styles} (hr : FitReferences refer)
    (h : theme.plainStyles refer slots = .ok plain) : ∀ map ∈ plain, Fit .rules map := by
  obtain ⟨inherited, own, hi, hown, rfl⟩ := plainStyles_eq_ok_iff.1 h
  have hinherited : Fit .rules inherited := by
    refine fit_of_slotStyles (fun parent filled hf => ?_) hi
    obtain ⟨found, hfound, hf⟩ := bind_eq_ok_iff.1 hf
    cases hf
    cases found with
    | none => exact .nil
    | some inner => exact hr parent inner hfound
  exact List.forall_mem_cons.2 ⟨hinherited, fun map hm => (fromSlot_of_plainStyles hown map hm).fit⟩

theorem fit_of_boxMaps {slots : BoxSlots} {states : States (Source Box)} {plain : List Styles}
    {blocks : List (List Styles)} (hr : FitReferences refer)
    (hs : ∀ state maps, theme.boxStateStyles refer state (states state) = .ok maps →
      ∀ map ∈ maps, Fit .rules map)
    (hp : theme.plainStyles refer slots = .ok plain)
    (hb : State.boxOrder.mapM (fun state => theme.boxStateStyles refer state (states state)) =
      .ok blocks) : ∀ map ∈ blocks.reverse.flatten ++ plain, Fit .rules map := by
  intro map hm
  rcases List.mem_append.1 hm with hm | hm
  · obtain ⟨maps, hmaps, hm⟩ := List.mem_flatten.1 hm
    exact forall_of_mapM hb (fun state _ => hs state _) maps (List.mem_reverse.1 hmaps) map hm
  · exact fit_of_plainStyles hr hp map hm

mutual

theorem fit_of_sourceStyles (hr : FitReferences refer) : (source : Source Box) → {found : Styles} →
    theme.sourceStyles refer source = .ok (some found) → Fit .rules found
  | .reference text, found, h => hr text found (by rwa [sourceStyles] at h)
  | .inline box, found, h => by
    rw [sourceStyles] at h
    obtain ⟨inner, hi, h⟩ := bind_eq_ok_iff.1 h
    cases h
    exact fit_of_boxStyles hr box hi
  | .list items, found, h => by
    rw [sourceStyles] at h
    obtain ⟨inner, hi, h⟩ := bind_eq_ok_iff.1 h
    cases h
    exact (fit_of_listStyles hr items .nil hi).sorted
termination_by structural source => source

theorem fit_of_listStyles (hr : FitReferences refer) : (items : List (Source Box)) →
    {merged styles : Styles} → Fit .rules merged →
    theme.listStyles refer merged items = .ok styles → Fit .rules styles
  | [], _, _, hm, h => by
    cases h
    exact hm
  | item :: rest, _, _, hm, h => by
    rw [listStyles] at h
    obtain ⟨inner, hi, h⟩ := bind_eq_ok_iff.1 h
    cases inner with
    | none => exact fit_of_listStyles hr rest (hm.merge .nil) h
    | some inner => exact fit_of_listStyles hr rest (hm.merge (fit_of_sourceStyles hr item hi)) h
termination_by structural items => items

theorem fit_of_boxStateStyles (hr : FitReferences refer) : (slot : Option (Source Box)) →
    {state : State} → {maps : List Styles} →
    theme.boxStateStyles refer state slot = .ok maps → ∀ map ∈ maps, Fit .rules map
  | none, _, _, h => by
    cases h
    simp
  | some source, state, _, h => by
    rw [boxStateStyles] at h
    obtain ⟨inner, hi, h⟩ := bind_eq_ok_iff.1 h
    cases h
    have hinner : Fit .rules (inner.getD []) := by
      cases inner with
      | none => exact .nil
      | some inner => exact fit_of_sourceStyles hr source hi
    simpa using (spelled_block (Place.kindOf?_selector state) hinner nofun).fit (by simp)
termination_by structural slot => slot

theorem fit_of_boxStyles (hr : FitReferences refer) : (box : Box) → {styles : Styles} →
    theme.boxStyles refer box = .ok styles → Fit .rules styles
  | .mk slots states, _, h => by
    obtain ⟨plain, blocks, hp, hb, rfl⟩ := boxStyles_eq_ok_iff.1 h
    have hmaps := fit_of_boxMaps hr (fun state _ => fit_of_boxStateStyles hr (states state)) hp hb
    exact (Fit.mergeAll hmaps).sorted
termination_by structural box => box

end

theorem fit_of_namedBoxStyles {context : BoxContext} (trail : Trail) :
    FitReferences (theme.namedBoxStyles context trail) := by
  intro reference found h
  fun_induction namedBoxStyles theme context trail reference generalizing found
  case case1 => cases h
  case case2 => cases h
  case case3 source target seen ih =>
    exact fit_of_sourceStyles (fun next found => ih next found) source h

end Theming.Theme
