import Theming.Proofs.Compile.Extends
import Theming.Proofs.Compile.Lists
import Theming.Proofs.Compile.SetReferences
import Theming.Proofs.Css.StateBlocks

/-! The order of the keys in the styles of sets. Each set is brought into cascade order, and a list
of sets is not sorted again. It stays in order exactly if what a set adds to those before it belongs
behind them in the cascade. -/

namespace Theming

namespace Styles

variable {maps : List Styles} {last : Styles}

/-- No key that the map adds to those before it ranks below one of theirs. -/
def AddsInOrder (before : List Styles) (map : Styles) : Prop :=
  ∀ key ∈ Table.keys map, (∀ other ∈ before, key ∉ Table.keys other) →
    ∀ other ∈ before, ∀ earlier ∈ Table.keys other, rank earlier ≤ rank key

def AddInOrder (maps : List Styles) : Prop :=
  ∀ before map, before ++ [map] <+: maps → AddsInOrder before map

theorem addInOrder_concat :
    AddInOrder (maps ++ [last]) ↔ AddInOrder maps ∧ AddsInOrder maps last := by
  constructor
  · exact fun h => ⟨fun before map hp => h before map (hp.trans (List.prefix_append _ _)),
      h maps last List.prefix_rfl⟩
  · rintro ⟨hmaps, hlast⟩ before map hp
    rcases List.prefix_concat_iff.1 hp with he | hp
    · obtain ⟨rfl, hsame⟩ := List.append_inj' he rfl
      obtain rfl := List.singleton_inj.1 hsame
      exact hlast
    · exact hmaps before map hp

theorem mem_keys_mergeAll (h : ∀ map ∈ maps, Table.Distinct map) {key : String} :
    key ∈ Table.keys (mergeAll maps) ↔ ∃ map ∈ maps, key ∈ Table.keys map := by
  induction maps using List.reverseRecOn with
  | nil => simp [mergeAll, Table.keys]
  | append_singleton maps last ih =>
    have hrest := ih fun map hm => h map (List.mem_append_left _ hm)
    have hlast : Table.Distinct last := h last (by simp)
    rw [mergeAll_concat, keys_merge _ hlast]
    by_cases hk : key ∈ Table.keys (mergeAll maps)
    · obtain ⟨map, hm, hkey⟩ := hrest.1 hk
      exact iff_of_true (List.mem_append_left _ hk) ⟨map, List.mem_append_left _ hm, hkey⟩
    · have hnone : ∀ map ∈ maps, key ∉ Table.keys map := fun map hm hkey =>
        hk (hrest.2 ⟨map, hm, hkey⟩)
      simp only [List.mem_append, hk, List.mem_filter, decide_not, List.mem_singleton]
      grind

theorem ascending_mergeAll_iff (h : ∀ map ∈ maps, Table.Distinct map)
    (ha : ∀ map ∈ maps, Ascending (Table.keys map)) :
    Ascending (Table.keys (mergeAll maps)) ↔ AddInOrder maps := by
  induction maps using List.reverseRecOn with
  | nil =>
    refine iff_of_true List.Pairwise.nil fun before map hp => ?_
    simp at hp
  | append_singleton maps last ih =>
    have hmaps : ∀ map ∈ maps, Table.Distinct map := fun map hm => h map (by simp [hm])
    have hrest := ih hmaps fun map hm => ha map (by simp [hm])
    have hlast : Ascending (Table.keys last) := ha last (by simp)
    have hdistinct : Table.Distinct last := h last (by simp)
    have hnew : Ascending ((Table.keys last).filter fun key => key ∉ Table.keys (mergeAll maps)) :=
      hlast.sublist List.filter_sublist
    rw [addInOrder_concat, ← hrest, mergeAll_concat,
      keys_merge _ hdistinct, Ascending, List.pairwise_append]
    -- what is left is that the new keys rank behind those that are there already
    refine and_congr_right fun _ => (and_iff_right hnew).trans ?_
    constructor
    · intro hsplit key hk hnone other ho earlier he
      have hfresh : key ∉ Table.keys (mergeAll maps) := fun hm => by
        obtain ⟨map, hmap, hkey⟩ := (mem_keys_mergeAll hmaps).1 hm
        exact hnone map hmap hkey
      exact hsplit earlier ((mem_keys_mergeAll hmaps).2 ⟨other, ho, he⟩) key
        (List.mem_filter.2 ⟨hk, decide_eq_true hfresh⟩)
    · intro hadds earlier he key hk
      obtain ⟨hkey, hfresh⟩ := List.mem_filter.1 hk
      obtain ⟨other, ho, he⟩ := (mem_keys_mergeAll hmaps).1 he
      have hnone : ∀ map ∈ maps, key ∉ Table.keys map := fun map hm hk =>
        of_decide_eq_true hfresh ((mem_keys_mergeAll hmaps).2 ⟨map, hm, hk⟩)
      exact hadds key hkey hnone other ho earlier he

end Styles

theorem mergeItems_eq_mapM {ε α : Type} (css : α → Except ε Styles) (merged : Styles)
    (items : List α) : mergeItems css merged items =
      (items.mapM css).map fun maps => maps.foldl Styles.merge merged := by
  induction items generalizing merged with
  | nil => rfl
  | cons item rest ih =>
    rw [mergeItems_cons, List.mapM_cons]
    cases css item with
    | error error => rfl
    | ok map =>
      change mergeItems css (Styles.merge merged map) rest = _
      rw [ih]
      cases rest.mapM css <;> rfl

namespace Source

variable {α : Type}

mutual

theorem leaves_ne_list : (source : Source α) → ∀ leaf ∈ source.leaves, ∀ items, leaf ≠ .list items
  | .reference text, leaf, hl, items => by simp_all [leaves]
  | .inline definition, leaf, hl, items => by simp_all [leaves]
  | .list sources, leaf, hl, items =>
    leavesOfItems_ne_list sources leaf (by simpa [leaves] using hl) items
termination_by structural source => source

theorem leavesOfItems_ne_list : (sources : List (Source α)) →
    ∀ leaf ∈ leavesOfItems sources, ∀ items, leaf ≠ .list items
  | [], leaf, hl, items => by simp [leavesOfItems] at hl
  | source :: rest, leaf, hl, items => by
    rcases List.mem_append.1 hl with hl | hl
    · exact leaves_ne_list source leaf hl items
    · exact leavesOfItems_ne_list rest leaf hl items
termination_by structural sources => sources

end

end Source

namespace Theme

open Styles

variable {theme : Theme} {kind : SetKind} {source : Source (StyleSet kind)} {styles : Styles}

theorem ascending_of_inlineSetStyles {refer : String → Except ThemeError Styles}
    {set : StyleSet kind} (h : theme.inlineSetStyles refer set = .ok styles) :
    Ascending (Table.keys styles) := by
  obtain ⟨own, inherited, -, -, rfl⟩ := inlineSetStyles_eq_ok_iff.1 h
  exact ascending_keys_sorted _

theorem ascending_of_namedSetStyles {trail : Trail} {reference : String}
    (h : theme.namedSetStyles kind trail reference = .ok styles) :
    Ascending (Table.keys styles) := by
  rw [namedSetStyles] at h
  split at h
  · cases h
  · split at h
    · cases h
      exact .nil
    · exact ascending_of_inlineSetStyles h

theorem ascending_of_setStyles (single : ∀ items, source ≠ .list items)
    (h : theme.setStyles source = .ok styles) : Ascending (Table.keys styles) := by
  cases source with
  | reference text => exact ascending_of_namedSetStyles (by rwa [setStyles] at h)
  | inline set => exact ascending_of_inlineSetStyles (by rwa [setStyles] at h)
  | list items => exact absurd rfl (single items)

/-- The styles of a source are those of its leaves, merged in order. -/
theorem setStyles_eq_mapM (theme : Theme) (source : Source (StyleSet kind)) :
    theme.setStyles source = (source.leaves.mapM theme.setStyles).map mergeAll := by
  have hsingle (source : Source (StyleSet kind)) :
      theme.setStyles source = ([source].mapM theme.setStyles).map mergeAll := by
    rw [List.mapM_cons, List.mapM_nil]
    cases hs : theme.setStyles source with
    | error error => rfl
    | ok styles =>
      have distinct : styles.Distinct := (fit_iff.1 (fit_of_setStyles source hs)).1
      exact congrArg Except.ok (merge_nil_left distinct).symm
  cases source with
  | reference text => exact hsingle _
  | inline set => exact hsingle _
  | list items =>
    have hflat := (theme.flattens_setStyles kind).leavesOfItems items [] []
    rw [List.nil_append, List.append_nil, List.nil_append, List.append_nil] at hflat
    rw [hflat, setStyles, setListStyles_eq_mergeItems, mergeItems_eq_mapM, Source.leaves]
    rfl

/-- Styles of sets are in cascade order exactly if each of the sets that they are merged from adds
its keys to those before it in that order. A single set always does. -/
theorem set_order_exact (h : theme.setStyles source = .ok styles) :
    ((∀ items, source ≠ .list items) → Ascending (Table.keys styles)) ∧
    ∃ maps, source.leaves.mapM theme.setStyles = .ok maps ∧ styles = mergeAll maps ∧
      (∀ map ∈ maps, Ascending (Table.keys map)) ∧
      (Ascending (Table.keys styles) ↔ AddInOrder maps) := by
  refine ⟨fun single => ascending_of_setStyles single h, ?_⟩
  rw [setStyles_eq_mapM] at h
  obtain ⟨maps, hm, rfl⟩ := map_eq_ok_iff.1 h
  have hleaf := exists_of_mapM hm
  have hdistinct : ∀ map ∈ maps, Table.Distinct map := fun map hmap => by
    obtain ⟨leaf, -, hs⟩ := hleaf map hmap
    exact (fit_iff.1 (fit_of_setStyles leaf hs)).1
  have hordered : ∀ map ∈ maps, Ascending (Table.keys map) := fun map hmap => by
    obtain ⟨leaf, hl, hs⟩ := hleaf map hmap
    exact ascending_of_setStyles (source.leaves_ne_list leaf hl) hs
  exact ⟨maps, hm, rfl, hordered, ascending_mergeAll_iff hdistinct hordered⟩

def borderWidth (width : Int) : BorderProps :=
  { BorderProps.record.blank with edges.width := some (.number (.integer width)) }

def hoverBorder : StyleSet .border :=
  ⟨none, BorderProps.record.blank, States.put (fun _ => none) .hover (some (borderWidth 2)), none⟩

def plainBorder : StyleSet .border := ⟨none, borderWidth 1, fun _ => none, none⟩

/-- What the second set adds comes behind the state of the first one, although it ranks below. -/
theorem plain_border_behind_hover : ∃ styles,
    Theme.record.blank.setStyles (.list [.inline hoverBorder, .inline plainBorder]) = .ok styles ∧
      Table.keys styles = ["&:hover", "border-width"] ∧ ¬ Ascending (Table.keys styles) ∧
      ∃ maps, [Source.inline hoverBorder, .inline plainBorder].mapM Theme.record.blank.setStyles =
        .ok maps ∧ styles = mergeAll maps ∧ ¬ AddInOrder maps := by
  have hstyles : Theme.record.blank.setStyles (.list [.inline hoverBorder, .inline plainBorder]) =
      .ok [("&:hover", .block [("border-width", .declaration "2")]),
        ("border-width", .declaration "1")] := rfl
  have hunsorted : ¬ Ascending ["&:hover", "border-width"] := by decide
  obtain ⟨-, maps, hm, hs, -, hiff⟩ := set_order_exact hstyles
  exact ⟨_, hstyles, rfl, hunsorted, maps, hm, hs, fun h => hunsorted (hiff.2 h)⟩

end Theme

end Theming
