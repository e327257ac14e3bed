import Mathlib.Data.List.Basic
import Theming.Proofs.Css.Cascade

/-! The order of the entries of merged maps. New keys of the later map come behind all keys of the
earlier one, so merging is associative unless a path leads to a declaration in one map and to a
block in another. A map may be brought into cascade order before it is merged or afterwards. -/

namespace Theming

theorem Table.Distinct.eq_filterMap {α : Type} {table : Table α} (h : table.Distinct) :
    table = table.keys.filterMap fun key => (table.find? key).map (key, ·) := by
  have hsome : table.filterMap some = table.filterMap
      ((fun key => (table.find? key).map (key, ·)) ∘ Prod.fst) :=
    List.filterMap_congr fun e he => by simp [h.find?_of_mem he]
  rw [Table.keys, List.filterMap_map, ← hsome, List.filterMap_some]

/-- A table is its keys in their order and what it holds under each of them. -/
theorem Table.Distinct.ext {α : Type} {a b : Table α} (ha : a.Distinct) (hk : a.keys = b.keys)
    (hf : ∀ key, a.find? key = b.find? key) : a = b := by
  have hb : b.Distinct := by
    unfold Table.Distinct
    rw [← hk]
    exact ha
  rw [ha.eq_filterMap, hb.eq_filterMap, hk]
  simp only [hf]

theorem Table.mem_keys_iff_of_find? {α : Type} {a b : Table α}
    (hf : ∀ key, a.find? key = b.find? key) (key : String) : key ∈ a.keys ↔ key ∈ b.keys := by
  have h : a.find? key = none ↔ b.find? key = none := by rw [hf]
  rw [Table.find?_eq_none_iff, Table.find?_eq_none_iff] at h
  exact Decidable.not_iff_not.1 h

theorem filter_flatMap_filter {α β : Type} [BEq β] [LawfulBEq β] (rank : α → β) (l : List α)
    {ranks : List β} (h : ranks.Nodup) {r : β} (hr : r ∈ ranks) :
    (ranks.flatMap fun r => l.filter (rank · == r)).filter (rank · == r) =
      l.filter (rank · == r) := by
  have hother {s : β} (hs : s ≠ r) : (l.filter (rank · == s)).filter (rank · == r) = [] := by
    simp only [List.filter_filter, List.filter_eq_nil_iff]
    intro a _
    by_cases ha : rank a = r
    · simp [ha, Ne.symm hs]
    · simp [ha]
  induction ranks with
  | nil => simp at hr
  | cons s rest ih =>
    have hd := List.nodup_cons.1 h
    rw [List.flatMap_cons, List.filter_append]
    rcases List.mem_cons.1 hr with rfl | hr
    · have hrest : (rest.flatMap fun s => l.filter (rank · == s)).filter (rank · == r) = [] := by
        rw [List.filter_flatMap, List.flatMap_eq_nil_iff]
        exact fun s hs => hother fun he => hd.1 (he ▸ hs)
      rw [hrest, List.append_nil, List.filter_filter]
      simp
    · have hs : s ≠ r := fun he => hd.1 (he ▸ hr)
      rw [hother hs, List.nil_append, ih hd.2 hr]

namespace Styles

theorem keys_merge (base : Styles) {later : Styles} (h : later.Distinct) :
    Table.keys (merge base later) =
      Table.keys base ++ (Table.keys later).filter fun key => key ∉ Table.keys base := by
  induction later generalizing base with
  | nil => simp [merge, Table.keys]
  | cons e rest ih =>
    obtain ⟨key, style⟩ := e
    have hd : key ∉ Table.keys rest ∧ Table.Distinct rest := List.nodup_cons.1 h
    have hcons : Table.keys ((key, style) :: rest) = key :: Table.keys rest := rfl
    rw [merge, ih _ hd.2, Table.keys_put, hcons]
    by_cases hk : key ∈ Table.keys base
    · simp [hk]
    · have hrest : (Table.keys rest).filter (fun k => k ∉ Table.keys base ++ [key]) =
          (Table.keys rest).filter fun k => k ∉ Table.keys base := by
        refine List.filter_congr fun k hm => ?_
        have hne : k ≠ key := fun he => hd.1 (he ▸ hm)
        simp [hne]
      simp only [hk, if_false, hrest]
      simp [hk]

theorem mergeAll_concat (maps : List Styles) (last : Styles) :
    mergeAll (maps ++ [last]) = merge (mergeAll maps) last := by
  simp [mergeAll, List.foldl_append]

theorem distinct_merge {base later : Styles} (hb : base.Distinct) (hl : later.Distinct) :
    (merge base later).Distinct := by
  unfold Table.Distinct
  rw [keys_merge base hl]
  refine List.nodup_append.2 ⟨hb, hl.sublist List.filter_sublist, fun a ha b hm he => ?_⟩
  have hnew := (List.mem_filter.1 hm).2
  simp [← he, ha] at hnew

theorem merge_nil_left {styles : Styles} (h : styles.Distinct) : merge [] styles = styles := by
  have hnil : Table.Distinct ([] : Styles) := List.nodup_nil
  refine (distinct_merge hnil h).ext ?_ fun key => ?_
  · rw [keys_merge [] h]
    simp [Table.keys]
  · rw [find?_merge [] h]
    cases Table.find? styles key <;> simp [Table.find?]

theorem keys_merge_assoc (a : Styles) {b c : Styles} (hb : b.Distinct) (hc : c.Distinct) :
    Table.keys (merge (merge a b) c) = Table.keys (merge a (merge b c)) := by
  rw [keys_merge _ hc, keys_merge _ hb, keys_merge _ (distinct_merge hb hc), keys_merge _ hc]
  simp only [List.filter_append, List.filter_filter, List.append_assoc]
  congr 2
  refine List.filter_congr fun key _ => ?_
  by_cases ha : key ∈ Table.keys a <;> by_cases hb : key ∈ Table.keys b <;> simp [ha, hb]

/-- Maps are merged in the same way from either end if the styles under each key are. -/
theorem merge_assoc_of_overlay {a b c : Styles} (ha : a.Distinct) (hb : b.Distinct)
    (hc : c.Distinct)
    (h : ∀ key x y z, Table.find? a key = some x → Table.find? b key = some y →
      Table.find? c key = some z → (x.overlay y).overlay z = x.overlay (y.overlay z)) :
    merge (merge a b) c = merge a (merge b c) := by
  refine (distinct_merge (distinct_merge ha hb) hc).ext (keys_merge_assoc a hb hc) fun key => ?_
  rw [find?_merge _ hc, find?_merge _ hb, find?_merge _ (distinct_merge hb hc), find?_merge _ hc]
  cases hz : Table.find? c key with
  | none => rfl
  | some z =>
    cases hy : Table.find? b key with
    | none => rfl
    | some y =>
      cases hx : Table.find? a key with
      | none => rfl
      | some x => simpa using h key x y z hx hy hz

/-- Merging is associative where no path leads to a declaration in one map and to a block in
another. -/
theorem merge_assoc {a b c : Styles} (hab : (Style.block a).Compatible (.block b))
    (hac : (Style.block a).Compatible (.block c)) (hbc : (Style.block b).Compatible (.block c))
    (ha : (Style.block a).Proper) (hb : (Style.block b).Proper) (hc : (Style.block c).Proper) :
    merge (merge a b) c = merge a (merge b c) := by
  refine merge_assoc_of_overlay ha.distinct hb.distinct hc.distinct
    fun key x y z hx hy hz => ?_
  have hxy := hab.inner hx hy
  have hyz := hbc.inner hy hz
  have hkinds : x.isBlock = y.isBlock ∧ y.isBlock = z.isBlock :=
    ⟨hxy [] x y (by simp [Style.at?]) (by simp [Style.at?]),
      hyz [] y z (by simp [Style.at?]) (by simp [Style.at?])⟩
  cases x with
  | declaration text =>
    cases y with
    | block second => simp [Style.isBlock] at hkinds
    | declaration text' =>
      cases z with
      | block third => simp [Style.isBlock] at hkinds
      | declaration text'' => simp [Style.overlay]
  | block first =>
    cases y with
    | declaration text => simp [Style.isBlock] at hkinds
    | block second =>
      cases z with
      | declaration text => simp [Style.isBlock] at hkinds
      | block third =>
        -- the maps inside a block are smaller than the map that it stands in
        have hlt : sizeOf third < sizeOf c := by
          have hm := List.sizeOf_lt_of_mem (Table.mem_of_find? hz)
          simp at hm
          omega
        simp only [Style.overlay]
        exact congrArg Style.block (merge_assoc hxy (hac.inner hx hz) hyz (ha.inner hx)
          (hb.inner hy) (hc.inner hz))
termination_by sizeOf c

/-- Two maps that are the same once they are brought into cascade order. -/
structure SameCascade (a b : Styles) : Prop where
  keys : ∀ rank, (Table.keys a).filter (specificity · == rank) =
    (Table.keys b).filter (specificity · == rank)
  find? : ∀ key, Table.find? a key = Table.find? b key

theorem keys_sorted (styles : Styles) : Table.keys styles.sorted =
    ranks.flatMap fun rank => (Table.keys styles).filter (specificity · == rank) := by
  unfold Table.keys sorted
  rw [List.map_flatMap]
  congr 1
  funext rank
  rw [List.filter_map]
  rfl

theorem sameCascade_sorted {styles : Styles} (h : styles.Distinct) :
    SameCascade styles.sorted styles := by
  refine ⟨fun rank => ?_, h.find?_perm styles.sorted_perm⟩
  rw [keys_sorted]
  by_cases hr : rank ∈ ranks
  · exact filter_flatMap_filter specificity _ (by decide) hr
  · have hnone (keys : List String) : keys.filter (specificity · == rank) = [] := by
      refine List.filter_eq_nil_iff.2 fun key _ he => hr ?_
      rw [← beq_iff_eq.1 he]
      exact specificity_mem_ranks key
    rw [hnone, hnone]

theorem SameCascade.sorted_eq {a b : Styles} (h : SameCascade a b) (ha : a.Distinct) :
    a.sorted = b.sorted := by
  have hsorted : a.sorted.Distinct := (a.sorted_perm.map _).nodup_iff.2 ha
  have hkeys : Table.keys a.sorted = Table.keys b.sorted := by
    rw [keys_sorted, keys_sorted]
    simp only [h.keys]
  have hb : b.Distinct := by
    have hsorted : b.sorted.Distinct := by
      unfold Table.Distinct
      rwa [← hkeys]
    exact (b.sorted_perm.map _).nodup_iff.1 hsorted
  refine hsorted.ext hkeys fun key => ?_
  rw [ha.find?_perm a.sorted_perm, hb.find?_perm b.sorted_perm, h.find?]

theorem SameCascade.merge_left {a b later : Styles} (h : SameCascade a b)
    (hl : later.Distinct) : SameCascade (merge a later) (merge b later) := by
  have hmem := Table.mem_keys_iff_of_find? h.find?
  refine ⟨fun rank => ?_, fun key => ?_⟩
  · simp only [keys_merge _ hl, List.filter_append, h.keys, hmem]
  · rw [find?_merge _ hl, find?_merge _ hl, h.find?]

theorem SameCascade.merge_right (base : Styles) {a b : Styles} (h : SameCascade a b)
    (ha : a.Distinct) (hb : b.Distinct) : SameCascade (merge base a) (merge base b) := by
  refine ⟨fun rank => ?_, fun key => ?_⟩
  · simp only [keys_merge _ ha, keys_merge _ hb, List.filter_append]
    rw [List.filter_comm _ _ (Table.keys a), List.filter_comm _ _ (Table.keys b), h.keys]
  · rw [find?_merge _ ha, find?_merge _ hb, h.find?]

/-- A map in the middle may be brought into cascade order before it is merged. -/
theorem sorted_merge_sorted {a b c : Styles} (ha : a.Distinct) (hb : b.Distinct)
    (hc : c.Distinct) : sorted (merge (merge a b.sorted) c) = sorted (merge (merge a b) c) := by
  have hsorted : b.sorted.Distinct := (b.sorted_perm.map _).nodup_iff.2 hb
  have hsame : SameCascade (merge a b.sorted) (merge a b) :=
    (sameCascade_sorted hb).merge_right a hsorted hb
  exact (hsame.merge_left hc).sorted_eq (distinct_merge (distinct_merge ha hsorted) hc)

end Styles

end Theming
