import Mathlib.Data.List.Induction
import Theming.Compile.Components

/-! Variants laid over each other. Every name keeps its first place. The variants of one name end
up as one, with the class of the last of them and with all their parts and default props. -/

namespace Theming

section

variable {α : Type} [BEq α] [LawfulBEq α]

theorem eraseDups_concat (l : List α) (a : α) :
    (l ++ [a]).eraseDups = if a ∈ l then l.eraseDups else l.eraseDups ++ [a] := by
  rw [List.eraseDups_append]
  by_cases h : a ∈ l
  · simp [List.removeAll, h]
  · simp [List.removeAll, h, List.eraseDups_cons]

theorem nodup_eraseDups (l : List α) : l.eraseDups.Nodup := by
  induction l using List.reverseRecOn with
  | nil => simp
  | append_singleton l a ih =>
    rw [eraseDups_concat]
    by_cases h : a ∈ l
    · simpa [h] using ih
    · simp only [h, if_false]
      refine List.nodup_append.2 ⟨ih, by simp, fun b hb c hc he => h ?_⟩
      rw [← List.mem_singleton.1 hc, ← he]
      exact List.mem_eraseDups.1 hb

theorem eraseDups_of_nodup {l : List α} (h : l.Nodup) : l.eraseDups = l := by
  induction l using List.reverseRecOn with
  | nil => simp
  | append_singleton l a ih =>
    have hd := List.nodup_append.1 h
    have ha : a ∉ l := fun hm => hd.2.2 a hm a (by simp) rfl
    rw [eraseDups_concat, if_neg ha, ih hd.1]

theorem eraseDups_sublist (l : List α) : l.eraseDups.Sublist l := by
  induction l using List.reverseRecOn with
  | nil => simp
  | append_singleton l a ih =>
    rw [eraseDups_concat]
    by_cases h : a ∈ l
    · simpa [h] using ih.trans (List.sublist_append_left l [a])
    · simpa [h] using ih.append (List.Sublist.refl [a])

theorem filter_eraseDups (p : α → Bool) (l : List α) :
    l.eraseDups.filter p = (l.filter p).eraseDups := by
  induction l using List.reverseRecOn with
  | nil => simp
  | append_singleton l a ih =>
    rw [eraseDups_concat, List.filter_append]
    by_cases hp : p a = true
    · have hlast : [a].filter p = [a] := by simp [hp]
      rw [hlast, eraseDups_concat]
      by_cases ha : a ∈ l <;> simp [ha, hp, ih]
    · by_cases ha : a ∈ l <;> simp [ha, hp, ih]

theorem eraseDups_append_congr {a b c d : List α} (h : a.eraseDups = c.eraseDups)
    (h' : b.eraseDups = d.eraseDups) : (a ++ b).eraseDups = (c ++ d).eraseDups := by
  have hmem (x : α) : x ∈ a ↔ x ∈ c := by rw [← List.mem_eraseDups, h, List.mem_eraseDups]
  have hremove : b.removeAll a = b.removeAll c :=
    List.filter_congr fun x _ => by simp [hmem]
  have hrest : (b.removeAll c).eraseDups = (d.removeAll c).eraseDups := by
    rw [List.removeAll, List.removeAll, ← filter_eraseDups, ← filter_eraseDups, h']
  rw [List.eraseDups_append, List.eraseDups_append, h, hremove, hrest]

end

namespace Table

variable {α : Type} {table entries : Table α}

theorem putAll_concat (table entries : Table α) (key : String) (a : α) :
    table.putAll (entries ++ [(key, a)]) = (table.putAll entries).put key a := by
  simp [putAll, List.foldl_append]

theorem keys_putAll (h : table.Distinct) (entries : Table α) :
    (table.putAll entries).keys = (table.keys ++ entries.keys).eraseDups := by
  induction entries using List.reverseRecOn with
  | nil => simpa [putAll, keys] using (eraseDups_of_nodup h).symm
  | append_singleton entries e ih =>
    have hkeys : keys (entries ++ [e]) = keys entries ++ [e.1] := by simp [keys]
    rw [putAll_concat, keys_put, hkeys, ← List.append_assoc, eraseDups_concat, ih]
    simp only [List.mem_eraseDups]

theorem keys_putAll_of_distinct (h : table.Distinct) (he : entries.Distinct) :
    (table.putAll entries).keys = table.keys ++ entries.keys.filter (· ∉ table.keys) := by
  have hnew : (entries.keys.filter (· ∉ table.keys)).Nodup := he.sublist List.filter_sublist
  have hremove : entries.keys.removeAll table.keys = entries.keys.filter (· ∉ table.keys) :=
    List.filter_congr fun key _ => by simp
  rw [keys_putAll h, List.eraseDups_append, hremove, eraseDups_of_nodup h,
    eraseDups_of_nodup hnew]

theorem Distinct.putAll (h : table.Distinct) (entries : Table α) :
    (table.putAll entries).Distinct := by
  unfold Distinct
  rw [keys_putAll h]
  exact nodup_eraseDups _

theorem find?_putAll (table : Table α) (h : entries.Distinct) (key : String) :
    (table.putAll entries).find? key = (entries.find? key).or (table.find? key) := by
  induction entries generalizing table with
  | nil => simp [putAll, find?]
  | cons e rest ih =>
    have hd : e.1 ∉ keys rest ∧ Distinct rest := List.nodup_cons.1 h
    change (Table.putAll (table.put e.1 e.2) rest).find? key = _
    rw [ih _ hd.2]
    by_cases he : e.1 = key
    · subst he
      rw [find?_eq_none_iff.2 hd.1, find?_put_self]
      simp [find?]
    · rw [find?_put_ne _ _ (Ne.symm he)]
      simp [find?, he]

end Table

namespace CompiledVariant

/-- A variant as what becomes of those of its name, of which each is laid over the ones in front
of it. -/
structure Layers (variant first : CompiledVariant) (rest : List CompiledVariant) : Prop where
  /-- The class is that of the last one. -/
  className : (first :: rest).getLast?.map (fun v => v.className) = some variant.className
  parts : variant.parts.keys = ((first :: rest).flatMap fun v => v.parts.keys).eraseDups
  /-- Every part has the class that the last one with the part gives it. -/
  partClass : ∀ part, variant.parts.find? part =
    (first :: rest).reverse.findSome? fun v => v.parts.find? part
  defaultProps : variant.defaultProps =
    (rest.map fun v => v.defaultProps).foldl Value.deepMerge first.defaultProps

def stack (first : CompiledVariant) (rest : List CompiledVariant) : CompiledVariant :=
  rest.foldl (fun base variant => variant.onto base) first

variable {first : CompiledVariant} {rest variants : List CompiledVariant} {name : String}

theorem stack_concat (first : CompiledVariant) (rest : List CompiledVariant)
    (last : CompiledVariant) : stack first (rest ++ [last]) = last.onto (stack first rest) := by
  simp [stack, List.foldl_append]

theorem layers_stack (hf : first.parts.Distinct) (hr : ∀ v ∈ rest, v.parts.Distinct) :
    (stack first rest).Layers first rest ∧ (stack first rest).parts.Distinct := by
  induction rest using List.reverseRecOn with
  | nil =>
    refine ⟨⟨rfl, ?_, fun part => ?_, rfl⟩, hf⟩
    · simpa [stack] using (eraseDups_of_nodup hf).symm
    · cases h : first.parts.find? part <;> simp [stack, h]
  | append_singleton rest last ih =>
    obtain ⟨layers, distinct⟩ := ih fun v hv => hr v (List.mem_append_left _ hv)
    have hlast : last.parts.Distinct := hr last (by simp)
    rw [stack_concat]
    refine ⟨⟨?_, ?_, fun part => ?_, ?_⟩, distinct.putAll last.parts⟩
    · rw [← List.cons_append, List.getLast?_concat]
      rfl
    · -- the keys of the parts so far have no repetitions left to erase
      simp only [onto, Table.keys_putAll distinct]
      rw [layers.parts, ← List.cons_append, List.flatMap_append]
      simp only [List.flatMap_singleton, List.eraseDups_append]
      rw [eraseDups_of_nodup (nodup_eraseDups _)]
      congr 2
      simp only [List.removeAll]
      refine List.filter_congr fun key _ => ?_
      simp [List.mem_eraseDups]
    · simp only [onto]
      rw [Table.find?_putAll _ hlast, layers.partClass, ← List.cons_append, List.reverse_append,
        List.findSome?_append]
      cases hp : last.parts.find? part <;> simp [hp]
    · simp [onto, layers.defaultProps]

def stacked? : List CompiledVariant → Option CompiledVariant
  | [] => none
  | first :: rest => some (stack first rest)

theorem names_layer (variant : CompiledVariant) (base : List CompiledVariant) :
    (variant.layer base).map (·.variant) =
      if variant.variant ∈ base.map (·.variant) then base.map (·.variant)
      else base.map (·.variant) ++ [variant.variant] := by
  induction base with
  | nil => simp [layer]
  | cons b rest ih =>
    by_cases h : b.variant = variant.variant
    · simp [layer, h, onto]
    · simp only [layer, h, if_false, List.map_cons, ih, List.mem_cons, Ne.symm h, false_or]
      split <;> simp

theorem layerAll_concat (base variants : List CompiledVariant) (last : CompiledVariant) :
    layerAll base (variants ++ [last]) = last.layer (layerAll base variants) := by
  simp [layerAll, List.foldl_append]

theorem names_layerAll (variants : List CompiledVariant) :
    (layerAll [] variants).map (·.variant) = (variants.map (·.variant)).eraseDups := by
  induction variants using List.reverseRecOn with
  | nil => rfl
  | append_singleton variants last ih =>
    rw [layerAll_concat, names_layer, ih, List.map_append, List.map_singleton, eraseDups_concat]
    simp only [List.mem_eraseDups]

theorem find?_layer (variant : CompiledVariant) (base : List CompiledVariant) (name : String) :
    (variant.layer base).find? (·.variant == name) =
      if variant.variant = name then
        some ((base.find? (·.variant == name)).elim variant variant.onto)
      else base.find? (·.variant == name) := by
  induction base with
  | nil => by_cases h : variant.variant = name <;> simp [layer, h]
  | cons b rest ih =>
    by_cases hb : b.variant = variant.variant
    · by_cases h : variant.variant = name
      · simp [layer, hb, h, onto]
      · simp [layer, hb, h, onto]
    · rw [layer, if_neg hb]
      by_cases h : b.variant = name
      · have hv : variant.variant ≠ name := fun he => hb (h.trans he.symm)
        simp [h, hv]
      · simp [h, ih]

/-- What a name stands for is made of all variants of that name. -/
theorem find?_layerAll (variants : List CompiledVariant) (name : String) :
    (layerAll [] variants).find? (·.variant == name) =
      stacked? (variants.filter (·.variant == name)) := by
  induction variants using List.reverseRecOn with
  | nil => rfl
  | append_singleton variants last ih =>
    rw [layerAll_concat, find?_layer, ih, List.filter_append]
    by_cases h : last.variant = name
    · cases hm : variants.filter (·.variant == name) with
      | nil => simp [h, stacked?, stack]
      | cons first rest => simp [h, stacked?, stack_concat]
    · simp [h]

theorem find?_of_mem {variants : List CompiledVariant} (h : (variants.map (·.variant)).Nodup)
    {variant : CompiledVariant} (hv : variant ∈ variants) :
    variants.find? (·.variant == variant.variant) = some variant := by
  induction variants with
  | nil => cases hv
  | cons first rest ih =>
    have hd := List.nodup_cons.1 h
    rcases List.mem_cons.1 hv with rfl | hv
    · simp
    · have hne : first.variant ≠ variant.variant :=
        fun he => hd.1 (List.mem_map.2 ⟨variant, hv, he.symm⟩)
      simpa [hne] using ih hd.2 hv

/-- Variants of different names laid over others: each one stands over what was there. -/
theorem find?_layerAll_of_nodup (base : List CompiledVariant) {own : List CompiledVariant}
    (h : (own.map (·.variant)).Nodup) (name : String) :
    (layerAll base own).find? (·.variant == name) =
      match own.find? (·.variant == name) with
      | some variant =>
        some ((base.find? (·.variant == name)).elim variant variant.onto)
      | none => base.find? (·.variant == name) := by
  induction own using List.reverseRecOn with
  | nil => rfl
  | append_singleton own last ih =>
    rw [List.map_append, List.map_singleton] at h
    have hd := List.nodup_append.1 h
    rw [layerAll_concat, find?_layer, ih hd.1, List.find?_append]
    by_cases hlast : last.variant = name
    · have hnone : own.find? (·.variant == name) = none := by
        refine List.find?_eq_none.2 fun v hv he => ?_
        have hv' : v.variant = last.variant := (beq_iff_eq.1 he).trans hlast.symm
        exact hd.2.2 _ (List.mem_map_of_mem hv) _ (by simp) hv'
      simp [hnone, hlast]
    · simp [hlast]

theorem filter_flatten {owns : List (List CompiledVariant)}
    (h : ∀ own ∈ owns, (own.map (·.variant)).Nodup) (name : String) :
    owns.flatten.filter (·.variant == name) =
      owns.filterMap fun own => own.find? (·.variant == name) := by
  have hone (own : List CompiledVariant) (hn : (own.map (·.variant)).Nodup) :
      own.filter (·.variant == name) = (own.find? (·.variant == name)).toList := by
    induction own with
    | nil => rfl
    | cons v rest ih =>
      have hd := List.nodup_cons.1 hn
      by_cases hv : v.variant = name
      · have hrest : rest.filter (·.variant == name) = [] := by
          refine List.filter_eq_nil_iff.2 fun w hw he => hd.1 (List.mem_map.2 ⟨w, hw, ?_⟩)
          exact (beq_iff_eq.1 he).trans hv.symm
        simp [hv, hrest]
      · simpa [hv] using ih hd.2
  induction owns with
  | nil => rfl
  | cons own rest ih =>
    rw [List.flatten_cons, List.filter_append, hone own (h own List.mem_cons_self),
      ih fun o ho => h o (List.mem_cons_of_mem own ho)]
    cases hf : own.find? (·.variant == name) <;> simp [hf]

/-- What becomes of the members of a chain when their variants are laid over each other. -/
theorem layerAll_chain {owns : List (List CompiledVariant)}
    (hnames : ∀ own ∈ owns, (own.map (·.variant)).Nodup)
    (hparts : ∀ own ∈ owns, ∀ v ∈ own, v.parts.Distinct) :
    ((layerAll [] owns.flatten).map (·.variant)).Nodup ∧
    (layerAll [] owns.flatten).map (·.variant) = (owns.flatten.map (·.variant)).eraseDups ∧
    ∀ v ∈ layerAll [] owns.flatten, ∃ first rest,
      (owns.filterMap fun own => own.find? (·.variant == v.variant)) = first :: rest ∧
      v.Layers first rest := by
  have hnodup : ((layerAll [] owns.flatten).map (·.variant)).Nodup := by
    rw [names_layerAll]
    exact nodup_eraseDups _
  refine ⟨hnodup, names_layerAll _, fun v hv => ?_⟩
  have hfound : (layerAll [] owns.flatten).find? (·.variant == v.variant) = some v :=
    find?_of_mem hnodup hv
  rw [find?_layerAll, filter_flatten hnames] at hfound
  cases hm : owns.filterMap fun own => own.find? (·.variant == v.variant) with
  | nil =>
    rw [hm] at hfound
    cases hfound
  | cons first rest =>
    rw [hm] at hfound
    cases hfound
    have hall : ∀ w ∈ first :: rest, w.parts.Distinct := by
      intro w hw
      rw [← hm] at hw
      obtain ⟨own, ho, hw⟩ := List.mem_filterMap.1 hw
      exact hparts own ho w (List.mem_of_find?_eq_some hw)
    exact ⟨first, rest, rfl, (layers_stack (hall first List.mem_cons_self)
      fun w hw => hall w (List.mem_cons_of_mem first hw)).1⟩

end CompiledVariant

end Theming
