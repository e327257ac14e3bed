import Theming.Css.State
import Theming.Proofs.Css.Merge

/-! Sorting a map into cascade order moves its entries and changes nothing else. -/

namespace Theming

theorem perm_flatMap_filter {α β : Type} [BEq β] [LawfulBEq β] (rank : α → β) (l : List α)
    {ranks : List β} (h : ranks.Nodup) :
    (ranks.flatMap fun r => l.filter (rank · == r)).Perm
      (l.filter fun a => ranks.contains (rank a)) := by
  induction ranks with
  | nil => simp
  | cons r rest ih =>
    have hr := List.nodup_cons.1 h
    have hfirst : (l.filter fun a => (r :: rest).contains (rank a)).filter (rank · == r) =
        l.filter (rank · == r) := by
      rw [List.filter_filter]
      congr 1
      funext a
      cases he : rank a == r <;> simp [he]
    have hothers : (l.filter fun a => (r :: rest).contains (rank a)).filter
        (fun a => !(rank a == r)) = l.filter fun a => rest.contains (rank a) := by
      rw [List.filter_filter]
      congr 1
      funext a
      by_cases he : rank a = r
      · simp [he, hr.1]
      · simp [he]
    have hsplit := List.filter_append_perm (rank · == r)
      (l.filter fun a => (r :: rest).contains (rank a))
    rw [hfirst, hothers] at hsplit
    rw [List.flatMap_cons]
    exact ((ih hr.2).append_left _).trans hsplit

theorem specificity_mem_ranks (key : String) : specificity key ∈ ranks := by
  unfold ranks
  cases h : specificity key with
  | none => simp
  | some i =>
    have hi : i < rankWords.length := by
      obtain ⟨hi, _⟩ := List.findIdx?_eq_some_iff_getElem.1 h
      exact hi
    exact List.mem_cons_of_mem _ (List.mem_map_of_mem (List.mem_range.2 hi))

theorem Table.Distinct.find?_perm {α : Type} {a b : Table α} (h : a.Distinct) (hp : b.Perm a)
    (key : String) : b.find? key = a.find? key := by
  have hb : b.Distinct := (hp.map _).nodup_iff.2 h
  cases hf : a.find? key with
  | none =>
    have hk : key ∉ a.keys := Table.find?_eq_none_iff.1 hf
    exact Table.find?_eq_none_iff.2 fun hm => hk ((hp.map _).mem_iff.1 hm)
  | some x => exact hb.find?_of_mem (hp.mem_iff.2 (Table.mem_of_find? hf))

namespace Styles

theorem sorted_perm (styles : Styles) : styles.sorted.Perm styles := by
  have h := perm_flatMap_filter (fun e : String × Style => specificity e.1) styles
    (show ranks.Nodup by decide)
  rwa [List.filter_eq_self.2 fun e _ => by simpa using specificity_mem_ranks e.1] at h

theorem textAt?_sorted {styles : Styles} (h : styles.Distinct) (path : List String) :
    textAt? styles.sorted path = textAt? styles path := by
  cases path with
  | nil => rfl
  | cons key path => rw [textAt?_cons, textAt?_cons, h.find?_perm styles.sorted_perm]

end Styles

end Theming
