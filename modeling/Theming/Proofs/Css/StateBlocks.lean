import Theming.Proofs.Css.Order

/-! The blocks of states that stand side by side. At the top of a sorted map they are in cascade
order. Inside a block, merged maps leave them where they came first. -/

namespace Theming

/-- The place of a key in the cascade, behind those that have none. -/
def rank (key : String) : Nat := (specificity key).elim 0 (· + 1)

def Ascending (keys : List String) : Prop := keys.Pairwise fun a b => rank a ≤ rank b

instance (keys : List String) : Decidable (Ascending keys) :=
  inferInstanceAs (Decidable (keys.Pairwise _))

def isStateSelector (key : String) : Bool := (State.setOrder.map State.selector).contains key

theorem isStateSelector_selector (s : State) : isStateSelector s.selector = true :=
  List.contains_iff_mem.2 (List.mem_map_of_mem (State.mem_setOrder s))

theorem exists_state_of_isStateSelector {key : String} (h : isStateSelector key = true) :
    ∃ s : State, s.selector = key := by
  obtain ⟨s, _, hs⟩ := List.mem_map.1 (List.contains_iff_mem.1 h)
  exact ⟨s, hs⟩

namespace Styles

/-- The blocks of states in a map, by their selectors. -/
def stateBlocks (styles : Styles) : List String :=
  (styles.filter fun e => e.2.isBlock && isStateSelector e.1).map (·.1)

/-- What stands in the block at a path, if there is one. -/
def blockAt (styles : Styles) (path : List String) : Styles :=
  match (Style.block styles).at? path with
  | some (.block inner) => inner
  | _ => []

theorem blockAt_nil (styles : Styles) : blockAt styles [] = styles := rfl

theorem blockAt_cons_of_block {styles inner : Styles} {key : String}
    (h : Table.find? styles key = some (.block inner)) (path : List String) :
    blockAt styles (key :: path) = blockAt inner path := by
  simp [blockAt, Style.at?, h]

theorem blockAt_cons_of_not_block {styles : Styles} {key : String}
    (h : ∀ inner, Table.find? styles key ≠ some (.block inner)) (path : List String) :
    blockAt styles (key :: path) = [] := by
  cases hs : Table.find? styles key with
  | none => simp [blockAt, Style.at?, hs]
  | some style =>
    cases style with
    | block inner => exact absurd hs (h inner)
    | declaration text => cases path <;> simp [blockAt, Style.at?, hs]

theorem blockAt_cons_congr {a b : Styles} {key : String}
    (h : Table.find? a key = Table.find? b key) (path : List String) :
    blockAt a (key :: path) = blockAt b (key :: path) := by
  simp [blockAt, Style.at?, h]

theorem blockAt_cons_sorted {styles : Styles} (h : styles.Distinct) (key : String)
    (path : List String) : blockAt styles.sorted (key :: path) = blockAt styles (key :: path) :=
  blockAt_cons_congr (h.find?_perm styles.sorted_perm key) path

theorem blockAt_empty (path : List String) : blockAt [] path = [] := by
  cases path with
  | nil => rfl
  | cons key path => exact blockAt_cons_of_not_block (by simp [Table.find?]) path

theorem merge_nil_right (styles : Styles) : merge styles [] = styles := by rw [merge]

theorem distinct_blockAt {styles : Styles} (h : (Style.block styles).Proper)
    (path : List String) : (blockAt styles path).Distinct := by
  unfold blockAt
  split
  · next inner hat => exact h path inner hat
  · exact List.nodup_nil

/-- The block at a path of a merged map is merged from those of both maps. -/
theorem blockAt_merge {a b : Styles} (hc : (Style.block a).Compatible (.block b))
    (ha : (Style.block a).Proper) (hb : (Style.block b).Proper) (path : List String) :
    blockAt (merge a b) path = merge (blockAt a path) (blockAt b path) := by
  induction path generalizing a b with
  | nil => rfl
  | cons key path ih =>
    have hf := find?_merge a hb.distinct key
    cases hy : Table.find? b key with
    | none =>
      rw [hy] at hf
      have hnone : blockAt b (key :: path) = [] := blockAt_cons_of_not_block (by simp [hy]) path
      rw [blockAt_cons_congr hf, hnone, merge_nil_right]
    | some y =>
      rw [hy] at hf
      cases hx : Table.find? a key with
      | none =>
        rw [hx] at hf
        have hnone : blockAt a (key :: path) = [] := blockAt_cons_of_not_block (by simp [hx]) path
        have hsame : Table.find? (merge a b) key = Table.find? b key := hf.trans hy.symm
        rw [blockAt_cons_congr hsame, hnone, merge_nil_left (distinct_blockAt hb _)]
      | some x =>
        rw [hx] at hf
        have hkind := hc.inner hx hy [] x y (by simp [Style.at?]) (by simp [Style.at?])
        cases y with
        | declaration text =>
          have hx' : x.isBlock = false := hkind
          have hmerged : Table.find? (merge a b) key = some (.declaration text) := by
            simpa [Style.overlay] using hf
          have hnone {styles : Styles} (h : ∀ inner, Table.find? styles key ≠ some (.block inner)) :
              blockAt styles (key :: path) = [] := blockAt_cons_of_not_block h path
          have hax : ∀ inner, Table.find? a key ≠ some (.block inner) := by
            intro inner he
            rw [hx] at he
            cases he
            cases hx'
          rw [hnone (by simp [hmerged]), hnone hax, hnone (by simp [hy]), merge_nil_right]
        | block later =>
          cases x with
          | declaration text => cases hkind
          | block base =>
            have hmerged : Table.find? (merge a b) key = some (.block (merge base later)) := by
              simpa [Style.overlay] using hf
            rw [blockAt_cons_of_block hmerged, blockAt_cons_of_block hx, blockAt_cons_of_block hy]
            exact ih (hc.inner hx hy) (ha.inner hx) (hb.inner hy)

theorem pairwise_sorted (styles : Styles) :
    styles.sorted.Pairwise fun e f => rank e.1 ≤ rank f.1 := by
  have hrank (r : Option Nat) : ∀ e ∈ styles.filter (fun e => specificity e.1 == r),
      rank e.1 = r.elim 0 (· + 1) := by
    intro e he
    have hr : specificity e.1 = r := by simpa using (List.mem_filter.1 he).2
    rw [rank, hr]
  unfold sorted
  rw [List.pairwise_flatMap]
  constructor
  · intro r _
    refine List.pairwise_of_forall_mem_list fun e he f hf => ?_
    exact Nat.le_of_eq ((hrank r e he).trans (hrank r f hf).symm)
  · have hranks : ranks.Pairwise fun r s => r.elim 0 (· + 1) ≤ s.elim 0 (· + 1) := by decide
    refine hranks.imp fun {r s} hle e he f hf => ?_
    rw [hrank r e he, hrank s f hf]
    exact hle

theorem ascending_keys_sorted (styles : Styles) : Ascending (Table.keys styles.sorted) :=
  List.pairwise_map.2 (pairwise_sorted styles)

/-- At the top of a sorted map the states are in cascade order. -/
theorem ascending_stateBlocks_sorted (styles : Styles) : Ascending (stateBlocks styles.sorted) :=
  (ascending_keys_sorted styles).sublist (List.filter_sublist.map _)

end Styles

end Theming
