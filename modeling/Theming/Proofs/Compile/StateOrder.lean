import Theming.Proofs.Compile.Boxes
import Theming.Proofs.Compile.Layering
import Theming.Proofs.Css.StateBlocks

/-! The order of states in composed maps. At the top it is the order of the cascade. Inside a state
the composed maps that meet there follow each other, each in cascade order, and are not sorted
again. -/

namespace Theming

namespace Styles

variable {place : Place} {a b styles : Styles}

/-- Where the block at a path stands, if the path leads to a block. -/
def placeAt (path : List String) : Place :=
  match KeyKind.at? (some (.block .rules)) path with
  | some (.block place) => place
  | _ => .rules

theorem Fit.blockAt (h : Fit .rules styles) (path : List String) :
    Fit (placeAt path) (blockAt styles path) := by
  unfold Styles.blockAt
  split
  · next inner hat =>
    obtain ⟨place, hk, hfit, _⟩ := h.block.at? hat
    rw [placeAt, hk]
    exact hfit
  · exact .nil

theorem kindOf?_of_isStateSelector {key : String} (h : isStateSelector key = true) :
    Place.rules.kindOf? key = some (.block .rules) := by
  obtain ⟨s, rfl⟩ := exists_state_of_isStateSelector h
  exact Place.kindOf?_selector s

theorem Fit.not_isBlock (h : Fit place styles) (hp : place ≠ .rules) :
    ∀ e ∈ styles, e.2.isBlock = false := by
  rintro ⟨key, style⟩ he
  cases style with
  | declaration text => rfl
  | block inner =>
    obtain ⟨_, hk, _⟩ := (fit_iff.1 h).2 _ he
    exact absurd (Place.kindOf?_eq_block hk).1 hp

theorem Fit.stateBlocks_of_ne (h : Fit place styles) (hp : place ≠ .rules) :
    stateBlocks styles = [] := by
  have hnone := h.not_isBlock hp
  rw [stateBlocks, List.filter_eq_nil_iff.2 fun e he => by simp [hnone e he]]
  rfl

theorem Fit.stateBlocks_eq_keys (h : Fit .rules styles) :
    stateBlocks styles = (Table.keys styles).filter isStateSelector := by
  rw [stateBlocks, Table.keys, List.filter_map]
  refine congrArg _ (List.filter_congr fun e he => ?_)
  by_cases hs : isStateSelector e.1
  · have hfits := (fit_iff.1 h).2 e he
    rw [kindOf?_of_isStateSelector hs] at hfits
    cases hstyle : e.2 with
    | declaration text =>
      rw [hstyle] at hfits
      cases hfits
    | block inner => simp [Style.isBlock]
  · simp [hs]

theorem Fit.nodup_stateBlocks (h : Fit place styles) : (stateBlocks styles).Nodup :=
  (fit_iff.1 h).1.sublist (List.filter_sublist.map _)

theorem Fit.stateBlocks_merge (ha : Fit place a) (hb : Fit place b) :
    stateBlocks (Styles.merge a b) = (stateBlocks a ++ stateBlocks b).eraseDups := by
  by_cases hp : place = .rules
  · cases hp
    have hmerged := ha.merge hb
    rw [List.eraseDups_append, eraseDups_of_nodup ha.nodup_stateBlocks, hmerged.stateBlocks_eq_keys,
      keys_merge a (fit_iff.1 hb).1, List.filter_append, ← ha.stateBlocks_eq_keys]
    have hnew : (stateBlocks b).removeAll (stateBlocks a) =
        ((Table.keys b).filter fun key => key ∉ Table.keys a).filter isStateSelector := by
      rw [ha.stateBlocks_eq_keys, hb.stateBlocks_eq_keys, List.removeAll, List.filter_filter,
        List.filter_filter]
      refine List.filter_congr fun key _ => ?_
      by_cases hs : isStateSelector key <;> simp [hs]
    have hnodup : ((stateBlocks b).removeAll (stateBlocks a)).Nodup :=
      hb.nodup_stateBlocks.sublist List.filter_sublist
    rw [← hnew, eraseDups_of_nodup hnodup]
  · rw [(ha.merge hb).stateBlocks_of_ne hp, ha.stateBlocks_of_ne hp, hb.stateBlocks_of_ne hp]
    rfl

/-- The states at a path of merged maps are those of the maps, each where it comes first. -/
theorem stateBlocks_blockAt_mergeAll {maps : List Styles} (h : ∀ map ∈ maps, Fit .rules map)
    (path : List String) : stateBlocks (blockAt (mergeAll maps) path) =
      (maps.flatMap fun map => stateBlocks (blockAt map path)).eraseDups := by
  induction maps using List.reverseRecOn with
  | nil =>
    rw [mergeAll, List.foldl_nil, blockAt_empty]
    rfl
  | append_singleton maps last ih =>
    have hm : ∀ map ∈ maps, Fit .rules map := fun map hs => h map (by simp [hs])
    have hl : Fit .rules last := h last (by simp)
    have hmerged : Fit .rules (mergeAll maps) := Fit.mergeAll hm
    rw [mergeAll_concat, blockAt_merge (hmerged.block.compatible hl.block) hmerged.block.proper
      hl.block.proper, (hmerged.blockAt path).stateBlocks_merge (hl.blockAt path), ih hm,
      List.flatMap_append, List.flatMap_singleton]
    exact eraseDups_append_congr (eraseDups_of_nodup (nodup_eraseDups _)) rfl

/-- Neither the map nor a block inside it has states. -/
def Stateless (styles : Styles) : Prop := ∀ path, stateBlocks (blockAt styles path) = []

def Shallow (styles : Styles) : Prop :=
  ∀ key path, stateBlocks (blockAt styles (key :: path)) = []

theorem Stateless.shallow (h : Stateless styles) : Shallow styles := fun key path => h (key :: path)

theorem Fit.stateless_of_ne (h : Fit place styles) (hp : place ≠ .rules) : Stateless styles := by
  intro path
  cases path with
  | nil => exact h.stateBlocks_of_ne hp
  | cons key path =>
    rw [blockAt_cons_of_not_block (fun inner hf => ?_) path]
    · rfl
    · cases h.not_isBlock hp _ (Table.mem_of_find? hf)

theorem Fit.stateless_of_find? (h : Fit .rules styles) {key : String} {inner : Styles}
    (hf : Table.find? styles key = some (.block inner)) (hk : isStateSelector key = false) :
    Stateless inner := by
  obtain ⟨inside, hkind, hinner, _⟩ := h.find? hf
  refine hinner.stateless_of_ne fun hi => ?_
  obtain ⟨-, ⟨hj, -⟩ | ⟨-, hm⟩ | ⟨hj, -⟩ | ⟨hj, -⟩⟩ := Place.kindOf?_eq_block hkind
  · cases hi.symm.trans hj
  · have hstate : isStateSelector key = true := List.contains_iff_mem.2 hm
    rw [hk] at hstate
    cases hstate
  · cases hi.symm.trans hj
  · cases hi.symm.trans hj

theorem stateBlocks_blockAt_cons_eq_nil {key : String} {path : List String}
    (h : ∀ inner, Table.find? styles key = some (.block inner) →
      stateBlocks (blockAt inner path) = []) : stateBlocks (blockAt styles (key :: path)) = [] := by
  by_cases hf : ∃ inner, Table.find? styles key = some (.block inner)
  · obtain ⟨inner, hf⟩ := hf
    rw [blockAt_cons_of_block hf]
    exact h inner hf
  · rw [blockAt_cons_of_not_block fun inner hi => hf ⟨inner, hi⟩]
    rfl

theorem Fit.stateBlocks_blockAt_cons (h : Fit .rules styles) {key : String}
    (hk : isStateSelector key = false) (path : List String) :
    stateBlocks (Styles.blockAt styles (key :: path)) = [] :=
  stateBlocks_blockAt_cons_eq_nil fun _ hf => h.stateless_of_find? hf hk path

theorem Fit.stateless_of_keys (h : Fit .rules styles)
    (hk : ∀ key ∈ Table.keys styles, isStateSelector key = false) : Stateless styles := by
  intro path
  cases path with
  | nil => rw [blockAt_nil, h.stateBlocks_eq_keys, List.filter_eq_nil_iff.2 (by simpa using hk)]
  | cons key path =>
    exact stateBlocks_blockAt_cons_eq_nil fun inner hf =>
      h.stateless_of_find? hf (hk key (Table.mem_keys_of_find? hf)) path

theorem mergeClosed_shallow :
    Theme.MergeClosed fun styles => Fit .rules styles ∧ Shallow styles where
  nil := ⟨.nil, fun key path => by rw [blockAt_empty]; rfl⟩
  merge := by
    rintro a b ⟨ha, hsa⟩ ⟨hb, hsb⟩
    refine ⟨ha.merge hb, fun key path => ?_⟩
    rw [blockAt_merge (ha.block.compatible hb.block) ha.block.proper hb.block.proper,
      (ha.blockAt _).stateBlocks_merge (hb.blockAt _), hsa, hsb]
    rfl
  sorted := by
    rintro a ⟨ha, hsa⟩
    refine ⟨ha.sorted, fun key path => ?_⟩
    rw [blockAt_cons_sorted (fit_iff.1 ha).1]
    exact hsa key path

end Styles

namespace Theme

open Styles

variable {theme : Theme} {styles : Styles} {refer : String → Except ThemeError (Option Styles)}

theorem isStateSelector_of_mem_plainKeys (kind : SetKind) :
    ∀ key ∈ plainKeys kind ++ ["pointer-events"] ++ [selectionSelector],
      isStateSelector key = false := by
  cases kind <;> decide +kernel

theorem shallow_of_ownStyles {kind : SetKind} {set : StyleSet kind}
    (h : theme.ownStyles set = .ok styles) : Shallow styles := by
  have hfit := fit_of_ownStyles h
  have hplain := isStateSelector_of_mem_plainKeys kind
  intro key path
  refine stateBlocks_blockAt_cons_eq_nil fun inner hf => ?_
  by_cases hk : isStateSelector key = true
  · simp only [ownStyles, bind_eq_ok_iff] at h
    obtain ⟨base, hb, states, hs, selection, hse, h⟩ := h
    cases h
    have hno {keys : List String} {part : Styles} (hs : Spelled keys part)
        (hsub : ∀ k ∈ keys, isStateSelector k = false) (hm : (key, .block inner) ∈ part) :
        stateBlocks (blockAt inner path) = [] := by
      have hnot := hsub key (hs.1.subset (List.mem_map_of_mem hm))
      rw [hk] at hnot
      cases hnot
    have hblocks : ∀ block ∈ states, block = [] ∨ ∃ state inner,
        block = [(State.selector state, .block inner)] ∧
          Spelled (plainKeys kind ++ ["pointer-events"]) inner := by
      refine forall_of_mapM hs fun state block hb => ?_
      rcases exists_of_stateStyles hb with h | ⟨inner, h⟩
      · exact .inl h
      · exact .inr ⟨state, inner, h⟩
    have hmem := Table.mem_of_find? hf
    rw [List.mem_append, List.mem_append] at hmem
    rcases hmem with (hm | hm) | hm
    · exact hno (spelled_of_propStyles hb) (fun k hk => hplain k (by simp [hk])) hm
    · obtain ⟨block, hblock, hm⟩ := List.mem_flatten.1 hm
      rcases hblocks block hblock with rfl | ⟨state, own, rfl, hown⟩
      · cases hm
      · cases List.mem_singleton.1 hm
        exact (hown.fit (nodup_plainKeys kind)).stateless_of_keys
          (fun k hk => hplain k (List.mem_append_left _ (hown.1.subset hk))) path
    · exact hno (spelled_of_slotStyles (fun _ _ => spelled_of_selectionStyles) hse)
        (fun k hk => hplain k (List.mem_append_right _ hk)) hm
  · exact hfit.stateless_of_find? hf (by simpa using hk) path

theorem shallow_of_setStyles {kind : SetKind} (source : Source (StyleSet kind))
    (h : theme.setStyles source = .ok styles) : Shallow styles :=
  (mergeClosed_shallow.setStyles
    (fun _ _ ho => ⟨fit_of_ownStyles ho, shallow_of_ownStyles ho⟩) source h).2

/-- Only what a box inherits has states inside states, apart from its own states. -/
theorem FromSlot.shallow {map : Styles} (h : theme.FromSlot map) : Shallow map := by
  have hplain : ∀ key ∈ slotKeys, isStateSelector key = false := by decide +kernel
  rcases h with ⟨kind, source, hs⟩ | ⟨keys, hd, hk, hs⟩
  · exact shallow_of_setStyles source hs
  · exact ((hs.fit hd).stateless_of_keys fun key hm => hplain key (hk key (hs.1.subset hm))).shallow

theorem flatMap_boxStateStyles {state : State} {slot : Option (Source Box)} {block : List Styles}
    {key : String} (h : theme.boxStateStyles refer state slot = .ok block)
    (hk : state.selector ≠ key) (path : List String) :
    (block.flatMap fun map => stateBlocks (blockAt map (key :: path))) = [] := by
  cases slot with
  | none =>
    rw [boxStateStyles] at h
    cases h
    rfl
  | some source =>
    rw [boxStateStyles] at h
    obtain ⟨inner, _, h⟩ := bind_eq_ok_iff.1 h
    cases h
    rw [List.flatMap_singleton, blockAt_cons_of_not_block (by simp [Table.find?, hk])]
    rfl

theorem State.selector_injective {s t : State} (h : s.selector = t.selector) : s = t := by
  revert h
  cases s <;> cases t <;> decide

section

variable {states : States (Source Box)} {order : List State} {blocks : List (List Styles)}
  (h : List.Forall₂
    (fun state block => theme.boxStateStyles refer state (states state) = .ok block) order blocks)

include h

theorem flatMap_blocks_of_not_mem {s : State} (hs : s ∉ order) (path : List String) :
    (blocks.reverse.flatten.flatMap
      fun map => stateBlocks (blockAt map (s.selector :: path))) = [] := by
  induction h with
  | nil => rfl
  | @cons t block order blocks hb _ ih =>
    have ht : t.selector ≠ s.selector := fun he => hs (by simp [State.selector_injective he])
    rw [List.reverse_cons, List.flatten_append, List.flatMap_append,
      ih fun hm => hs (List.mem_cons_of_mem t hm), List.flatten_singleton,
      flatMap_boxStateStyles hb ht]
    rfl

theorem flatMap_blocks_of_mem (hd : order.Nodup) {s : State} (hs : s ∈ order) :
    ∃ block, theme.boxStateStyles refer s (states s) = .ok block ∧ ∀ path,
      (blocks.reverse.flatten.flatMap fun map => stateBlocks (blockAt map (s.selector :: path))) =
        block.flatMap fun map => stateBlocks (blockAt map (s.selector :: path)) := by
  induction h with
  | nil => cases hs
  | @cons t block order blocks hb hrest ih =>
    obtain ⟨hnew, hd⟩ := List.nodup_cons.1 hd
    by_cases he : s = t
    · cases he
      refine ⟨block, hb, fun path => ?_⟩
      rw [List.reverse_cons, List.flatten_append, List.flatMap_append, List.flatten_singleton,
        flatMap_blocks_of_not_mem hrest hnew, List.nil_append]
    · obtain ⟨found, hf, heq⟩ := ih hd ((List.mem_cons.1 hs).resolve_left he)
      have ht : t.selector ≠ s.selector := fun hsel => he (State.selector_injective hsel).symm
      refine ⟨found, hf, fun path => ?_⟩
      rw [List.reverse_cons, List.flatten_append, List.flatMap_append, List.flatten_singleton,
        heq, flatMap_boxStateStyles hb ht, List.append_nil]

end

/-- Inside a state of a box come the states that the box declares there, and then those that it
inherits there. -/
theorem stateBlocks_of_boxStyles {slots : BoxSlots} {states : States (Source Box)}
    (hr : FitReferences refer) (h : theme.boxStyles refer (.mk slots states) = .ok styles)
    (s : State) : ∃ block inherited,
      theme.boxStateStyles refer s (states s) = .ok block ∧
      slotStyles (fun parent => return (← refer parent).getD []) slots.parent = .ok inherited ∧
      ∀ path, stateBlocks (blockAt styles (s.selector :: path)) =
        ((block.flatMap fun map => stateBlocks (blockAt map (s.selector :: path))) ++
          stateBlocks (blockAt inherited (s.selector :: path))).eraseDups := by
  obtain ⟨plain, blocks, hp, hb, rfl⟩ := boxStyles_eq_ok_iff.1 h
  have hplain := fit_of_plainStyles hr hp
  obtain ⟨inherited, own, hi, hown, rfl⟩ := plainStyles_eq_ok_iff.1 hp
  have hblocks : ∀ map ∈ blocks.reverse.flatten, Fit .rules map := by
    intro map hm
    obtain ⟨maps, hmaps, hm⟩ := List.mem_flatten.1 hm
    exact forall_of_mapM hb (fun state _ => fit_of_boxStateStyles hr (states state)) maps
      (List.mem_reverse.1 hmaps) map hm
  have hfit : ∀ map ∈ blocks.reverse.flatten ++ inherited :: own, Fit .rules map := fun map hm =>
    (List.mem_append.1 hm).elim (hblocks map) (hplain map)
  obtain ⟨block, hblock, hone⟩ := flatMap_blocks_of_mem (mapM_eq_ok_iff.1 hb) (by decide)
    (State.mem_boxOrder s)
  refine ⟨block, inherited, hblock, hi, fun path => ?_⟩
  have hrest : (own.flatMap fun map => stateBlocks (blockAt map (s.selector :: path))) = [] :=
    List.flatMap_eq_nil_iff.2 fun map hm =>
      (fromSlot_of_plainStyles hown map hm).shallow s.selector path
  rw [blockAt_cons_sorted (fit_iff.1 (Fit.mergeAll hfit)).1, stateBlocks_blockAt_mergeAll hfit,
    List.flatMap_append, List.flatMap_cons, hone, hrest, List.append_nil]

end Theme

end Theming
