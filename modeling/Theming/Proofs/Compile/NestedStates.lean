import Theming.Proofs.Compile.Lists
import Theming.Proofs.Compile.StateOrder

/-! States at every depth of the styles of a box. A source of boxes is followed down to the maps
that meet at a path. -/

namespace Theming.Theme

open Styles

mutual

/-- The composed maps whose tops meet at a path inside the styles of a source, in the order in
which they are merged there. -/
inductive Meet (theme : Theme) (context : BoxContext) :
    Trail → Source Box → List String → List Styles → Prop where
  | top {trail : Trail} {source : Source Box} {styles : Styles}
      (direct : ∀ text, source ≠ .reference text)
      (compiled : theme.sourceStyles (theme.namedBoxStyles context trail) source =
        .ok (some styles)) : Meet theme context trail source [] [styles]
  | missing {trail : Trail} {text : String} {path : List String}
      (nowhere : theme.boxTarget? context (referenceName text) = none) :
      Meet theme context trail (.reference text) path []
  | reference {trail : Trail} {text label : String} {source : Source Box} {path : List String}
      {maps : List Styles}
      (target : theme.boxTarget? context (referenceName text) = some (label, source))
      (inside : Meet theme context (trail ++ [label]) source path maps) :
      Meet theme context trail (.reference text) path maps
  | list {trail : Trail} {items : List (Source Box)} {key : String} {path : List String}
      {maps : List Styles} (inside : MeetEach theme context trail items (key :: path) maps) :
      Meet theme context trail (.list items) (key :: path) maps
  /-- What the box declares for a state comes before what it inherits for it. -/
  | state {trail : Trail} {slots : BoxSlots} {states : States (Source Box)} {s : State}
      {key : String} {path : List String} {own inherited : List Styles}
      (selector : s.selector = key)
      (inside : MeetEach theme context trail (states s).toList path own)
      (below : MeetEach theme context trail (slots.parent.toList.map .reference)
        (key :: path) inherited) :
      Meet theme context trail (.inline (.mk slots states)) (key :: path) (own ++ inherited)
  | other {trail : Trail} {box : Box} {key : String} {path : List String}
      (plain : isStateSelector key = false) :
      Meet theme context trail (.inline box) (key :: path) []

inductive MeetEach (theme : Theme) (context : BoxContext) :
    Trail → List (Source Box) → List String → List Styles → Prop where
  | nil {trail : Trail} {path : List String} : MeetEach theme context trail [] path []
  | cons {trail : Trail} {item : Source Box} {items : List (Source Box)} {path : List String}
      {maps others : List Styles} (first : Meet theme context trail item path maps)
      (rest : MeetEach theme context trail items path others) :
      MeetEach theme context trail (item :: items) path (maps ++ others)

end

variable {theme : Theme} {context : BoxContext} {trail : Trail} {styles : Styles}

mutual

theorem Meet.unique {trail : Trail} {source : Source Box} {path : List String}
    {maps others : List Styles} : theme.Meet context trail source path maps →
      theme.Meet context trail source path others → maps = others
  | .top direct compiled, h => by
    cases h with
    | top _ again =>
      cases compiled.symm.trans again
      rfl
    | missing => exact absurd rfl (direct _)
    | reference => exact absurd rfl (direct _)
  | .missing nowhere, h => by
    cases h with
    | top direct => exact absurd rfl (direct _)
    | missing => rfl
    | reference target =>
      rw [nowhere] at target
      cases target
  | .reference target inside, h => by
    cases h with
    | top direct => exact absurd rfl (direct _)
    | missing nowhere =>
      rw [nowhere] at target
      cases target
    | reference again others =>
      cases target.symm.trans again
      exact inside.unique others
  | .list inside, h => by
    cases h with
    | list others => exact inside.unique others
  | .state (s := s) selector inside below, h => by
    cases h with
    | @state _ _ _ t _ _ _ _ again others rest =>
      cases State.selector_injective (selector.trans again.symm)
      rw [inside.unique others, below.unique rest]
    | other plain =>
      rw [← selector, isStateSelector_selector] at plain
      cases plain
  | .other plain, h => by
    cases h with
    | state selector =>
      rw [← selector, isStateSelector_selector] at plain
      cases plain
    | other => rfl

theorem MeetEach.unique {trail : Trail} {items : List (Source Box)} {path : List String}
    {maps others : List Styles} : theme.MeetEach context trail items path maps →
      theme.MeetEach context trail items path others → maps = others
  | .nil, h => by
    cases h
    rfl
  | .cons first rest, h => by
    cases h with
    | cons again others => rw [first.unique again, rest.unique others]

end

/-- The keys are the states of the maps, each where it comes first, and none of the maps has them
out of order. -/
structure Joined (keys : List String) (maps : List Styles) : Prop where
  keys : keys.eraseDups = (maps.flatMap stateBlocks).eraseDups
  ascending : ∀ map ∈ maps, Ascending (stateBlocks map)

namespace Joined

theorem nil : Joined [] [] := ⟨rfl, by simp⟩

theorem append {a b : List String} {maps others : List Styles} (ha : Joined a maps)
    (hb : Joined b others) : Joined (a ++ b) (maps ++ others) := by
  refine ⟨?_, fun map hm => (List.mem_append.1 hm).elim (ha.ascending map) (hb.ascending map)⟩
  rw [List.flatMap_append]
  exact eraseDups_append_congr ha.keys hb.keys

theorem eraseDups {keys : List String} {maps : List Styles} (h : Joined keys maps) :
    Joined keys.eraseDups maps :=
  ⟨(eraseDups_of_nodup (nodup_eraseDups keys)).trans h.keys, h.ascending⟩

theorem top (styles : Styles) : Joined (stateBlocks styles.sorted) [styles.sorted] := by
  refine ⟨by rw [List.flatMap_singleton], fun map hm => ?_⟩
  rw [List.mem_singleton.1 hm]
  exact ascending_stateBlocks_sorted styles

end Joined

/-- At every path the states of what a source gives are those of the maps that meet there. -/
def Orders (theme : Theme) (context : BoxContext) (trail : Trail) (source : Source Box)
    (found : Option Styles) : Prop :=
  ∀ path, ∃ maps, theme.Meet context trail source path maps ∧
    Joined (stateBlocks (blockAt (found.getD []) path)) maps

theorem listStyles_eq_ok {refer : String → Except ThemeError (Option Styles)}
    {items : List (Source Box)} {merged : Styles}
    (h : theme.listStyles refer merged items = .ok styles) : ∃ founds,
      List.Forall₂ (fun item found => theme.sourceStyles refer item = .ok found) items founds ∧
      styles = (founds.map fun found => found.getD []).foldl Styles.merge merged := by
  induction items generalizing merged with
  | nil =>
    cases h
    exact ⟨[], .nil, rfl⟩
  | cons item rest ih =>
    rw [listStyles] at h
    obtain ⟨found, hf, h⟩ := bind_eq_ok_iff.1 h
    obtain ⟨founds, hs, rfl⟩ := ih h
    exact ⟨found :: founds, .cons hf hs, rfl⟩

theorem fit_of_founds {refer : String → Except ThemeError (Option Styles)}
    (hr : FitReferences refer) {items : List (Source Box)} {founds : List (Option Styles)}
    (h : List.Forall₂ (fun item found => theme.sourceStyles refer item = .ok found) items founds) :
    ∀ map ∈ founds.map fun found => found.getD [], Fit .rules map := by
  induction h with
  | nil => simp
  | @cons item found items founds hf _ ih =>
    refine List.forall_mem_cons.2 ⟨?_, ih⟩
    cases found with
    | none => exact .nil
    | some styles => exact fit_of_sourceStyles hr item hf

/-- Whatever a reference leads to has its states in order. -/
def OrderedReferences (theme : Theme) (context : BoxContext) (trail : Trail) : Prop :=
  ∀ text found, theme.namedBoxStyles context trail text = .ok found →
    theme.Orders context trail (.reference text) found

theorem joined_of_parent (hr : theme.OrderedReferences context trail) {parent : Option String}
    {inherited : Styles}
    (h : slotStyles (fun parent => return (← theme.namedBoxStyles context trail parent).getD [])
      parent = .ok inherited) (path : List String) : ∃ maps,
      theme.MeetEach context trail (parent.toList.map .reference) path maps ∧
        Joined (stateBlocks (blockAt inherited path)) maps := by
  cases parent with
  | none =>
    cases h
    exact ⟨[], .nil, by rw [blockAt_empty]; exact .nil⟩
  | some text =>
    obtain ⟨found, hf, h⟩ := bind_eq_ok_iff.1 h
    cases h
    obtain ⟨maps, hm, hj⟩ := hr text found hf path
    exact ⟨maps ++ [], .cons hm .nil, by rw [List.append_nil]; exact hj⟩

mutual

theorem orders_of_sourceStyles (hr : theme.OrderedReferences context trail) :
    (source : Source Box) → {found : Option Styles} →
    theme.sourceStyles (theme.namedBoxStyles context trail) source = .ok found →
    theme.Orders context trail source found
  | .reference text, found, h => hr text found (by rwa [sourceStyles] at h)
  | .list items, found, h => by
    have hcompiled := h
    rw [sourceStyles] at h
    obtain ⟨merged, hm, h⟩ := bind_eq_ok_iff.1 h
    cases h
    obtain ⟨founds, hfounds, rfl⟩ := listStyles_eq_ok hm
    have hfit := fit_of_founds (fit_of_namedBoxStyles trail) hfounds
    intro path
    cases path with
    | nil => exact ⟨_, .top nofun hcompiled, .top _⟩
    | cons key path =>
      obtain ⟨maps, hmaps, hj⟩ := joined_of_items hr items hfounds (key :: path)
      refine ⟨maps, .list hmaps, ?_⟩
      change Joined (stateBlocks (blockAt (sorted (mergeAll (founds.map _))) _)) maps
      rw [blockAt_cons_sorted (fit_iff.1 (Fit.mergeAll hfit)).1, stateBlocks_blockAt_mergeAll hfit,
        List.flatMap_map]
      exact hj.eraseDups
  | .inline box, found, h => by
    rw [sourceStyles] at h
    obtain ⟨styles, hs, h⟩ := bind_eq_ok_iff.1 h
    cases h
    exact orders_of_box hr box hs
termination_by structural source => source

theorem joined_of_items (hr : theme.OrderedReferences context trail) :
    (items : List (Source Box)) → {founds : List (Option Styles)} →
    List.Forall₂ (fun item found => theme.sourceStyles (theme.namedBoxStyles context trail) item =
      .ok found) items founds → ∀ path, ∃ maps, theme.MeetEach context trail items path maps ∧
    Joined (founds.flatMap fun found => stateBlocks (blockAt (found.getD []) path)) maps
  | [], _, .nil, path => ⟨[], .nil, .nil⟩
  | item :: rest, _, .cons first others, path => by
    obtain ⟨maps, hm, hj⟩ := orders_of_sourceStyles hr item first path
    obtain ⟨later, hl, hk⟩ := joined_of_items hr rest others path
    exact ⟨maps ++ later, .cons hm hl, hj.append hk⟩
termination_by structural items => items

theorem joined_of_slot (hr : theme.OrderedReferences context trail) :
    (slot : Option (Source Box)) → {s : State} → {block : List Styles} →
    theme.boxStateStyles (theme.namedBoxStyles context trail) s slot = .ok block →
    ∀ path, ∃ maps, theme.MeetEach context trail slot.toList path maps ∧
      Joined (block.flatMap fun map => stateBlocks (blockAt map (s.selector :: path))) maps
  | none, _, _, h, path => by
    cases h
    exact ⟨[], .nil, .nil⟩
  | some source, s, _, h, path => by
    rw [boxStateStyles] at h
    obtain ⟨found, hf, h⟩ := bind_eq_ok_iff.1 h
    cases h
    obtain ⟨maps, hm, hj⟩ := orders_of_sourceStyles hr source hf path
    refine ⟨maps ++ [], .cons hm .nil, ?_⟩
    have hblock : Table.find? [(s.selector, Style.block (found.getD []))] s.selector =
        some (.block (found.getD [])) := by simp [Table.find?]
    rw [List.flatMap_singleton, blockAt_cons_of_block hblock, List.append_nil]
    exact hj
termination_by structural slot => slot

theorem orders_of_box (hr : theme.OrderedReferences context trail) :
    (box : Box) → {styles : Styles} →
    theme.boxStyles (theme.namedBoxStyles context trail) box = .ok styles →
    theme.Orders context trail (.inline box) (some styles)
  | .mk slots states, styles, h => by
    have hcompiled : theme.sourceStyles (theme.namedBoxStyles context trail)
        (.inline (.mk slots states)) = .ok (some styles) := by
      rw [sourceStyles, h]
      rfl
    intro path
    cases path with
    | nil =>
      obtain ⟨_, _, _, _, rfl⟩ := boxStyles_eq_ok_iff.1 h
      exact ⟨_, .top nofun hcompiled, .top _⟩
    | cons key path =>
      by_cases hk : isStateSelector key = true
      · obtain ⟨s, rfl⟩ := exists_state_of_isStateSelector hk
        obtain ⟨block, inherited, hblock, hi, heq⟩ :=
          stateBlocks_of_boxStyles (fit_of_namedBoxStyles trail) h s
        obtain ⟨own, howns, hown⟩ := joined_of_slot hr (states s) hblock path
        obtain ⟨below, hbelow, hinherited⟩ := joined_of_parent hr hi (s.selector :: path)
        refine ⟨own ++ below, .state rfl howns hbelow, ?_⟩
        rw [Option.getD_some, heq path]
        exact (hown.append hinherited).eraseDups
      · have hnone : isStateSelector key = false := by simpa using hk
        have hfit : Fit .rules styles := fit_of_boxStyles (fit_of_namedBoxStyles trail) _ h
        refine ⟨[], .other hnone, ?_⟩
        rw [Option.getD_some, hfit.stateBlocks_blockAt_cons hnone]
        exact .nil
termination_by structural box => box

end

theorem orderedReferences (theme : Theme) (context : BoxContext) (trail : Trail) :
    theme.OrderedReferences context trail := by
  intro text found h
  fun_induction namedBoxStyles theme context trail text generalizing found
  case case1 trail text nowhere =>
    cases h
    intro path
    refine ⟨[], .missing nowhere, ?_⟩
    rw [Option.getD_none, blockAt_empty]
    exact .nil
  case case2 => cases h
  case case3 trail text label source target seen ih =>
    intro path
    obtain ⟨maps, hm, hj⟩ := orders_of_sourceStyles (fun next found => ih next found) source h path
    exact ⟨maps, .reference target hm, hj⟩

theorem ascending_of_sourceStyles {refer : String → Except ThemeError (Option Styles)}
    (hr : ∀ text styles, refer text = .ok (some styles) → Ascending (stateBlocks styles))
    (source : Source Box) (h : theme.sourceStyles refer source = .ok (some styles)) :
    Ascending (stateBlocks styles) := by
  cases source with
  | reference text => exact hr text styles (by rwa [sourceStyles] at h)
  | list items =>
    rw [sourceStyles] at h
    obtain ⟨merged, _, h⟩ := bind_eq_ok_iff.1 h
    cases h
    exact ascending_stateBlocks_sorted merged
  | inline box =>
    obtain ⟨slots, states⟩ := box
    rw [sourceStyles] at h
    obtain ⟨composed, hc, h⟩ := bind_eq_ok_iff.1 h
    obtain ⟨_, _, _, _, rfl⟩ := boxStyles_eq_ok_iff.1 hc
    cases h
    exact ascending_stateBlocks_sorted _

theorem ascending_of_namedBoxStyles (theme : Theme) (context : BoxContext) (trail : Trail)
    (text : String) (styles : Styles)
    (h : theme.namedBoxStyles context trail text = .ok (some styles)) :
    Ascending (stateBlocks styles) := by
  fun_induction namedBoxStyles theme context trail text generalizing styles
  case case1 => cases h
  case case2 => cases h
  case case3 trail text label source target seen ih =>
    exact ascending_of_sourceStyles (fun next inner => ih next inner) source h

/-- When no two of the maps have states, their order is that of the one that has. -/
theorem ascending_flatMap {maps : List Styles}
    (hmaps : ∀ map ∈ maps, Ascending (stateBlocks map))
    (hone : maps.Pairwise fun a b => stateBlocks a = [] ∨ stateBlocks b = []) :
    Ascending (maps.flatMap stateBlocks) := by
  unfold Ascending
  rw [List.pairwise_flatMap]
  refine ⟨hmaps, hone.imp ?_⟩
  rintro a b (h | h) x hx y hy
  · rw [h] at hx
    cases hx
  · rw [h] at hy
    cases hy

/-- The states of a box are in cascade order. Inside a state they stand where the maps that meet
there have them first, so that they are in cascade order when all come from one of the maps. -/
theorem states_in_cascade_order (theme : Theme) (context : BoxContext) (source : Source Box)
    (h : theme.boxCss context source = .ok (some styles)) :
    Ascending (stateBlocks styles) ∧ ∀ path, ∃ maps,
      (∀ others, theme.Meet context [] source path others ↔ others = maps) ∧
      stateBlocks (blockAt styles path) = (maps.flatMap stateBlocks).eraseDups ∧
      (∀ map ∈ maps, Ascending (stateBlocks map)) ∧
      (maps.Pairwise (fun a b => stateBlocks a = [] ∨ stateBlocks b = []) →
        Ascending (stateBlocks (blockAt styles path))) := by
  rw [boxCss] at h
  have htop : Ascending (stateBlocks styles) :=
    ascending_of_sourceStyles (ascending_of_namedBoxStyles theme context []) source h
  have hfit : Fit .rules styles := fit_of_sourceStyles (fit_of_namedBoxStyles []) source h
  refine ⟨htop, fun path => ?_⟩
  obtain ⟨maps, hm, hj⟩ := orders_of_sourceStyles (orderedReferences theme context []) source h path
  have honly (others : List Styles) :
      theme.Meet context [] source path others ↔ others = maps := by
    constructor
    · exact fun ho => ho.unique hm
    · rintro rfl
      exact hm
  have hkeys : stateBlocks (blockAt styles path) = (maps.flatMap stateBlocks).eraseDups :=
    (eraseDups_of_nodup (hfit.blockAt path).nodup_stateBlocks).symm.trans hj.keys
  refine ⟨maps, honly, hkeys, hj.ascending, fun hone => ?_⟩
  rw [hkeys]
  exact (ascending_flatMap hj.ascending hone).sublist (eraseDups_sublist _)

def padded : Box := .mk { BoxSlots.record.blank with padding := some (.number (.integer 1)) }
  fun _ => none

def hovered (inside : List State) : Box :=
  .mk BoxSlots.record.blank (States.put (fun _ => none) .hover (some (.inline
    (.mk BoxSlots.record.blank fun s => if s ∈ inside then some (.inline padded) else none))))

theorem hovered_states_in_cascade_order : ∃ styles,
    Theme.record.blank.boxCss .global (.inline (hovered [.disabled, .active])) =
        .ok (some styles) ∧
      stateBlocks (blockAt styles [State.hover.selector]) =
        [State.active.selector, State.disabled.selector] ∧
      Ascending (stateBlocks (blockAt styles [State.hover.selector])) := by
  have hstyles : Theme.record.blank.boxCss .global (.inline (hovered [.disabled, .active])) =
      .ok (some [(State.hover.selector, .block
        [(State.active.selector, .block [("padding", .declaration "1")]),
          (State.disabled.selector, .block [("padding", .declaration "1")])])]) := by
    rfl
  obtain ⟨maps, honly, _, _, hone⟩ :=
    (states_in_cascade_order _ _ _ hstyles).2 [State.hover.selector]
  have hmaps : _ = maps :=
    (honly _).1 (.state (s := .hover) rfl (.cons (.top nofun rfl) .nil) .nil)
  refine ⟨_, hstyles, rfl, hone ?_⟩
  rw [← hmaps]
  exact List.pairwise_singleton _ _

/-- The second box of the list declares the state that comes first in the cascade. -/
theorem hovered_states_merged_as_listed : ∃ styles,
    Theme.record.blank.boxCss .global
        (.list [.inline (hovered [.disabled]), .inline (hovered [.active])]) = .ok (some styles) ∧
      stateBlocks (blockAt styles [State.hover.selector]) =
        [State.disabled.selector, State.active.selector] ∧
      ¬ Ascending (stateBlocks (blockAt styles [State.hover.selector])) := by
  refine ⟨[(State.hover.selector, .block
    [(State.disabled.selector, .block [("padding", .declaration "1")]),
      (State.active.selector, .block [("padding", .declaration "1")])])], rfl, rfl, ?_⟩
  decide +kernel

end Theming.Theme
