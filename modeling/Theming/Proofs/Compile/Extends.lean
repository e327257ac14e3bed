import Theming.Proofs.Compile.Boxes

/-! Boxes that extend others. At every path a box has what its own plain state declares, then what
it inherits, and only then what the blocks of its own states declare. A list of the inherited box
and the rest of the box differs from that where a state of both declares the same. -/

namespace Theming

namespace Box

def withoutParent : Box → Box
  | mk slots states => mk { slots with parent := none } states

/-- Only what a box declares for its plain state itself. -/
def plainOnly : Box → Box
  | mk slots _ => mk { slots with parent := none } fun _ => none

def statesOnly : Box → Box
  | mk _ states => mk BoxSlots.record.blank states

end Box

namespace Theme

open Styles

variable {theme : Theme} {refer : String → Except ThemeError (Option Styles)}

theorem mergeAll_append (a b : List Styles) : mergeAll (a ++ b) = b.foldl merge (mergeAll a) := by
  simp [mergeAll, List.foldl_append]

theorem mergeAll_append_blank (maps : List Styles) (n : Nat) :
    mergeAll (maps ++ List.replicate n []) = mergeAll maps := by
  rw [mergeAll_append]
  generalize mergeAll maps = base
  induction n with
  | zero => rfl
  | succ n ih => simpa [List.replicate_succ, merge] using ih

theorem plainStyles_blank :
    theme.plainStyles refer BoxSlots.record.blank = .ok (List.replicate 10 []) := rfl

theorem stateBlocks_none (order : List State) :
    order.mapM (fun state => theme.boxStateStyles refer state none) =
      .ok (List.replicate order.length []) := by
  refine mapM_eq_ok_iff.2 ?_
  induction order with
  | nil => exact .nil
  | cons state rest ih => exact .cons (by rw [boxStateStyles]) ih

theorem exists_layers {slots : BoxSlots} {states : States (Source Box)} {parent : String}
    {inherited own : Styles} (hr : FitReferences refer) (hp : slots.parent = some parent)
    (hi : refer parent = .ok (some inherited))
    (ho : theme.boxStyles refer (.mk { slots with parent := none } states) = .ok own) :
    ∃ blocks plain, (∀ map ∈ blocks, Fit .rules map) ∧ (∀ map ∈ plain, Fit .rules map) ∧
      own = Styles.sorted (mergeAll (blocks ++ plain)) ∧
      theme.boxStyles refer (.mk slots states) =
        .ok (Styles.sorted (mergeAll (blocks ++ inherited :: plain))) ∧
      theme.boxStyles refer (Box.mk slots states).plainOnly =
        .ok (Styles.sorted (mergeAll plain)) ∧
      theme.boxStyles refer (Box.mk slots states).statesOnly =
        .ok (Styles.sorted (mergeAll blocks)) := by
  obtain ⟨_, blocks, hplain, hblocks, rfl⟩ := boxStyles_eq_ok_iff.1 ho
  obtain ⟨none, plain, hnone, hrest, rfl⟩ := plainStyles_eq_ok_iff.1 hplain
  cases hnone
  refine ⟨blocks.reverse.flatten, plain, fun map hm => ?_,
    (List.forall_mem_cons.1 (fit_of_plainStyles hr hplain)).2, ?_, ?_, ?_, ?_⟩
  · obtain ⟨maps, hmaps, hm⟩ := List.mem_flatten.1 hm
    exact forall_of_mapM hblocks (fun state _ => fit_of_boxStateStyles hr (states state)) maps
      (List.mem_reverse.1 hmaps) map hm
  · simp [mergeAll_append, merge]
  · refine boxStyles_eq_ok_iff.2 ⟨inherited :: plain, blocks, ?_, hblocks, rfl⟩
    refine plainStyles_eq_ok_iff.2 ⟨inherited, plain, ?_, hrest, rfl⟩
    rw [hp, slotStyles, hi]
    rfl
  · refine boxStyles_eq_ok_iff.2 ⟨[] :: plain, _, hplain, stateBlocks_none _, ?_⟩
    simp [mergeAll, merge]
  · refine boxStyles_eq_ok_iff.2 ⟨_, blocks, plainStyles_blank, hblocks, ?_⟩
    rw [mergeAll_append_blank]

theorem textAt?_layers {below above : List Styles} (hb : ∀ map ∈ below, Fit .rules map)
    (ha : ∀ map ∈ above, Fit .rules map) (path : List String) :
    (Styles.sorted (mergeAll (below ++ above))).textAt? path =
      ((Styles.sorted (mergeAll above)).textAt? path).or
        ((Styles.sorted (mergeAll below)).textAt? path) := by
  have hall : ∀ map ∈ below ++ above, Fit .rules map :=
    fun map hm => (List.mem_append.1 hm).elim (hb map) (ha map)
  rw [(Fit.mergeAll hall).textAt?_sorted, (Fit.mergeAll ha).textAt?_sorted,
    (Fit.mergeAll hb).textAt?_sorted, mergeAll_append, (Fit.mergeAll hb).textAt?_foldl_merge ha]

theorem textAt?_mergeAll_singleton {styles : Styles} (h : Fit .rules styles) (path : List String) :
    (Styles.sorted (mergeAll [styles])).textAt? path = styles.textAt? path := by
  have hnone : textAt? [] path = none := by cases path <;> rfl
  have hm : Fit .rules (mergeAll [styles]) := Fit.nil.merge h
  rw [hm.textAt?_sorted]
  simp [mergeAll, Fit.nil.textAt?_merge h, hnone]

theorem sourceStyles_inline_eq_ok_iff {box : Box} {styles : Styles} :
    theme.sourceStyles refer (.inline box) = .ok (some styles) ↔
      theme.boxStyles refer box = .ok styles := by
  rw [sourceStyles, bind_eq_ok_iff]
  constructor
  · rintro ⟨_, hb, h⟩
    cases h
    exact hb
  · exact fun hb => ⟨styles, hb, rfl⟩

theorem sourceStyles_pair {a b : Source Box} {first second : Styles}
    (ha : theme.sourceStyles refer a = .ok (some first))
    (hb : theme.sourceStyles refer b = .ok (some second)) :
    theme.sourceStyles refer (.list [a, b]) =
      .ok (some (Styles.sorted (mergeAll ([first] ++ [second])))) := by
  simp only [sourceStyles, listStyles, ha, hb]
  rfl

/-- Two layers may change places below a third one where they agree. -/
theorem or_swap_iff (top a b : Option String) :
    top.or (a.or b) = (top.or b).or a ↔ ∀ x y, a = some x → b = some y → top = none → x = y := by
  cases top <;> cases a <;> cases b <;> simp

/-- In which order the layers of a box win. The box agrees with its inherited box and its own rest
laid over it unless a state of both declares different texts and the plain state none. -/
theorem extended_box_layers {theme : Theme} {context : BoxContext} {trail : Trail} {box : Box}
    {parent : String} {inherited own : Styles} (hp : box.slots.parent = some parent)
    (hi : theme.sourceStyles (theme.namedBoxStyles context trail) (.reference parent) =
      .ok (some inherited))
    (ho : theme.sourceStyles (theme.namedBoxStyles context trail) (.inline box.withoutParent) =
      .ok (some own)) :
    ∃ composed listed plain reactive,
      theme.sourceStyles (theme.namedBoxStyles context trail) (.inline box) =
        .ok (some composed) ∧
      theme.sourceStyles (theme.namedBoxStyles context trail)
        (.list [.reference parent, .inline box.withoutParent]) = .ok (some listed) ∧
      theme.sourceStyles (theme.namedBoxStyles context trail) (.inline box.plainOnly) =
        .ok (some plain) ∧
      theme.sourceStyles (theme.namedBoxStyles context trail) (.inline box.statesOnly) =
        .ok (some reactive) ∧
      ∀ path,
        listed.textAt? path = (own.textAt? path).or (inherited.textAt? path) ∧
        composed.textAt? path =
          (plain.textAt? path).or ((inherited.textAt? path).or (reactive.textAt? path)) ∧
        (composed.textAt? path = (own.textAt? path).or (inherited.textAt? path) ↔
          ∀ a b, inherited.textAt? path = some a → reactive.textAt? path = some b →
            plain.textAt? path = none → a = b) := by
  have hr : FitReferences (theme.namedBoxStyles context trail) := fit_of_namedBoxStyles trail
  have hfi : Fit .rules inherited := fit_of_sourceStyles hr _ hi
  have hfo : Fit .rules own := fit_of_sourceStyles hr _ ho
  obtain ⟨slots, states⟩ := box
  obtain ⟨blocks, plain, hb, hpl, hown, hcomposed, hplain, hreactive⟩ := exists_layers hr hp
    (by rwa [sourceStyles] at hi) (sourceStyles_inline_eq_ok_iff.1 ho)
  refine ⟨_, _, _, _, sourceStyles_inline_eq_ok_iff.2 hcomposed, sourceStyles_pair hi ho,
    sourceStyles_inline_eq_ok_iff.2 hplain, sourceStyles_inline_eq_ok_iff.2 hreactive,
    fun path => ?_⟩
  have hpair := textAt?_layers (List.forall_mem_singleton.2 hfi) (List.forall_mem_singleton.2 hfo)
    path
  rw [textAt?_mergeAll_singleton hfi, textAt?_mergeAll_singleton hfo] at hpair
  have habove := textAt?_layers (List.forall_mem_singleton.2 hfi) hpl path
  rw [textAt?_mergeAll_singleton hfi, List.singleton_append] at habove
  have hlayers := textAt?_layers hb (List.forall_mem_cons.2 ⟨hfi, hpl⟩) path
  rw [habove, Option.or_assoc] at hlayers
  -- The blocks of the states lie below what is inherited here, and above it in the list.
  refine ⟨hpair, hlayers, ?_⟩
  rw [hlayers, hown, textAt?_layers hb hpl path]
  exact or_swap_iff _ _ _

def hoverBox (parent : Option String) (padding : Int) : Box :=
  .mk { BoxSlots.record.blank with parent := parent } (States.put (fun _ => none) .hover
    (some (.inline (.mk { BoxSlots.record.blank with padding := some (.number (.integer padding)) }
      fun _ => none))))

def cardTheme : Theme :=
  ⟨"Cards", .text "1", none, .null, ⟨[], [], [], [("card", hoverBox none 2)]⟩, [], .null, none⟩

/-- A box that declares a state which its inherited box declares too does not win there. -/
theorem inherited_hover_wins :
    (hoverBox (some "card") 1).slots.parent = some "card" ∧
    cardTheme.sourceStyles (cardTheme.namedBoxStyles .global []) (.reference "card") =
      .ok (some [("&:hover", .block [("padding", .declaration "2")])]) ∧
    cardTheme.sourceStyles (cardTheme.namedBoxStyles .global [])
        (.inline (hoverBox (some "card") 1).withoutParent) =
      .ok (some [("&:hover", .block [("padding", .declaration "1")])]) ∧
    ∃ composed listed,
      cardTheme.sourceStyles (cardTheme.namedBoxStyles .global [])
          (.inline (hoverBox (some "card") 1)) = .ok (some composed) ∧
      cardTheme.sourceStyles (cardTheme.namedBoxStyles .global [])
          (.list [.reference "card", .inline (hoverBox (some "card") 1).withoutParent]) =
        .ok (some listed) ∧
      composed.textAt? ["&:hover", "padding"] = some "2" ∧
      listed.textAt? ["&:hover", "padding"] = some "1" := by
  have hp : (hoverBox (some "card") 1).slots.parent = some "card" := rfl
  have hi : cardTheme.sourceStyles (cardTheme.namedBoxStyles .global []) (.reference "card") =
      .ok (some [("&:hover", .block [("padding", .declaration "2")])]) := by
    rw [sourceStyles, namedBoxStyles]
    rfl
  have ho : cardTheme.sourceStyles (cardTheme.namedBoxStyles .global [])
      (.inline (hoverBox (some "card") 1).withoutParent) =
      .ok (some [("&:hover", .block [("padding", .declaration "1")])]) := rfl
  obtain ⟨composed, listed, plain, reactive, hcomposed, hlisted, hplain, _, h⟩ :=
    extended_box_layers hp hi ho
  have hempty : plain = [] := by
    have hv : cardTheme.sourceStyles (cardTheme.namedBoxStyles .global [])
        (.inline (hoverBox (some "card") 1).plainOnly) = .ok (some []) := rfl
    simpa using hplain.symm.trans hv
  obtain ⟨hl, hc, _⟩ := h ["&:hover", "padding"]
  rw [hempty] at hc
  exact ⟨hp, hi, ho, composed, listed, hcomposed, hlisted, hc, hl⟩

end Theme

end Theming
