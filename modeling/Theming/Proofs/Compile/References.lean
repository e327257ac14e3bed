import Theming.Proofs.Compile.Boxes
import Theming.Proofs.Compile.Failures
import Theming.Proofs.Refinement

/-! The references of boxes. What a source of boxes gives depends only on what the references in it
give: it fails if one of them does, and stays the same if they do. -/

namespace Theming

/-- A source refers to something: it is the reference, or has it in a list, in the box of a state,
or as the box that it extends. -/
inductive Mentions : Source Box → String → Prop where
  | reference (text : String) : Mentions (.reference text) text
  | item {items : List (Source Box)} {item : Source Box} {text : String} (mem : item ∈ items)
      (inner : Mentions item text) : Mentions (.list items) text
  | parent {slots : BoxSlots} {states : States (Source Box)} {text : String}
      (extended : slots.parent = some text) : Mentions (.inline (.mk slots states)) text
  | state {slots : BoxSlots} {states : States (Source Box)} {state : State} {source : Source Box}
      {text : String} (declared : states state = some source) (inner : Mentions source text) :
      Mentions (.inline (.mk slots states)) text

namespace Theme

open Styles

variable {theme : Theme} {refer refer' : String → Except ThemeError (Option Styles)}

theorem item_ok_of_listStyles {items : List (Source Box)} {merged styles : Styles}
    (h : theme.listStyles refer merged items = .ok styles) :
    ∀ item ∈ items, ∃ found, theme.sourceStyles refer item = .ok found := by
  induction items generalizing merged with
  | nil => simp
  | cons item rest ih =>
    rw [listStyles] at h
    obtain ⟨found, hf, h⟩ := bind_eq_ok_iff.1 h
    exact List.forall_mem_cons.2 ⟨⟨found, hf⟩, ih h⟩

theorem inherited_eq_ok {slots : BoxSlots} {parent : String} {inherited : Styles}
    (hp : slots.parent = some parent)
    (h : slotStyles (fun parent => return (← refer parent).getD []) slots.parent = .ok inherited) :
    ∃ found, refer parent = .ok found := by
  rw [hp] at h
  obtain ⟨found, hf, _⟩ := bind_eq_ok_iff.1 h
  exact ⟨found, hf⟩

theorem refer_ok_of_mentions {source : Source Box} {text : String} (h : Mentions source text) :
    ∀ {found}, theme.sourceStyles refer source = .ok found → ∃ found, refer text = .ok found := by
  induction h with
  | reference text =>
    intro found hs
    exact ⟨found, by rwa [sourceStyles] at hs⟩
  | item mem _ ih =>
    intro found hs
    rw [sourceStyles] at hs
    obtain ⟨merged, hm, _⟩ := bind_eq_ok_iff.1 hs
    obtain ⟨inner, hi⟩ := item_ok_of_listStyles hm _ mem
    exact ih hi
  | parent extended =>
    intro found hs
    rw [sourceStyles] at hs
    obtain ⟨styles, hb, _⟩ := bind_eq_ok_iff.1 hs
    obtain ⟨plain, _, hp, _, _⟩ := boxStyles_eq_ok_iff.1 hb
    obtain ⟨inherited, _, hi, _, _⟩ := plainStyles_eq_ok_iff.1 hp
    exact inherited_eq_ok extended hi
  | @state slots states state source text declared _ ih =>
    intro found hs
    rw [sourceStyles] at hs
    obtain ⟨styles, hb, _⟩ := bind_eq_ok_iff.1 hs
    obtain ⟨_, blocks, _, hm, _⟩ := boxStyles_eq_ok_iff.1 hb
    obtain ⟨maps, hmaps⟩ := ok_of_mapM hm state state.mem_boxOrder
    rw [declared, boxStateStyles] at hmaps
    obtain ⟨inner, hi, _⟩ := bind_eq_ok_iff.1 hmaps
    exact ih hi

theorem sourceStyles_of_parent_error {slots : BoxSlots} {states : States (Source Box)}
    {parent : String} {error : ThemeError} (hp : slots.parent = some parent)
    (h : refer parent = .error error) :
    theme.sourceStyles refer (.inline (.mk slots states)) = .error error := by
  have hinherited : slotStyles (fun parent => return (← refer parent).getD []) slots.parent =
      .error error := by
    simp only [hp, slotStyles, h]
    rfl
  have hplain : theme.plainStyles refer slots = .error error := by
    rw [plainStyles, hinherited]
    rfl
  rw [sourceStyles, boxStyles, hplain]
  rfl

section

variable {P : ThemeError → Prop}

theorem failsIn_plainStyles (h : CoversSets P) {slots : BoxSlots}
    (hr : ∀ parent, slots.parent = some parent → FailsIn P (refer parent)) :
    FailsIn P (theme.plainStyles refer slots) := by
  have hset {kind : SetKind} (slot : Option (Source (StyleSet kind))) :
      FailsIn P (slotStyles theme.setStyles slot) :=
    failsIn_slotStyles fun source _ => failsIn_setStyles h source
  have hpseudo (selector : String) (slot : Option PseudoElement) :
      FailsIn P (slotStyles (fun element => do
        return [(selector, .block (← theme.pseudoElementStyles element))]) slot) :=
    failsIn_slotStyles fun element _ => (h.pseudoElementStyles element).bind fun _ => .ok _
  have hinherited : FailsIn P
      (slotStyles (fun parent => return (← refer parent).getD []) slots.parent) :=
    failsIn_slotStyles fun parent hp => (hr parent hp).bind fun _ => .ok _
  exact hinherited.bind fun _ => (h.declared _ _).bind fun _ => (hset _).bind fun _ =>
    (hset _).bind fun _ => (h.declared _ _).bind fun _ => (hset _).bind fun _ =>
    (h.declared _ _).bind fun _ => (h.declared _ _).bind fun _ => (hpseudo _ _).bind fun _ =>
    (hpseudo _ _).bind fun _ => .ok _

mutual

/-- A source fails with an error of its sets and values, or with one of those it refers to. -/
theorem failsIn_sourceStyles (h : CoversSets P) :
    (source : Source Box) → (∀ text, Mentions source text → FailsIn P (refer text)) →
    FailsIn P (theme.sourceStyles refer source)
  | .reference text, hr => by
    rw [sourceStyles]
    exact hr text (.reference text)
  | .inline box, hr => by
    rw [sourceStyles]
    exact (failsIn_boxStyles h box hr).bind fun _ => .ok _
  | .list items, hr => by
    rw [sourceStyles]
    exact (failsIn_listStyles h items [] fun item hi text ht => hr text (.item hi ht)).bind
      fun _ => .ok _
termination_by structural source => source

theorem failsIn_listStyles (h : CoversSets P) :
    (items : List (Source Box)) → (merged : Styles) →
    (∀ item ∈ items, ∀ text, Mentions item text → FailsIn P (refer text)) →
    FailsIn P (theme.listStyles refer merged items)
  | [], merged, _ => .ok merged
  | item :: rest, merged, hr => by
    have hall := List.forall_mem_cons.1 hr
    rw [listStyles]
    exact (failsIn_sourceStyles h item hall.1).bind
      fun _ => failsIn_listStyles h rest _ hall.2
termination_by structural items => items

theorem failsIn_boxStateStyles (h : CoversSets P) :
    (slot : Option (Source Box)) → (state : State) →
    (∀ source ∈ slot, ∀ text, Mentions source text → FailsIn P (refer text)) →
    FailsIn P (theme.boxStateStyles refer state slot)
  | none, _, _ => .ok []
  | some source, _, hr => by
    rw [boxStateStyles]
    exact (failsIn_sourceStyles h source (hr source rfl)).bind fun _ => .ok _
termination_by structural slot => slot

theorem failsIn_boxStyles (h : CoversSets P) :
    (box : Box) → (∀ text, Mentions (.inline box) text → FailsIn P (refer text)) →
    FailsIn P (theme.boxStyles refer box)
  | .mk slots states, hr => by
    have hplain : FailsIn P (theme.plainStyles refer slots) :=
      failsIn_plainStyles h fun parent hp => hr parent (.parent hp)
    have hstate (state : State) : FailsIn P (theme.boxStateStyles refer state (states state)) :=
      failsIn_boxStateStyles h (states state) state
        fun source hd text ht => hr text (.state hd ht)
    rw [boxStyles]
    exact hplain.bind fun _ =>
      (FailsIn.foldlM fun _ state _ => (hstate state).bind fun _ => .ok _).bind fun _ => .ok _
termination_by structural box => box

end

end

/-- Reading the slots of a box, only the box that it extends is referred to. -/
theorem plainStyles_refinedBy {slots : BoxSlots}
    (hr : ∀ parent, slots.parent = some parent → RefinedBy (refer parent) (refer' parent)) :
    RefinedBy (theme.plainStyles refer slots) (theme.plainStyles refer' slots) := by
  have hinherited : RefinedBy
      (slotStyles (fun parent => return (← refer parent).getD []) slots.parent)
      (slotStyles (fun parent => return (← refer' parent).getD []) slots.parent) := by
    cases hp : slots.parent with
    | none => exact .refl _
    | some parent => exact (hr parent hp).bind fun _ => .refl _
  exact hinherited.bind fun _ => .refl _

mutual

/-- A source has the same styles if what it refers to has. -/
theorem sourceStyles_refinedBy : (source : Source Box) →
    (∀ text, Mentions source text → RefinedBy (refer text) (refer' text)) →
    RefinedBy (theme.sourceStyles refer source) (theme.sourceStyles refer' source)
  | .reference text, hr => by
    rw [sourceStyles, sourceStyles]
    exact hr text (.reference text)
  | .inline box, hr => by
    rw [sourceStyles, sourceStyles]
    exact (boxStyles_refinedBy box hr).bind fun _ => .refl _
  | .list items, hr => by
    rw [sourceStyles, sourceStyles]
    exact (listStyles_refinedBy items [] fun item hi text ht => hr text (.item hi ht)).bind
      fun _ => .refl _
termination_by structural source => source

theorem listStyles_refinedBy : (items : List (Source Box)) → (merged : Styles) →
    (∀ item ∈ items, ∀ text, Mentions item text → RefinedBy (refer text) (refer' text)) →
    RefinedBy (theme.listStyles refer merged items) (theme.listStyles refer' merged items)
  | [], merged, _ => .refl _
  | item :: rest, merged, hr => by
    have hall := List.forall_mem_cons.1 hr
    rw [listStyles, listStyles]
    exact (sourceStyles_refinedBy item hall.1).bind fun _ => listStyles_refinedBy rest _ hall.2
termination_by structural items => items

theorem boxStateStyles_refinedBy : (slot : Option (Source Box)) → (state : State) →
    (∀ source ∈ slot, ∀ text, Mentions source text → RefinedBy (refer text) (refer' text)) →
    RefinedBy (theme.boxStateStyles refer state slot) (theme.boxStateStyles refer' state slot)
  | none, _, _ => .refl _
  | some source, _, hr => by
    rw [boxStateStyles, boxStateStyles]
    exact (sourceStyles_refinedBy source (hr source rfl)).bind fun _ => .refl _
termination_by structural slot => slot

theorem boxStyles_refinedBy : (box : Box) →
    (∀ text, Mentions (.inline box) text → RefinedBy (refer text) (refer' text)) →
    RefinedBy (theme.boxStyles refer box) (theme.boxStyles refer' box)
  | .mk slots states, hr => by
    have hplain : RefinedBy (theme.plainStyles refer slots) (theme.plainStyles refer' slots) :=
      plainStyles_refinedBy fun parent hp => hr parent (.parent hp)
    have hstate (state : State) :
        RefinedBy (theme.boxStateStyles refer state (states state))
          (theme.boxStateStyles refer' state (states state)) :=
      boxStateStyles_refinedBy (states state) state
        fun source hd text ht => hr text (.state hd ht)
    rw [boxStyles, boxStyles]
    exact hplain.bind fun _ =>
      (RefinedBy.foldlM fun _ state _ => (hstate state).bind fun _ => .refl _).bind
        fun _ => .refl _
termination_by structural box => box

end

end Theme

end Theming
