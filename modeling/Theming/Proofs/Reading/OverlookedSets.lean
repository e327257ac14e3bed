import Theming.Proofs.Compile.Bare
import Theming.Proofs.Reading.Accepted
import Theming.Proofs.Reading.Lacking

/-! Style sets are read alike with and without entries that count as absent, up to slots that are
empty or hold a value that counts as absent. -/

namespace Theming

open Shape

variable {α ρ : Type}

theorem Gradient.overlooks (allowGradient : Bool) :
    Gradient.record.Overlooks .color allowGradient (Gradient.bare allowGradient) where
  fields := by
    have hshown (value : Value) (h : value.isBlank = true) :
        AgreeUpTo (Option.filter (· ≠ .text "")) (Reader.optional Scalar.read value)
          (.ok none) := by
      rcases Value.isBlank_cases h with rfl | rfl <;> rfl
    have hhidden (value : Value) (h : value.isUnset = true) :
        AgreeUpTo (fun _ => (none : Option Scalar)) (Reader.optional Scalar.read value)
          (.ok none) := by
      rcases Value.isUnset_cases h with rfl | rfl | rfl <;> rfl
    simp only [Gradient.record, List.forall_mem_cons]
    cases allowGradient with
    | true =>
      exact ⟨Field.overlooks_optional _ Reader.overlooks_scalar hshown (fun _ _ => rfl) rfl,
        Field.overlooks_optional _ Reader.overlooks_scalar hhidden (fun _ _ => rfl) rfl,
        List.forall_mem_nil _⟩
    | false =>
      exact ⟨Field.overlooks_optional _ Reader.overlooks_scalar hhidden (fun _ _ => rfl) rfl,
        Field.overlooks_optional _ Reader.overlooks_scalar hshown (fun _ _ => rfl) rfl,
        List.forall_mem_nil _⟩
  commutes _ _ _ := Gradient.orderFree.commutes

theorem Color.overlooks (allowGradient : Bool) :
    Reader.Overlooks Color.read .color allowGradient (Color.bare allowGradient) := by
  refine Reader.Overlooks.oneOf (fun v w proper lacks => ?_) "ColorValue"
  have hread := (Gradient.overlooks allowGradient).read rfl (by simp [Shape.item]) v w proper lacks
  have hbare (g g' : Gradient) (h : g.bare allowGradient = g'.bare allowGradient) :
      Color.bare allowGradient (.gradient g) = Color.bare allowGradient (.gradient g') :=
    congrArg Color.gradient h
  rcases lacks.structured with ⟨xs, ys, rfl, rfl⟩ | ⟨xs, ys, rfl, rfl⟩
  · exact hread.map hbare
  · exact hread.map hbare

/-- A slot that is emptied unless it is set. -/
theorem filter_map_congr {isSet : α → Bool} {bare : α → α}
    (isSet_bare : ∀ a, isSet (bare a) = isSet a) {a b : α} (h : bare a = bare b) :
    ((some a).filter isSet).map bare = ((some b).filter isSet).map bare := by
  have hset : isSet a = isSet b := by rw [← isSet_bare a, h, isSet_bare]
  simp only [Option.filter, hset]
  split
  · exact congrArg some h
  · rfl

section

variable {key : String} {shape : Shape} {allowGradient : Bool} {bare : ρ → ρ} {blank : ρ}

theorem Field.overlooks_color {set : ρ → Option Color → ρ} {gradients : Bool}
    (under : shape.under key = .optional .color) (allows : shape.allowsGradient key = gradients)
    (bare_set : ∀ r x, bare (set r x) = set (bare r) (Color.bareSlot gradients x))
    (set_none : set blank none = blank) :
    (Field.optional key Color.read set).Overlooks shape allowGradient bare blank := by
  refine Field.overlooks_optional (Color.bareSlot gradients) ?_ (fun value h => ?_) bare_set
    set_none
  · rw [under, allows]
    exact (Color.overlooks gradients).optional fun _ _ =>
      filter_map_congr (Color.isSet_bare gradients)
  · rcases Value.isUnset_cases (isUnset_of_neglects h) with rfl | rfl | rfl <;> rfl

end

theorem Filter.overlooks (allowGradient : Bool) :
    Filter.record.Overlooks .backdrop allowGradient Filter.bare where
  fields := by
    simp only [Filter.record, List.forall_mem_cons]
    exact ⟨Field.overlooks_scalar (fun _ _ => rfl) rfl,
      Field.overlooks_color rfl rfl (fun _ _ => rfl) rfl, List.forall_mem_nil _⟩
  commutes _ _ _ := Filter.orderFree.commutes

theorem Backdrop.overlooks (allowGradient : Bool) :
    Reader.Overlooks Backdrop.read .backdrop allowGradient Backdrop.bare := by
  refine Reader.Overlooks.oneOf (fun v w proper lacks => ?_) "BackdropFilter"
  have hread := (Filter.overlooks allowGradient).read rfl (by simp [Shape.item]) v w proper lacks
  have hbare (f f' : Filter) (h : f.bare = f'.bare) :
      Backdrop.bare (.filter f) = Backdrop.bare (.filter f') :=
    congrArg Backdrop.filter h
  rcases lacks.structured with ⟨xs, ys, rfl, rfl⟩ | ⟨xs, ys, rfl, rfl⟩
  · exact hread.map hbare
  · exact hread.map hbare

theorem Backdrop.isSet_bare (backdrop : Backdrop) : backdrop.bare.isSet = backdrop.isSet := by
  cases backdrop <;> rfl

theorem Field.overlooks_backdrop {key : String} {set : ρ → Option Backdrop → ρ} {shape : Shape}
    {allowGradient : Bool} {bare : ρ → ρ} {blank : ρ}
    (under : shape.under key = .optional .backdrop)
    (bare_set : ∀ r x, bare (set r x) = set (bare r) (Backdrop.bareSlot x))
    (set_none : set blank none = blank) :
    (Field.optional key Backdrop.read set).Overlooks shape allowGradient bare blank := by
  refine Field.overlooks_optional Backdrop.bareSlot ?_ (fun value h => ?_) bare_set set_none
  · rw [under]
    exact (Backdrop.overlooks _).optional fun _ _ => filter_map_congr Backdrop.isSet_bare
  · rcases Value.isUnset_cases (isUnset_of_neglects h) with rfl | rfl | rfl <;> rfl

theorem ColorProps.overlooks (allowGradient : Bool) :
    ColorProps.record.Overlooks (.record (.props .color)) allowGradient ColorProps.bare where
  fields := by
    simp only [ColorProps.record, List.forall_mem_cons]
    exact ⟨Field.overlooks_scalar (fun _ _ => rfl) rfl,
      Field.overlooks_color rfl rfl (fun _ _ => rfl) rfl,
      Field.overlooks_color rfl rfl (fun _ _ => rfl) rfl,
      Field.overlooks_scalar (fun _ _ => rfl) rfl,
      Field.overlooks_backdrop rfl (fun _ _ => rfl) rfl,
      Field.overlooks_color rfl rfl (fun _ _ => rfl) rfl,
      Field.overlooks_scalar (fun _ _ => rfl) rfl, Field.overlooks_scalar (fun _ _ => rfl) rfl,
      List.forall_mem_nil _⟩
  commutes _ _ _ := ColorProps.orderFree.commutes

theorem Selection.overlooks (allowGradient : Bool) :
    Selection.record.Overlooks (.record .selection) allowGradient Selection.bare where
  fields := by
    simp only [Selection.record, List.forall_mem_cons]
    exact ⟨Field.overlooks_color rfl rfl (fun _ _ => rfl) rfl,
      Field.overlooks_color rfl rfl (fun _ _ => rfl) rfl, List.forall_mem_nil _⟩
  commutes _ _ _ := Selection.orderFree.commutes

theorem BorderEdge.overlooks (allowGradient : Bool) :
    BorderEdge.record.Overlooks (.record .edge) allowGradient BorderEdge.bare where
  fields := by
    simp only [BorderEdge.record, List.forall_mem_cons]
    exact ⟨Field.overlooks_scalar (fun _ _ => rfl) rfl, Field.overlooks_scalar (fun _ _ => rfl) rfl,
      Field.overlooks_scalar (fun _ _ => rfl) rfl, List.forall_mem_nil _⟩
  commutes _ _ _ := BorderEdge.orderFree.commutes

theorem BorderProps.overlooks (allowGradient : Bool) :
    BorderProps.record.Overlooks (.record (.props .border)) allowGradient BorderProps.bare where
  fields := by
    have hedge (gradients : Bool) : (Reader.optional BorderEdge.record.read).Overlooks
        (.optional (.record .edge)) gradients (Option.map BorderEdge.bare) :=
      ((BorderEdge.overlooks gradients).read rfl (by simp [Shape.item])).map_optional
    simp only [BorderProps.record, List.forall_mem_cons]
    exact ⟨Field.overlooks_scalar (fun _ _ => rfl) rfl, Field.overlooks_scalar (fun _ _ => rfl) rfl,
      Field.overlooks_scalar (fun _ _ => rfl) rfl, Field.overlooks_scalar (fun _ _ => rfl) rfl,
      Field.overlooks_other (hedge _) (fun _ => rfl) (fun _ _ => rfl) rfl,
      Field.overlooks_other (hedge _) (fun _ => rfl) (fun _ _ => rfl) rfl,
      Field.overlooks_other (hedge _) (fun _ => rfl) (fun _ _ => rfl) rfl,
      Field.overlooks_other (hedge _) (fun _ => rfl) (fun _ _ => rfl) rfl,
      Field.overlooks_scalar (fun _ _ => rfl) rfl, List.forall_mem_nil _⟩
  commutes _ _ _ := BorderProps.orderFree.commutes

theorem FontProps.overlooks (allowGradient : Bool) :
    FontProps.record.Overlooks (.record (.props .font)) allowGradient FontProps.bare where
  fields := by
    simp only [FontProps.record, List.forall_mem_cons]
    refine ⟨?_, ?_, ?_, ?_, ?_, ?_, ?_, ?_, List.forall_mem_nil _⟩ <;>
      exact Field.overlooks_scalar (fun _ _ => rfl) rfl
  commutes _ _ _ := FontProps.orderFree.commutes

theorem SetKind.overlooks (kind : SetKind) (allowGradient : Bool) :
    kind.record.Overlooks (.record (.props kind)) allowGradient kind.bare := by
  cases kind with
  | color => exact ColorProps.overlooks allowGradient
  | border => exact BorderProps.overlooks allowGradient
  | font => exact FontProps.overlooks allowGradient

theorem SetKind.read_overlooks (kind : SetKind) (allowGradient : Bool) :
    kind.record.read.Overlooks (.record (.props kind)) allowGradient kind.bare :=
  (kind.overlooks allowGradient).read (SetKind.describes kind).keys (by simp [Shape.item])

/-- The properties for the plain state stand among the other entries of a set. -/
theorem SetKind.overlooks_in_set (kind : SetKind) (allowGradient : Bool) :
    kind.record.Overlooks (.record (.set kind)) allowGradient kind.bare where
  fields field hf := by
    have hfield := (kind.overlooks allowGradient).fields field hf
    have hkey : field.key ∈ Table.keys (RecordKind.propFields kind) :=
      (SetKind.describes kind).keys ▸ List.mem_map_of_mem hf
    have hunder : (Shape.record (.set kind)).under field.key =
        (Shape.record (.props kind)).under field.key := StyleSet.under_prop kind _ hkey
    have hallows : (Shape.record (.set kind)).allowsGradient field.key =
        (Shape.record (.props kind)).allowsGradient field.key := by cases kind <;> rfl
    refine ⟨hfield.congr, fun v w r proper lacks => ?_, fun value h => ?_⟩
    · rw [hunder, hallows] at lacks
      exact hfield.inside v w r proper lacks
    · refine hfield.absent value ?_
      simpa only [neglects, core, hunder] using h
  commutes _ _ _ := (SetKind.orderFree kind).commutes

def SetHead.bare (head : SetHead) : SetHead := ⟨head.parent, head.selection.map Selection.bare⟩

theorem SetHead.overlooks (kind : SetKind) (allowGradient : Bool) :
    (SetHead.record kind).Overlooks (.record (.set kind)) allowGradient SetHead.bare where
  fields := by
    cases kind with
    | color =>
      have hselection (gradients : Bool) : (Reader.optional Selection.record.read).Overlooks
          (.optional (.record .selection)) gradients (Option.map Selection.bare) :=
        ((Selection.overlooks gradients).read rfl (by simp [Shape.item])).map_optional
      simp only [SetHead.record, if_true, List.forall_mem_cons]
      exact ⟨Field.overlooks_other Reader.overlooks_text (fun _ => rfl) (fun _ _ => rfl) rfl,
        Field.overlooks_other (hselection _) (fun _ => rfl) (fun _ _ => rfl) rfl,
        List.forall_mem_nil _⟩
    | border =>
      simp only [SetHead.record, reduceCtorEq, if_false, List.forall_mem_cons]
      exact ⟨Field.overlooks_other Reader.overlooks_text (fun _ => rfl) (fun _ _ => rfl) rfl,
        List.forall_mem_nil _⟩
    | font =>
      simp only [SetHead.record, reduceCtorEq, if_false, List.forall_mem_cons]
      exact ⟨Field.overlooks_other Reader.overlooks_text (fun _ => rfl) (fun _ _ => rfl) rfl,
        List.forall_mem_nil _⟩
  commutes _ _ _ := (SetHead.orderFree kind).commutes

namespace States

variable {read : Reader α}

/-- An entry that belongs to no state can be left out. -/
theorem read_without (read : Reader α) (front back : List (String × Value)) {key : String}
    (value : Value) (h : State.ofKey? key = none) :
    States.read read (front ++ (key, value) :: back) = States.read read (front ++ back) := by
  simp only [States.read, List.foldlM_append, List.foldlM_cons, h, pure_bind]

theorem read_replace {f : α → α} (front back : List (String × Value)) {key : String} {v w : Value}
    (h : State.ofKey? key ≠ none →
      AgreeUpTo (Option.map f) (read.optional v) (read.optional w)) :
    AgreeUpTo (States.map f) (States.read read (front ++ (key, v) :: back))
      (States.read read (front ++ (key, w) :: back)) := by
  have hput (s t : States α) (state : State) (x y : Option α)
      (hst : States.map f s = States.map f t)
      (hxy : x.map f = y.map f) : States.map f (s.put state x) = States.map f (t.put state y) := by
    funext u
    have hu : (s u).map f = (t u).map f := congrFun hst u
    simp only [States.map, States.put]
    split
    · exact hxy
    · exact hu
  refine .foldlM_replace (fun e s t hst => ?_) front back (fun s => ?_) _
  · dsimp only
    split
    · next state _ =>
      exact (AgreeUpTo.refl (f := id) _).map fun x y hxy => by
        cases hxy
        exact hput s t state x x hst rfl
    · exact .ok hst
  · dsimp only
    split
    · next state hs => exact (h (by simp [hs])).map fun x y hxy => hput s s state x y rfl hxy
    · exact .refl _

end States

theorem ofKey?_of_neglects {kind : RecordKind} {inner : Shape} {allowGradient : Bool}
    {key : String} {value : Value}
    (states : ∀ state : State, kind.under state.key = .optional inner)
    (other : (Shape.optional inner).isSlot = false)
    (h : (Shape.record kind).neglects allowGradient key value = true) :
    State.ofKey? key = none := by
  cases hs : State.ofKey? key with
  | none => rfl
  | some state =>
    have hslot : (kind.under key).isSlot = false := by
      rw [← State.key_of_ofKey? hs, states, other]
    have hneglects : ((kind.under key).isSlot && value.isUnset) = true := h
    rw [hslot] at hneglects
    cases hneglects

theorem StyleSet.overlooks (kind : SetKind) (allowGradient : Bool) :
    Reader.Overlooks (StyleSet.read : Reader (StyleSet kind)) (.record (.set kind)) allowGradient
      StyleSet.bare := by
  intro v w proper lacks
  rcases lacks.structured with ⟨xs, ys, rfl, rfl⟩ | ⟨xs, ys, rfl, rfl⟩
  · have hhead := (SetHead.overlooks kind allowGradient).readEntries proper lacks
    have hbase := (kind.overlooks_in_set allowGradient).readEntries proper lacks
    have hstates : AgreeUpTo (States.map kind.bare) (States.read kind.record.read xs)
        (States.read kind.record.read ys) := by
      cases lacks with
      | @entry _ _ front back key value neglected =>
        have hkey := ofKey?_of_neglects (StyleSet.under_state kind) rfl neglected
        rw [States.read_without kind.record.read front back value hkey]
        exact .refl _
      | @inside _ _ front back key v w inner =>
        refine States.read_replace front back fun hkey => ?_
        obtain ⟨state, hs⟩ := Option.ne_none_iff_exists'.1 hkey
        have hunder : (Shape.record (.set kind)).under key = .optional (.record (.props kind)) :=
          State.key_of_ofKey? hs ▸ StyleSet.under_state kind state
        rw [hunder] at inner
        exact (kind.read_overlooks _).map_optional v w (Value.Proper.of_entry proper) inner
    refine hhead.bind fun head head' hh => hbase.bind fun base base' hb =>
      hstates.bind fun states states' hs => ?_
    have hbare (h : SetHead) (b : kind.Props) (s : States kind.Props) :
        StyleSet.bare ⟨h.parent, b, s, h.selection⟩ =
          ⟨h.bare.parent, kind.bare b, States.map kind.bare s, h.bare.selection⟩ := rfl
    refine .ok ?_
    rw [hbare, hbare, hh, hb, hs]
  · exact .refl _

theorem Source.overlooks {inline : Reader α} {shape : Shape} {bare : α → α}
    (h : ∀ allowGradient, inline.Overlooks shape allowGradient bare) (allowGradient : Bool) :
    Reader.Overlooks (Source.read inline) (.source shape) allowGradient
      (Source.mapInline bare) := by
  intro v w proper lacks
  have hinline (a b : α) (hab : bare a = bare b) :
      Source.mapInline bare (.inline a) = Source.mapInline bare (.inline b) :=
    congrArg Source.inline hab
  generalize hs : Shape.source shape = place at lacks
  induction lacks with
  | entry neglected =>
    subst hs
    exact ((h _).oneOf "Source" _ _ proper (lacks_source_iff.1 (.entry neglected))).map hinline
  | inside inner =>
    subst hs
    exact ((h false).oneOf "Source" _ _ proper (lacks_source_iff.1 (.inside inner))).map hinline
  | @item _ _ _ front back v w sources inner ih =>
    subst hs
    cases sources
    simp only [Source.read, Source.readItems_eq_mapM]
    have hitem := ih (Value.Proper.of_item proper) rfl
    refine (AgreeUpTo.mapM_replace front back hitem).map fun as bs hs => ?_
    simp only [Source.mapInline, Source.mapInlines_eq_map, hs]
  | field place inner =>
    subst hs
    cases place

end Theming
