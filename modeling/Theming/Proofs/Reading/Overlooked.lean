import Theming.Proofs.Reading.OverlookedSets

/-! Boxes and themes are read alike with and without entries that count as absent, up to slots that
are empty or hold a value that counts as absent. -/

namespace Theming

open Shape

variable {α ρ : Type}

/-- In a pseudo-element only null counts as absent. -/
theorem PseudoElement.overlooks (allowGradient : Bool) :
    Reader.Overlooks (Reader.table (Reader.optional Scalar.read)) (.table (.optional .scalar))
      allowGradient PseudoElement.bare := by
  intro v w proper lacks
  cases lacks with
  | @entry _ _ front back key value neglected =>
    cases value with
    | null =>
      simp only [Reader.table, List.mapM_append, List.mapM_cons]
      refine (AgreeUpTo.refl (f := id) _).bind fun as bs hab => ?_
      cases hab
      have hnull : (Reader.optional Scalar.read .null).map (key, ·) = pure (key, none) := rfl
      simp only [hnull, pure_bind, bind_assoc]
      refine (AgreeUpTo.refl (f := id) _).bind fun bs cs hbc => ?_
      cases hbc
      exact .ok (by simp [PseudoElement.bare])
    | _ => cases neglected
  | @inside _ _ front back key v w inner =>
    refine (AgreeUpTo.mapM_replace (f := id) front back ?_).weaken fun as bs hs => ?_
    · rcases inner.structured with ⟨xs, ys, rfl, rfl⟩ | ⟨xs, ys, rfl, rfl⟩ <;> rfl
    · rw [List.map_id, List.map_id] at hs
      rw [hs]
  | item sources inner => exact .refl _
  | field place inner => exact .refl _

theorem BoxSlots.overlooks (allowGradient : Bool) :
    BoxSlots.record.Overlooks (.record .box) allowGradient BoxSlots.bare where
  fields := by
    have hset {kind : SetKind} (gradients : Bool) :
        (Reader.optional (Source.read (StyleSet.read : Reader (StyleSet kind)))).Overlooks
          (.optional (.source (.record (.set kind)))) gradients
          (Option.map (Source.mapInline StyleSet.bare)) :=
      (Source.overlooks (StyleSet.overlooks kind) gradients).map_optional
    have hpseudo (gradients : Bool) :
        (Reader.optional (Reader.table (Reader.optional Scalar.read))).Overlooks
          (.optional (.table (.optional .scalar))) gradients (Option.map PseudoElement.bare) :=
      (PseudoElement.overlooks gradients).map_optional
    simp only [BoxSlots.record, List.forall_mem_cons]
    exact ⟨Field.overlooks_other Reader.overlooks_text (fun _ => rfl) (fun _ _ => rfl) rfl,
      Field.overlooks_other (hset _) (fun _ => rfl) (fun _ _ => rfl) rfl,
      Field.overlooks_other (hset _) (fun _ => rfl) (fun _ _ => rfl) rfl,
      Field.overlooks_other (hset _) (fun _ => rfl) (fun _ _ => rfl) rfl,
      Field.overlooks_scalar (fun _ _ => rfl) rfl, Field.overlooks_scalar (fun _ _ => rfl) rfl,
      Field.overlooks_scalar (fun _ _ => rfl) rfl, Field.overlooks_scalar (fun _ _ => rfl) rfl,
      Field.overlooks_other (hpseudo _) (fun _ => rfl) (fun _ _ => rfl) rfl,
      Field.overlooks_other (hpseudo _) (fun _ => rfl) (fun _ _ => rfl) rfl,
      List.forall_mem_nil _⟩
  commutes _ _ _ := BoxSlots.orderFree.commutes

namespace Box

theorem readStates_eq (entries : List (String × Value)) :
    readStates (fun _ => none) entries = States.read readSource entries :=
  readStates_eq_foldlM _ entries

theorem bare_mk (slots : BoxSlots) (states : States (Source Box)) :
    Box.bare (.mk slots states) = .mk slots.bare (States.map bareSource states) := by
  rw [Box.bare]
  congr 1
  funext state
  exact bareSlot_eq_map _

theorem read_object (entries : List (String × Value)) :
    Box.read (.object entries) = do
      let slots ← BoxSlots.record.readEntries entries
      return mk slots (← States.read readSource entries) := by
  rw [Box.read, readStates_eq]

theorem readSource_object (entries : List (String × Value)) :
    readSource (.object entries) =
      ((Box.read (.object entries)).map .inline).mapError fun _ => .noAlternative "Source" := by
  rw [readSource, Box.read]

theorem agree_read {xs ys : List (String × Value)}
    (slots : AgreeUpTo BoxSlots.bare (BoxSlots.record.readEntries xs)
      (BoxSlots.record.readEntries ys))
    (states : AgreeUpTo (States.map bareSource) (States.read readSource xs)
      (States.read readSource ys)) :
    AgreeUpTo bareSource (readSource (.object xs)) (readSource (.object ys)) := by
  rw [readSource_object, readSource_object]
  refine AgreeUpTo.mapError (AgreeUpTo.map (f := bare) ?_ fun a b hab => ?_) _ _
  · rw [read_object, read_object]
    refine slots.bind fun slots slots' hslots => states.bind fun states states' hstates => .ok ?_
    rw [bare_mk, bare_mk, hslots, hstates]
  · rw [bareSource, bareSource, hab]

theorem readSource_overlooks {place : Shape} {allowGradient : Bool}
    (sources : place.item = .source (.record .box)) :
    Reader.Overlooks readSource place allowGradient bareSource := by
  intro v w proper lacks
  -- the entry is missing in this object, or inside a slot or a state of it, or in an item of a list
  induction lacks with
  | @entry place allowGradient front back key value neglected =>
    obtain ⟨hcore, hunder, -⟩ := looks_of_item sources
    have hneglected : (Shape.record .box).neglects allowGradient key value = true := by
      simpa only [neglects, hcore, hunder] using neglected
    refine agree_read ((BoxSlots.overlooks _).readEntries proper (.entry hneglected)) ?_
    rw [States.read_without readSource front back value
      (ofKey?_of_neglects Box.under_state rfl hneglected)]
    exact .refl _
  | @inside place _ front back key v w inner ih =>
    obtain ⟨hcore, hunder, -⟩ := looks_of_item sources
    have hallows : place.allowsGradient key = (Shape.record .box).allowsGradient key := by
      simp only [allowsGradient, hcore]
    have hinner := inner
    rw [hunder, hallows] at hinner
    refine agree_read ((BoxSlots.overlooks false).readEntries proper (.inside hinner))
      (States.read_replace front back fun hkey => ?_)
    obtain ⟨state, hs⟩ := Option.ne_none_iff_exists'.1 hkey
    have hsource : (place.under key).item = .source (.record .box) := by
      rw [hunder, ← State.key_of_ofKey? hs]
      exact congrArg Shape.item (Box.under_state state)
    obtain ⟨hv, hw⟩ := Reader.optional_of_lacks readSource inner
    rw [hv, hw]
    exact (ih hsource (Value.Proper.of_entry proper)).map fun a b hab => congrArg some hab
  | @item _ inline _ front back v w item inner ih =>
    have hinline : Shape.source inline = .source (.record .box) := item.symm.trans sources
    simp only [readSource, readSources_eq_mapM]
    have hitem := ih hinline (Value.Proper.of_item proper)
    refine (AgreeUpTo.mapM_replace front back hitem).map fun as bs hs => ?_
    simp only [bareSource, bareSources_eq_map, hs]
  | field place inner =>
    rw [(looks_of_item sources).2.2] at place
    cases place

theorem read_overlooks (allowGradient : Bool) :
    Box.read.Overlooks (.record .box) allowGradient bare := by
  intro v w proper lacks
  rcases lacks.structured with ⟨xs, ys, rfl, rfl⟩ | ⟨xs, ys, rfl, rfl⟩
  · have hsource := readSource_overlooks rfl _ _ proper (lacks_source_iff.2 lacks)
    have hinline : bareSource ∘ Source.inline = Source.inline ∘ bare := by
      funext box
      rw [Function.comp_apply, bareSource]
      rfl
    unfold AgreeUpTo at hsource ⊢
    rw [readSource_object, readSource_object, toOption_mapError, toOption_mapError, toOption_map,
      toOption_map, Option.map_map, Option.map_map, hinline, ← Option.map_map,
      ← Option.map_map] at hsource
    exact Option.map_injective (fun _ _ h => Source.inline.inj h) hsource
  · exact .refl _

end Box

/-! The readers of components and of themes. None of their own entries counts as absent. -/

theorem not_lacks_free {allowGradient : Bool} {v w : Value} : ¬ Lacks .free allowGradient v w := by
  intro lacks
  generalize hs : Shape.free = shape at lacks
  induction lacks with
  | entry neglected =>
    subst hs
    cases neglected
  | inside _ ih =>
    subst hs
    exact ih rfl
  | item sources _ =>
    subst hs
    cases sources
  | field place _ =>
    subst hs
    cases place

theorem Reader.overlooks_free (read : Reader α) {allowGradient : Bool} :
    read.Overlooks .free allowGradient id :=
  fun _ _ _ lacks => absurd lacks not_lacks_free

theorem Reader.Overlooks.table {read : Reader α} {shape : Shape} {allowGradient : Bool}
    {bare : α → α} (h : read.Overlooks shape false bare) (entry : shape.isSlot = false) :
    read.table.Overlooks (.table shape) allowGradient (Table.mapValues bare) := by
  intro v w proper lacks
  cases lacks with
  | @entry _ _ front back key value neglected =>
    have hneglected : (shape.isSlot && value.isNull) = true := neglected
    rw [entry] at hneglected
    cases hneglected
  | @inside _ _ front back key v w inner =>
    exact AgreeUpTo.mapM_replace front back
      ((h v w (Value.Proper.of_entry proper) inner).map fun a b hab => congrArg (Prod.mk key) hab)
  | item sources inner => exact .refl _
  | field place inner => exact .refl _

theorem Reader.Overlooks.orDefault {read : Reader α} {shape : Shape} {allowGradient : Bool}
    {bare : α → α} (h : read.Overlooks shape allowGradient bare) (default : α) :
    (read.orDefault default).Overlooks (.optional shape) allowGradient bare := by
  intro v w proper lacks
  have hread (x : Except Misfit α) : (x.map some).map (·.getD default) = x := by cases x <;> rfl
  obtain ⟨hv, hw⟩ := read.optional_of_lacks lacks
  rw [Reader.orDefault, Reader.orDefault, hv, hw, hread, hread]
  exact h v w proper lacks.of_optional

/-- A field with a default whose entry never counts as absent. -/
theorem Field.overlooks_orDefault {key : String} {read : Reader α} {default : α} {set : ρ → α → ρ}
    {shape : Shape} {allowGradient : Bool} {bare : ρ → ρ} {blank : ρ} {bareValue : α → α}
    (inside : (read.orDefault default).Overlooks (shape.under key) (shape.allowsGradient key)
      bareValue)
    (other : ∀ value, shape.neglects allowGradient key value = false)
    (bare_set : ∀ r x, bare (set r x) = set (bare r) (bareValue x)) :
    (Field.orDefault key read default set).Overlooks shape allowGradient bare blank := by
  refine Field.overlooks_set (fun _ _ => rfl) inside (fun value h => ?_) bare_set
  rw [Field.orDefault, other value] at h
  cases h

theorem Part.overlooks (allowGradient : Bool) :
    Part.read.Overlooks (.source (.record .box)) allowGradient Part.bare := by
  intro v w proper lacks
  refine (Box.readSource_overlooks rfl v w proper lacks).map fun a b hab => ?_
  rw [Part.bare, Part.bare, hab]

/-- Only slots count as absent. -/
theorem neglects_record (kind : RecordKind) (h : ∀ e ∈ kind.fields, e.2.isSlot = false)
    (allowGradient : Bool) (key : String) (value : Value) :
    (Shape.record kind).neglects allowGradient key value = false := by
  have hunder : (kind.under key).isSlot = false := by
    unfold RecordKind.under
    cases hf : Table.find? kind.fields key with
    | none => rfl
    | some shape => exact h (key, shape) (Table.mem_of_find? hf)
  have hneglects : (Shape.record kind).neglects allowGradient key value =
      ((kind.under key).isSlot && value.isUnset) := rfl
  rw [hneglects, hunder, Bool.false_and]

theorem Record.Overlooks.of_slotless {record : Record ρ} {kind : RecordKind}
    {allowGradient : Bool} {bare : ρ → ρ} (slotless : ∀ e ∈ kind.fields, e.2.isSlot = false)
    (fields : ∀ field ∈ record.fields,
      field.Overlooks (.record kind) allowGradient bare record.blank) :
    record.Overlooks (.record kind) allowGradient bare where
  fields := fields
  commutes key value h := by
    rw [neglects_record kind slotless] at h
    cases h

theorem Variant.overlooks (allowGradient : Bool) :
    Variant.record.Overlooks (.record .variant) allowGradient Variant.bare := by
  have hother := neglects_record .variant (by decide) allowGradient
  refine .of_slotless (by decide) ?_
  simp only [Variant.record, List.forall_mem_cons]
  exact ⟨Field.overlooks_other (Box.readSource_overlooks rfl).map_optional (hother _)
      (fun _ _ => rfl) rfl,
    Field.overlooks_orDefault (((Part.overlooks false).table rfl).orDefault _) (hother _)
      (fun _ _ => rfl),
    Field.overlooks_other (Reader.overlooks_free _) (hother _) (fun _ _ => rfl) rfl,
    List.forall_mem_nil _⟩

theorem Variant.read_overlooks (allowGradient : Bool) :
    Variant.record.read.Overlooks (.record .variant) allowGradient Variant.bare :=
  (Variant.overlooks allowGradient).read rfl (by simp [Shape.item])

theorem Component.overlooks (allowGradient : Bool) :
    Component.record.Overlooks (.record .component) allowGradient Component.bare := by
  have hother := neglects_record .component (by decide) allowGradient
  refine .of_slotless (by decide) ?_
  simp only [Component.record, List.forall_mem_cons]
  exact ⟨Field.overlooks_other Reader.overlooks_text (hother _) (fun _ _ => rfl) rfl,
    Field.overlooks_other (Variant.read_overlooks _).map_optional (hother _) (fun _ _ => rfl) rfl,
    Field.overlooks_orDefault (((Variant.read_overlooks _).table rfl).orDefault _) (hother _)
      (fun _ _ => rfl), List.forall_mem_nil _⟩

theorem Sets.overlooks (allowGradient : Bool) :
    Sets.record.Overlooks (.record .sets) allowGradient Sets.bare := by
  have hother := neglects_record .sets (by decide) allowGradient
  refine .of_slotless (by decide) ?_
  simp only [Sets.record, List.forall_mem_cons]
  exact ⟨Field.overlooks_orDefault (((StyleSet.overlooks .color _).table rfl).orDefault _)
      (hother _) (fun _ _ => rfl),
    Field.overlooks_orDefault (((StyleSet.overlooks .border _).table rfl).orDefault _)
      (hother _) (fun _ _ => rfl),
    Field.overlooks_orDefault (((StyleSet.overlooks .font _).table rfl).orDefault _)
      (hother _) (fun _ _ => rfl),
    Field.overlooks_orDefault (((Box.read_overlooks _).table rfl).orDefault _) (hother _)
      (fun _ _ => rfl), List.forall_mem_nil _⟩

theorem Assets.overlooks (allowGradient : Bool) :
    Assets.record.Overlooks (.record .assets) allowGradient id := by
  refine .of_slotless (by decide) ?_
  simp only [Assets.record, List.forall_mem_cons]
  exact ⟨Field.overlooks_other Reader.overlooks_text
    (neglects_record .assets (by decide) allowGradient _) (fun _ _ => rfl) rfl,
    List.forall_mem_nil _⟩

namespace Theme

theorem overlooks (allowGradient : Bool) :
    Theme.record.Overlooks (.record .theme) allowGradient Theme.bare := by
  have hother := neglects_record .theme (by decide) allowGradient
  have hassets (gradients : Bool) : (Reader.optional Assets.record.read).Overlooks
      (.optional (.record .assets)) gradients id := by
    have hread := ((Assets.overlooks gradients).read rfl (by simp [Shape.item])).map_optional
    rwa [Option.map_id] at hread
  have hplain {α : Type} {read : Reader α} {key : String} {set : Theme → α → Theme}
      (list : ∀ items, (read (.list items)).toOption = none)
      (object : ∀ entries, (read (.object entries)).toOption = none)
      (bare_set : ∀ t x, (set t x).bare = set t.bare x) :
      Field.Overlooks ⟨key, fun value t => (read value).map (set t), false⟩ (.record .theme)
        allowGradient Theme.bare Theme.record.blank := by
    have hinside : read.Overlooks ((Shape.record .theme).under key)
        ((Shape.record .theme).allowsGradient key) id := Reader.overlooks_plain list object
    refine Field.overlooks_set (fun _ _ => rfl) hinside (fun value h => ?_) bare_set
    rw [hother key value] at h
    cases h
  refine .of_slotless (by decide) ?_
  simp only [Theme.record, List.forall_mem_cons]
  exact ⟨hplain (fun _ => rfl) (fun _ => rfl) fun _ _ => rfl,
    hplain (fun _ => rfl) (fun _ => rfl) fun _ _ => rfl,
    Field.overlooks_other Reader.overlooks_text (hother _) (fun _ _ => rfl) rfl,
    Field.overlooks_orDefault (Reader.overlooks_free _) (hother _) (fun _ _ => rfl),
    Field.overlooks_orDefault
      (((Sets.overlooks _).read rfl (by simp [Shape.item])).orDefault _) (hother _)
      (fun _ _ => rfl),
    Field.overlooks_orDefault
      ((((Component.overlooks _).read rfl (by simp [Shape.item])).table rfl).orDefault _)
      (hother _) (fun _ _ => rfl),
    Field.overlooks_orDefault (Reader.overlooks_free _) (hother _) (fun _ _ => rfl),
    Field.overlooks_other (hassets _) (hother _) (fun _ _ => rfl) rfl, List.forall_mem_nil _⟩

theorem missingField?_of_keys {xs ys : List (String × Value)} (h : Table.keys xs = Table.keys ys) :
    missingField? (.object xs) = missingField? (.object ys) := by
  have hfind (key : String) : (Table.find? xs key).isNone = (Table.find? ys key).isNone := by
    rw [Bool.eq_iff_iff, Option.isNone_iff_eq_none, Option.isNone_iff_eq_none,
      Table.find?_eq_none_iff, Table.find?_eq_none_iff, h]
  simp only [missingField?, hfind]

theorem missingField?_of_lacks {v w : Value} {allowGradient : Bool}
    (lacks : Lacks (.record .theme) allowGradient v w) : missingField? v = missingField? w := by
  cases lacks with
  | entry neglected =>
    rw [neglects_record .theme (by decide)] at neglected
    cases neglected
  | inside inner => exact missingField?_of_keys (by simp [Table.keys])
  | item _ _ | field _ _ => rfl

theorem read_overlooks (allowGradient : Bool) :
    Theme.read.Overlooks (.record .theme) allowGradient Theme.bare := by
  intro v w proper lacks
  have hrecord := (overlooks allowGradient).read rfl (by simp [Shape.item]) v w proper lacks
  refine hrecord.bind fun theme other h => ?_
  rw [missingField?_of_lacks lacks]
  cases missingField? w with
  | none => exact .ok h
  | some _ => exact .refl _

end Theme

end Theming
