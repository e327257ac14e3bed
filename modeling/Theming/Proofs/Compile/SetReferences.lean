import Theming.Compile.StyleSets
import Theming.Proofs.Cycles
import Theming.Proofs.Refinement

/-! The references of style sets. What a set gives depends on its trail only as far as the trail
holds labels that the search meets. -/

namespace Theming.Theme

open Trail

variable {theme : Theme} {kind : SetKind} {refer refer' : String → Except ThemeError Styles}
  {trail : Trail} {reference : String}

/-- The set of one name extends the other one. -/
def SetEdge (theme : Theme) (kind : SetKind) (name next : String) : Prop :=
  ∃ set parent, (theme.sets.table kind).find? name = some set ∧ set.parent = some parent ∧
    referenceName parent = next

theorem setLabel_injective {name name' : String} (h : setLabel kind name = setLabel kind name') :
    name = name' :=
  (String.append_right_inj _).1 h

theorem namedSetStyles_of_find? {set : StyleSet kind}
    (h : (theme.sets.table kind).find? (referenceName reference) = some set) :
    theme.namedSetStyles kind trail reference =
      if setLabel kind (referenceName reference) ∈ trail then
        .error (.cycle .styleSets (trail ++ [setLabel kind (referenceName reference)]))
      else theme.inlineSetStyles
        (theme.namedSetStyles kind (trail ++ [setLabel kind (referenceName reference)])) set := by
  rw [namedSetStyles]
  split
  · rfl
  · split
    · next found => simp [h] at found
    · next set' found =>
      obtain rfl : set = set' := by simpa [h] using found
      rfl

theorem namedSetStyles_of_not_mem
    (h : (theme.sets.table kind).find? (referenceName reference) = none)
    (fresh : setLabel kind (referenceName reference) ∉ trail) :
    theme.namedSetStyles kind trail reference = .ok [] := by
  rw [namedSetStyles, if_neg fresh]
  split
  · rfl
  · next found => simp [h] at found

theorem inlineSetStyles_eq_ok_iff {set : StyleSet kind} {styles : Styles} :
    theme.inlineSetStyles refer set = .ok styles ↔ ∃ own inherited,
      theme.ownStyles set = .ok own ∧ slotStyles refer set.parent = .ok inherited ∧
        (Styles.merge inherited own).sorted = styles := by
  simp only [inlineSetStyles, bind_eq_ok_iff]
  constructor
  · rintro ⟨own, ho, inherited, hi, hs⟩
    exact ⟨own, inherited, ho, hi, Except.ok.inj hs⟩
  · rintro ⟨own, inherited, ho, hi, rfl⟩
    exact ⟨own, ho, inherited, hi, rfl⟩

theorem inlineSetStyles_refinedBy {set : StyleSet kind}
    (hr : ∀ parent, set.parent = some parent → RefinedBy (refer parent) (refer' parent)) :
    RefinedBy (theme.inlineSetStyles refer set) (theme.inlineSetStyles refer' set) := by
  have hinherited : RefinedBy (slotStyles refer set.parent) (slotStyles refer' set.parent) := by
    cases hp : set.parent with
    | none => exact .refl _
    | some parent => exact hr parent hp
  exact (RefinedBy.refl _).bind fun _ => hinherited.bind fun _ => .refl _

theorem explores_namedSetStyles (theme : Theme) (kind : SetKind) :
    Explores (theme.SetEdge kind) (setLabel kind) fun trail name =>
      ∃ reference styles, referenceName reference = name ∧
        theme.namedSetStyles kind trail reference = .ok styles := by
  rintro trail _ ⟨reference, styles, rfl, h⟩
  have fresh : setLabel kind (referenceName reference) ∉ trail := fun seen => by
    rw [namedSetStyles, if_pos seen] at h
    cases h
  refine ⟨fresh, fun next ⟨set, parent, hset, hp, hn⟩ => ?_⟩
  rw [namedSetStyles_of_find? hset, if_neg fresh] at h
  obtain ⟨own, inherited, -, hi, -⟩ := inlineSetStyles_eq_ok_iff.1 h
  rw [hp] at hi
  exact ⟨parent, inherited, hn, hi⟩

theorem namedSetStyles_refinedBy {other : Trail}
    (h : Covers (theme.SetEdge kind) (setLabel kind) trail other (referenceName reference)) :
    RefinedBy (theme.namedSetStyles kind trail reference)
      (theme.namedSetStyles kind other reference) := by
  fun_induction namedSetStyles theme kind trail reference generalizing other
  case case1 => exact .error _ _
  case case2 fresh found =>
    rw [namedSetStyles_of_not_mem found (h.fresh fresh)]
    exact .refl _
  case case3 fresh set found ih =>
    rw [namedSetStyles_of_find? found, if_neg (h.fresh fresh)]
    exact inlineSetStyles_refinedBy
      fun parent hp => ih parent (h.step ⟨set, parent, found, hp, rfl⟩)

/-- A reference to a set gives the same as the set itself. -/
theorem namedSetStyles_toOption {set : StyleSet kind}
    (found : (theme.sets.table kind).find? (referenceName reference) = some set) :
    (theme.namedSetStyles kind [] reference).toOption =
      (theme.inlineSetStyles (theme.namedSetStyles kind []) set).toOption := by
  rw [namedSetStyles_of_find? found, if_neg List.not_mem_nil, List.nil_append]
  refine toOption_eq_iff.2 ⟨inlineSetStyles_refinedBy fun parent _ =>
    namedSetStyles_refinedBy (.nil _ _), inlineSetStyles_refinedBy fun parent hp styles hs => ?_⟩
  have hcovers : Covers (theme.SetEdge kind) (setLabel kind) []
      [setLabel kind (referenceName reference)] (referenceName parent) :=
    (explores_namedSetStyles theme kind).covers ⟨parent, styles, rfl, hs⟩
      ⟨set, parent, found, hp, rfl⟩ fun _ _ hl => setLabel_injective hl
  exact namedSetStyles_refinedBy hcovers styles hs

end Theming.Theme
