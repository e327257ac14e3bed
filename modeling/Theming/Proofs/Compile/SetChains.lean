import Theming.Proofs.Compile.Extends
import Theming.Proofs.Compile.Kinds
import Theming.Proofs.Compile.SetReferences
import Theming.Proofs.Css.Order

/-! Sets that extend others. A set agrees with the list of the set that it extends and its own
rest, once the result of the list is in cascade order. Along a chain of sets each one is laid over
those behind it, so the nearest set that declares something at a path decides there. -/

namespace Theming

def StyleSet.withoutParent {kind : SetKind} (set : StyleSet kind) : StyleSet kind :=
  { set with parent := none }

namespace Theme

open Styles

/-- The sets behind a set, each of which is extended by the one in front of it. A parent that does
not exist ends the chain like a set without one. -/
inductive Lineage (theme : Theme) {kind : SetKind} :
    StyleSet kind → List (StyleSet kind) → Prop
  | root {set : StyleSet kind} (top : set.parent = none) : Lineage theme set []
  | missing {set : StyleSet kind} {parent : String} (up : set.parent = some parent)
      (lost : (theme.sets.table kind).find? (referenceName parent) = none) : Lineage theme set []
  | extend {set next : StyleSet kind} {parent : String} {rest : List (StyleSet kind)}
      (up : set.parent = some parent)
      (found : (theme.sets.table kind).find? (referenceName parent) = some next)
      (further : Lineage theme next rest) : Lineage theme set (next :: rest)

/-- The maps of a chain of sets, laid over each other from the last one on. -/
def chainStyles (owns : List Styles) : Styles := Styles.sorted (mergeAll owns.reverse)

variable {theme : Theme} {kind : SetKind} {set : StyleSet kind} {styles : Styles}

theorem distinct_of_ownStyles (h : theme.ownStyles set = .ok styles) : styles.Distinct :=
  (fit_iff.1 (fit_of_ownStyles h)).1

theorem distinct_of_namedSetStyles {trail : Trail} {reference : String}
    (h : theme.namedSetStyles kind trail reference = .ok styles) : styles.Distinct :=
  (fit_iff.1 (fit_of_namedSetStyles h)).1

theorem inlineSetStyles_of_root {refer : String → Except ThemeError Styles} {own : Styles}
    (top : set.parent = none) (ho : theme.ownStyles set = .ok own) :
    theme.inlineSetStyles refer set = .ok own.sorted := by
  simp only [inlineSetStyles, ho, top, slotStyles]
  exact congrArg (fun map => Except.ok (Styles.sorted map))
    (merge_nil_left (distinct_of_ownStyles ho))

theorem setStyles_inline_eq_pair {parent : String} (up : set.parent = some parent) :
    (theme.setStyles (.inline set)).toOption =
      ((theme.setStyles (.list [.reference parent, .inline set.withoutParent])).map
        Styles.sorted).toOption := by
  have hrest : theme.ownStyles set.withoutParent = theme.ownStyles set := rfl
  simp only [setStyles, setListStyles]
  cases hi : theme.namedSetStyles kind [] parent with
  | error e =>
    simp only [inlineSetStyles, up, slotStyles, hi]
    cases theme.ownStyles set <;> rfl
  | ok inherited =>
    have hinherited : inherited.Distinct := distinct_of_namedSetStyles hi
    cases ho : theme.ownStyles set with
    | error e =>
      simp only [inlineSetStyles, hrest, ho]
      rfl
    | ok own =>
      have hown : own.Distinct := distinct_of_ownStyles ho
      have hsorted : own.sorted.Distinct := (own.sorted_perm.map _).nodup_iff.2 hown
      -- Sorting the rest of the set before it is merged does not show once all is sorted.
      have hsame : Styles.sorted (merge inherited own.sorted) =
          Styles.sorted (merge inherited own) :=
        ((sameCascade_sorted hown).merge_right inherited hsorted hown).sorted_eq
          (distinct_merge hinherited hsorted)
      rw [inlineSetStyles_of_root rfl (hrest.trans ho)]
      simp only [inlineSetStyles, up, slotStyles, hi, ho]
      change some (Styles.sorted (merge inherited own)) =
        some (Styles.sorted (merge (merge [] inherited) own.sorted))
      rw [merge_nil_left hinherited, hsame]

theorem inlineSetStyles_of_missing {parent : String} {own : Styles}
    (up : set.parent = some parent)
    (lost : (theme.sets.table kind).find? (referenceName parent) = none)
    (ho : theme.ownStyles set = .ok own) :
    theme.inlineSetStyles (theme.namedSetStyles kind []) set = .ok own.sorted := by
  simp only [inlineSetStyles, ho, up, slotStyles,
    namedSetStyles_of_not_mem lost List.not_mem_nil]
  exact congrArg (fun map => Except.ok (Styles.sorted map))
    (merge_nil_left (distinct_of_ownStyles ho))

theorem chainStyles_singleton {own : Styles} (h : own.Distinct) :
    chainStyles [own] = own.sorted :=
  congrArg Styles.sorted (merge_nil_left h)

theorem chainStyles_cons {own : Styles} {owns : List Styles} (ho : own.Distinct)
    (hs : ∀ other ∈ owns, Fit .rules other) :
    chainStyles (own :: owns) = Styles.sorted (merge (chainStyles owns) own) := by
  have hrest : (mergeAll owns.reverse).Distinct :=
    (fit_iff.1 (Fit.mergeAll fun other hm => hs other (List.mem_reverse.1 hm))).1
  have hsorted : (chainStyles owns).Distinct :=
    ((mergeAll owns.reverse).sorted_perm.map _).nodup_iff.2 hrest
  have hsame : SameCascade (merge (chainStyles owns) own) (merge (mergeAll owns.reverse) own) :=
    (sameCascade_sorted hrest).merge_left ho
  rw [hsame.sorted_eq (distinct_merge hsorted ho), chainStyles, List.reverse_cons,
    mergeAll_append]
  rfl

/-- What a chain of sets gives: the nearest of its sets that declares anything at a path decides
there. -/
theorem textAt?_chainStyles {owns : List Styles} (h : ∀ own ∈ owns, Fit .rules own)
    (path : List String) :
    (chainStyles owns).textAt? path = owns.findSome? fun own => own.textAt? path := by
  have hall : Fit .rules (mergeAll owns.reverse) :=
    Fit.mergeAll fun own hm => h own (List.mem_reverse.1 hm)
  rw [chainStyles, hall.textAt?_sorted]
  clear hall
  induction owns with
  | nil => cases path <;> rfl
  | cons own rest ih =>
    have hd := List.forall_mem_cons.1 h
    have hrest : Fit .rules (mergeAll rest.reverse) :=
      Fit.mergeAll fun other hm => hd.2 other (List.mem_reverse.1 hm)
    rw [List.reverse_cons, mergeAll_append, List.foldl_cons, List.foldl_nil,
      hrest.textAt?_merge hd.1, ih hd.2, List.findSome?_cons]
    cases own.textAt? path <;> rfl

theorem fit_of_mapM_ownStyles {sets : List (StyleSet kind)} {owns : List Styles}
    (h : sets.mapM (fun member => theme.ownStyles member) = .ok owns) :
    ∀ own ∈ owns, Fit .rules own :=
  forall_of_mapM h fun _ _ => fit_of_ownStyles

namespace Lineage

variable {ancestors : List (StyleSet kind)}

theorem setStyles_toOption (h : theme.Lineage set ancestors) :
    (theme.setStyles (.inline set)).toOption =
      (((set :: ancestors).mapM fun member => theme.ownStyles member).map chainStyles).toOption := by
  induction h with
  | @root set top =>
    rw [setStyles, List.mapM_cons, List.mapM_nil]
    cases ho : theme.ownStyles set with
    | error e =>
      simp only [inlineSetStyles, ho]
      rfl
    | ok own =>
      rw [inlineSetStyles_of_root top ho, ← chainStyles_singleton (distinct_of_ownStyles ho)]
      rfl
  | @missing set parent up lost =>
    rw [setStyles, List.mapM_cons, List.mapM_nil]
    cases ho : theme.ownStyles set with
    | error e =>
      simp only [inlineSetStyles, ho]
      rfl
    | ok own =>
      rw [inlineSetStyles_of_missing up lost ho,
        ← chainStyles_singleton (distinct_of_ownStyles ho)]
      rfl
  | @extend set next parent rest up found further ih =>
    rw [setStyles, List.mapM_cons]
    cases ho : theme.ownStyles set with
    | error e =>
      simp only [inlineSetStyles, ho]
      rfl
    | ok own =>
      have hnext := (namedSetStyles_toOption found).trans ih
      simp only [inlineSetStyles, ho, up, slotStyles]
      cases hs : (next :: rest).mapM fun member => theme.ownStyles member with
      | error e =>
        rw [hs] at hnext
        cases hi : theme.namedSetStyles kind [] parent with
        | error e' => rfl
        | ok inherited =>
          rw [hi] at hnext
          cases hnext
      | ok owns =>
        rw [hs] at hnext
        cases hi : theme.namedSetStyles kind [] parent with
        | error e =>
          rw [hi] at hnext
          cases hnext
        | ok inherited =>
          rw [hi] at hnext
          cases hnext
          exact congrArg some (chainStyles_cons (distinct_of_ownStyles ho)
            (fit_of_mapM_ownStyles hs)).symm

end Lineage

theorem exists_lineage_of_inlineSetStyles {refer : String → Except ThemeError Styles}
    (hr : ∀ parent inherited next, refer parent = .ok inherited →
      (theme.sets.table kind).find? (referenceName parent) = some next →
        ∃ ancestors, theme.Lineage next ancestors)
    (h : theme.inlineSetStyles refer set = .ok styles) :
    ∃ ancestors, theme.Lineage set ancestors := by
  obtain ⟨own, inherited, -, hi, -⟩ := inlineSetStyles_eq_ok_iff.1 h
  cases up : set.parent with
  | none => exact ⟨[], .root up⟩
  | some parent =>
    rw [up] at hi
    cases found : (theme.sets.table kind).find? (referenceName parent) with
    | none => exact ⟨[], .missing up found⟩
    | some next =>
      obtain ⟨ancestors, further⟩ := hr parent inherited next hi found
      exact ⟨next :: ancestors, .extend up found further⟩

theorem exists_lineage_of_namedSetStyles (trail : Trail) (reference : String)
    (h : theme.namedSetStyles kind trail reference = .ok styles)
    (found : (theme.sets.table kind).find? (referenceName reference) = some set) :
    ∃ ancestors, theme.Lineage set ancestors := by
  fun_induction namedSetStyles theme kind trail reference generalizing styles set
  case case1 => cases h
  case case2 missing =>
    rw [missing] at found
    cases found
  case case3 other there ih =>
    rw [there] at found
    cases found
    exact exists_lineage_of_inlineSetStyles (fun parent inherited next hi hf => ih parent hi hf) h

/-- A set that extends another one is a list of two sources in cascade order, and its whole chain
laid over each other. -/
theorem extended_set_layers {parent : String} (up : set.parent = some parent) :
    (theme.setStyles (.inline set)).toOption =
      ((theme.setStyles (.list [.reference parent, .inline set.withoutParent])).map
        Styles.sorted).toOption ∧
    (∀ ancestors, theme.Lineage set ancestors → (theme.setStyles (.inline set)).toOption =
      (((set :: ancestors).mapM fun member => theme.ownStyles member).map
        chainStyles).toOption) ∧
    ∀ styles, theme.setStyles (.inline set) = .ok styles → ∃ ancestors owns,
      theme.Lineage set ancestors ∧
      (set :: ancestors).mapM (fun member => theme.ownStyles member) = .ok owns ∧
      styles = chainStyles owns ∧
      ∀ path, styles.textAt? path = owns.findSome? fun own => own.textAt? path := by
  refine ⟨setStyles_inline_eq_pair up, fun ancestors h => h.setStyles_toOption,
    fun styles h => ?_⟩
  obtain ⟨ancestors, lineage⟩ : ∃ ancestors, theme.Lineage set ancestors := by
    rw [setStyles] at h
    exact exists_lineage_of_inlineSetStyles
      (fun parent inherited next => exists_lineage_of_namedSetStyles [] parent) h
  have hchain := lineage.setStyles_toOption
  rw [h] at hchain
  cases hs : (set :: ancestors).mapM fun member => theme.ownStyles member with
  | error e =>
    rw [hs] at hchain
    cases hchain
  | ok owns =>
    rw [hs] at hchain
    cases hchain
    exact ⟨ancestors, owns, lineage, hs, rfl,
      textAt?_chainStyles (fit_of_mapM_ownStyles hs)⟩

def framed (width : Option Int) (hover : BorderProps) (parent : Option String) :
    StyleSet .border :=
  ⟨parent, { BorderProps.record.blank with edges.width := width.map fun n => .number (.integer n) },
    States.put (fun _ => none) .hover (some hover), none⟩

def frameSet : StyleSet .border :=
  framed (some 1) { BorderProps.record.blank with
    edges.width := some (.number (.integer 2))
    radius := some (.number (.integer 3)) } none

def boldFrameSet : StyleSet .border :=
  framed none { BorderProps.record.blank with edges.width := some (.number (.integer 4)) }
    (some "$$frame")

def frameTheme : Theme := { Theme.record.blank with sets.borderSets := [("frame", frameSet)] }

/-- The set wins where it declares something, also in the block of a state, and what only its
parent declares stays. -/
theorem bold_frame_over_frame : boldFrameSet.parent = some "$$frame" ∧
    ∃ styles, frameTheme.setStyles (.inline boldFrameSet) = .ok styles ∧
      styles.textAt? ["border-width"] = some "1" ∧
      styles.textAt? ["&:hover", "border-width"] = some "4" ∧
      styles.textAt? ["&:hover", "border-radius"] = some "3" := by
  have up : boldFrameSet.parent = some "$$frame" := rfl
  have found : (frameTheme.sets.table .border).find? (referenceName "$$frame") =
      some frameSet := rfl
  have hlineage : frameTheme.Lineage boldFrameSet [frameSet] := .extend up found (.root rfl)
  have howns : [boldFrameSet, frameSet].mapM (fun member => frameTheme.ownStyles member) =
      .ok [[("&:hover", .block [("border-width", .declaration "4")])],
        [("border-width", .declaration "1"),
          ("&:hover", .block [("border-width", .declaration "2"),
            ("border-radius", .declaration "3")])]] := rfl
  obtain ⟨-, hchain, -⟩ := @extended_set_layers frameTheme _ _ _ up
  have h := hchain _ hlineage
  rw [howns] at h
  cases hs : frameTheme.setStyles (.inline boldFrameSet) with
  | error e =>
    rw [hs] at h
    cases h
  | ok styles =>
    rw [hs] at h
    cases h
    exact ⟨up, _, rfl, by decide, by decide, by decide⟩

end Theme

end Theming
