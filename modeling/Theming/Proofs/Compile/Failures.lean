import Theming.Compile.Boxes
import Theming.Proofs.Variables.Cycles

/-! What can go wrong when style sets are composed: variables may have cycles, a backdrop filter may
have the wrong shape, and sets may extend each other in a cycle. -/

namespace Theming

variable {P : ThemeError → Prop} {globals : Globals} {theme : Theme}

/-- These errors include all that the values of properties can cause. -/
structure CoversValues (P : ThemeError → Prop) : Prop where
  cycle : ∀ path, P (.cycle .variables path)
  misfit : ∀ name place cause, P (.misfit name place cause)

namespace CoversValues

theorem lookupFrom (h : CoversValues P) (trail : Trail) (path : String) :
    FailsIn P (globals.lookupFrom trail path) :=
  (Globals.failsIn_lookupFrom globals trail path).mono
    fun _ ⟨_, _, he⟩ => he ▸ h.cycle _

theorem resolveWith (h : CoversValues P) {hook : Hook} (hh : ∀ value, FailsIn P (hook value))
    (text : String) : FailsIn P (globals.resolveWith hook text) :=
  failsIn_substitute (fun next _ => h.lookupFrom [] next) hh

theorem resolve (h : CoversValues P) (text : String) : FailsIn P (globals.resolve text) :=
  h.resolveWith (fun _ => .ok _) text

theorem resolveScalar (h : CoversValues P) (value : Scalar) :
    FailsIn P (Globals.resolveScalar globals value) := by
  cases value with
  | text text => exact h.resolve text
  | number n => exact .ok _
  | flag b => exact .ok _

theorem colorHook (h : CoversValues P) (allowGradient : Bool) (value : Value) :
    FailsIn P (globals.colorHook allowGradient value) := by
  unfold Globals.colorHook
  split
  · split
    · exact h.resolve _
    · exact .ok _
    · exact .ok _
  · exact .ok _

theorem resolveColor (h : CoversValues P) (allowGradient : Bool) (color : Color) :
    FailsIn P (globals.resolveColor allowGradient color) := by
  unfold Globals.resolveColor
  split
  · split
    · exact h.resolveScalar _
    · exact .ok _
  · exact h.resolveWith (h.colorHook allowGradient) _
  · exact .ok _

theorem declared (h : CoversValues P) (key : String) (value : Option Scalar) :
    FailsIn P (declared globals key value) := by
  unfold Theming.declared
  split
  · exact (h.resolveScalar _).bind fun text => .ok _
  · exact .ok []

theorem coloured (h : CoversValues P) (key : String) (allowGradient : Bool)
    (value : Option Color) : FailsIn P (coloured globals key allowGradient value) := by
  unfold Theming.coloured
  split
  · exact (h.resolveColor _ _).bind fun text => .ok _
  · exact .ok []

end CoversValues

theorem failsIn_slotStyles {α : Type} {fill : α → Except ThemeError Styles} {slot : Option α}
    (hf : ∀ a, slot = some a → FailsIn P (fill a)) : FailsIn P (slotStyles fill slot) := by
  cases slot with
  | none => exact .ok []
  | some a => exact hf a rfl

theorem failsIn_inlineSetStyles {kind : SetKind} {set : StyleSet kind}
    {refer : String → Except ThemeError Styles} (ho : FailsIn P (theme.ownStyles set))
    (hr : ∀ parent, set.parent = some parent → FailsIn P (refer parent)) :
    FailsIn P (theme.inlineSetStyles refer set) :=
  ho.bind fun _ => (failsIn_slotStyles hr).bind fun _ => .ok _

namespace CoversValues

theorem backdropFilter (h : CoversValues P) (backdrop : Backdrop) :
    FailsIn P (theme.backdropFilter backdrop) := by
  unfold Theme.backdropFilter
  split
  · exact .ok _
  · next text =>
    split
    · refine (h.lookupFrom [] _).bind fun found => ?_
      split
      · next entries =>
        cases Filter.record.readEntries entries with
        | ok filter => exact .ok filter
        | error cause => exact .error (h.misfit _ _ _)
      · exact .ok _
    · exact .ok _
  · exact .ok _

theorem backdropStyles (h : CoversValues P) (backdrop : Backdrop) :
    FailsIn P (theme.backdropStyles backdrop) :=
  (h.backdropFilter backdrop).bind fun _ => (h.declared _ _).bind fun _ =>
    (h.coloured _ _ _).bind fun _ => .ok _

theorem selectionStyles (h : CoversValues P) (selection : Selection) :
    FailsIn P (theme.selectionStyles selection) :=
  (h.coloured _ _ _).bind fun _ => (h.coloured _ _ _).bind fun _ => .ok _

theorem edgeStyles (h : CoversValues P) (stem : String) (edge : BorderEdge) :
    FailsIn P (theme.edgeStyles stem edge) :=
  (h.declared _ _).bind fun _ => (h.declared _ _).bind fun _ => (h.declared _ _).bind fun _ => .ok _

theorem propStyles (h : CoversValues P) {kind : SetKind} (props : kind.Props) :
    FailsIn P (theme.propStyles kind props) := by
  cases kind with
  | color =>
    have hbackdrop (slot : Option Backdrop) : FailsIn P (slotStyles theme.backdropStyles slot) :=
      failsIn_slotStyles fun backdrop _ => h.backdropStyles backdrop
    exact (h.declared _ _).bind fun _ => (h.coloured _ _ _).bind fun _ =>
      (h.coloured _ _ _).bind fun _ => (h.declared _ _).bind fun _ => (hbackdrop _).bind fun _ =>
      (h.coloured _ _ _).bind fun _ => (h.declared _ _).bind fun _ => (h.declared _ _).bind
      fun _ => .ok _
  | border =>
    have hside (stem : String) (slot : Option BorderEdge) :
        FailsIn P (slotStyles (theme.edgeStyles stem) slot) :=
      failsIn_slotStyles fun edge _ => h.edgeStyles stem edge
    exact (h.edgeStyles _ _).bind fun _ => (h.declared _ _).bind fun _ => (hside _ _).bind fun _ =>
      (hside _ _).bind fun _ => (hside _ _).bind fun _ => (hside _ _).bind fun _ =>
      (h.declared _ _).bind fun _ => .ok _
  | font =>
    exact (h.declared _ _).bind fun _ => (h.declared _ _).bind fun _ => (h.declared _ _).bind
      fun _ => (h.declared _ _).bind fun _ => (h.declared _ _).bind fun _ => (h.declared _ _).bind
      fun _ => (h.declared _ _).bind fun _ => (h.declared _ _).bind fun _ => .ok _

theorem stateStyles (h : CoversValues P) {kind : SetKind} (state : State)
    (props : Option kind.Props) : FailsIn P (theme.stateStyles kind state props) := by
  cases props with
  | none => exact .ok []
  | some props => exact (h.propStyles props).bind fun _ => .ok _

theorem ownStyles (h : CoversValues P) {kind : SetKind} (set : StyleSet kind) :
    FailsIn P (theme.ownStyles set) := by
  have hselection : FailsIn P (slotStyles theme.selectionStyles set.selection) :=
    failsIn_slotStyles fun selection _ => h.selectionStyles selection
  exact (h.propStyles _).bind fun _ =>
    (FailsIn.mapM fun state _ => h.stateStyles state _).bind fun _ => hselection.bind fun _ => .ok _

theorem inlineSetStyles (h : CoversValues P) {kind : SetKind} {set : StyleSet kind}
    {refer : String → Except ThemeError Styles}
    (hr : ∀ parent, set.parent = some parent → FailsIn P (refer parent)) :
    FailsIn P (theme.inlineSetStyles refer set) :=
  failsIn_inlineSetStyles (h.ownStyles set) hr

theorem pseudoElementStyles (h : CoversValues P) (element : PseudoElement) :
    FailsIn P (theme.pseudoElementStyles element) := by
  refine FailsIn.foldlM fun styles (key, value) _ => ?_
  cases value with
  | none => exact .ok _
  | some value =>
    simp only
    split
    · exact .ok _
    · exact (h.resolveScalar value).bind fun _ => .ok _

end CoversValues

structure CoversSets (P : ThemeError → Prop) : Prop extends CoversValues P where
  styleSets : ∀ path, P (.cycle .styleSets path)

theorem failsIn_namedSetStyles (h : CoversSets P) {kind : SetKind} (trail : Trail)
    (reference : String) :
    FailsIn P (theme.namedSetStyles kind trail reference) := by
  fun_induction Theme.namedSetStyles theme kind trail reference
  case case1 => exact .error (h.styleSets _)
  case case2 => exact .ok []
  case case3 ih => exact h.inlineSetStyles fun parent _ => ih parent

mutual

theorem failsIn_setStyles (h : CoversSets P) {kind : SetKind} :
    (source : Source (StyleSet kind)) → FailsIn P (theme.setStyles source)
  | .reference text => by
    rw [Theme.setStyles]
    exact failsIn_namedSetStyles h [] text
  | .inline set => by
    rw [Theme.setStyles]
    exact h.inlineSetStyles fun parent _ => failsIn_namedSetStyles h [] parent
  | .list items => by
    rw [Theme.setStyles]
    exact failsIn_setListStyles h items []
termination_by structural source => source

theorem failsIn_setListStyles (h : CoversSets P) {kind : SetKind} :
    (items : List (Source (StyleSet kind))) → (merged : Styles) →
    FailsIn P (theme.setListStyles merged items)
  | [], merged => .ok merged
  | item :: rest, merged => by
    rw [Theme.setListStyles]
    exact (failsIn_setStyles h item).bind fun _ => failsIn_setListStyles h rest _
termination_by structural items => items

end

end Theming
