import Theming.Proofs.Reading.Overlooked

/-! Slots that are unset declare nothing: the styles are the same if their entries are missing, in a
box, in a style set and in the configuration behind them. The entries of pseudo-elements are
declared even if they are unset, and so is false in the field that a gradient shows. -/

namespace Theming

open Shape

/-! All sources that cannot be read are reported alike. -/

theorem Reader.failsIn_oneOf {α : Type} (name : String) (read : Reader α) (value : Value) :
    FailsIn (· = .noAlternative name) (Reader.oneOf name read value) := by
  rw [Reader.oneOf]
  cases read value with
  | error _ => exact .error rfl
  | ok a => exact .ok a

theorem Source.failsIn_read {α : Type} (inline : Reader α) (value : Value) :
    FailsIn (· = .noAlternative "Source") (Source.read inline value) := by
  induction value using Value.inside_induct with
  | text s => exact .ok _
  | list items ih =>
    rw [Source.read, Source.readItems_eq_mapM]
    exact (FailsIn.mapM ih).map _
  | _ => exact (Reader.failsIn_oneOf "Source" inline _).map _

theorem Box.failsIn_readSource (value : Value) :
    FailsIn (· = .noAlternative "Source") (Box.readSource value) := by
  induction value using Value.inside_induct with
  | text s => exact .ok _
  | list items ih =>
    rw [Box.readSource, Box.readSources_eq_mapM]
    exact (FailsIn.mapM ih).map _
  | object entries =>
    rw [Box.readSource_object]
    cases Box.read (.object entries) with
    | error _ => exact .error rfl
    | ok box => exact .ok _
  | _ => exact .error rfl

/-- The field that a gradient shows in its place. -/
def Gradient.shown (allowGradient : Bool) (gradient : Gradient) : Option Scalar :=
  if allowGradient then gradient.definition else gradient.fallbackColor

/-! What pseudo-elements declare. -/

namespace PseudoElement

/-- The key under which an entry is declared. -/
def declaredKey (key : String) : String :=
  if key = "transitionSpeed" then "transitionDuration" else key

/-- Does the entry declare something under the key? -/
def Declares (entry : String × Option Scalar) (key : String) : Prop :=
  entry.2 ≠ none ∧ declaredKey entry.1 = key

end PseudoElement

namespace Theme

open PseudoElement

variable {theme : Theme}

def entryText (theme : Theme) (key : String) (value : Scalar) : Except ThemeError String :=
  if key = "content" then .ok ("\"" ++ value.toText ++ "\"")
  else Globals.resolveScalar theme.globals value

def putEntry (theme : Theme) (styles : Styles) (entry : String × Option Scalar) :
    Except ThemeError Styles :=
  match entry.2 with
  | none => .ok styles
  | some value => (theme.entryText entry.1 value).map fun text =>
      styles.put (declaredKey entry.1) (.declaration text)

theorem pseudoElementStyles_eq (element : PseudoElement) :
    theme.pseudoElementStyles element = element.foldlM theme.putEntry [] := by
  unfold pseudoElementStyles
  congr 1
  funext styles ⟨key, value⟩
  cases value with
  | none => rfl
  | some value =>
    by_cases hkey : key = "content"
    · subst hkey
      rfl
    · simp only [putEntry, entryText, if_neg hkey]
      cases Globals.resolveScalar theme.globals value <;> rfl

theorem find?_of_foldlM_putEntry {entries : PseudoElement} {key : String} {styles after : Styles}
    (h : entries.foldlM theme.putEntry styles = .ok after)
    (other : ∀ e ∈ entries, ¬ Declares e key) :
    Table.find? after key = Table.find? styles key := by
  refine foldlM_keeps_of_mem (P := fun s => Table.find? s key = Table.find? styles key)
    (fun e he s t hs ht => ?_) rfl h
  obtain ⟨name, value⟩ := e
  cases value with
  | none =>
    cases ht
    exact hs
  | some value =>
    obtain ⟨text, _, rfl⟩ := map_eq_ok_iff.1 ht
    have hne : key ≠ declaredKey name := fun heq => other _ he ⟨by simp, heq.symm⟩
    exact (Table.find?_put_ne s _ hne).trans hs

theorem isOk_foldlM_putEntry (entries : PseudoElement) (styles : Styles) :
    (entries.foldlM theme.putEntry styles).isOk = true ↔
      ∀ e ∈ entries, ∀ value, e.2 = some value → (theme.entryText e.1 value).isOk = true := by
  refine isOk_foldlM_iff (fun e _ styles => ?_) styles
  obtain ⟨key, value⟩ := e
  cases value with
  | none => exact iff_of_true rfl fun _ h => nomatch h
  | some value =>
    simp only [putEntry, isOk_map, Option.some.injEq, forall_eq']

/-- An entry that alone has its key is declared with its text, and only because it stands there. -/
theorem find?_pseudoElementStyles {front back : PseudoElement} {key : String} {value : Scalar}
    {styles : Styles}
    (h : theme.pseudoElementStyles (front ++ (key, some value) :: back) = .ok styles)
    (alone : ∀ e ∈ front ++ back, ¬ Declares e (declaredKey key)) :
    (∃ text, theme.entryText key value = .ok text ∧
      Table.find? styles (declaredKey key) = some (.declaration text)) ∧
    ∃ without, theme.pseudoElementStyles (front ++ back) = .ok without ∧
      Table.find? without (declaredKey key) = none := by
  rw [pseudoElementStyles_eq] at h
  constructor
  · rw [List.foldlM_append] at h
    obtain ⟨before, _, h⟩ := bind_eq_ok_iff.1 h
    rw [List.foldlM_cons] at h
    obtain ⟨here, hhere, hback⟩ := bind_eq_ok_iff.1 h
    obtain ⟨text, htext, rfl⟩ := map_eq_ok_iff.1 hhere
    refine ⟨text, htext, ?_⟩
    rw [find?_of_foldlM_putEntry hback fun e he => alone e (List.mem_append_right _ he)]
    exact Table.find?_put_self _ _ _
  · have hall := (isOk_foldlM_putEntry _ _).1 (isOk_iff.2 ⟨styles, h⟩)
    have hok : ((front ++ back).foldlM theme.putEntry []).isOk = true :=
      (isOk_foldlM_putEntry _ _).2 fun e he => hall e (by
        rcases List.mem_append.1 he with hf | hb
        · exact List.mem_append_left _ hf
        · exact List.mem_append_right _ (List.mem_cons_of_mem _ hb))
    obtain ⟨without, hwithout⟩ := isOk_iff.1 hok
    refine ⟨without, (pseudoElementStyles_eq _).trans hwithout, ?_⟩
    rw [find?_of_foldlM_putEntry hwithout alone]
    rfl

theorem resolveScalar_of_unset {globals : Globals} {value : Scalar} (h : value.isSet = false) :
    globals.resolveScalar value = .ok value.toText := by
  cases value with
  | text s =>
    have hs : s = "" := by simpa [Scalar.isSet] using h
    subst hs
    exact Globals.resolve_empty
  | number n => rfl
  | flag b => rfl

theorem coloured_gradient {globals : Globals} {allowGradient : Bool} {gradient : Gradient}
    {text : String} (key : String)
    (h : (match gradient.shown allowGradient with
      | some value => globals.resolveScalar value
      | none => .ok "") = .ok text) :
    coloured globals key allowGradient (some (.gradient gradient)) =
      .ok [(key, .declaration text)] := by
  have hcolor : globals.resolveColor allowGradient (.gradient gradient) = .ok text := h
  simp only [coloured, Option.filter, Color.isSet, if_true, hcolor]
  rfl

/-- The styles of boxes and of style sets do not change if an entry that is unset is removed from
the configuration, from the box or from the set. Two kinds of entries are declared although they
are unset: those of pseudo-elements, with the text that they have, and false in the field that a
gradient shows. -/
theorem unset_slots_leave_no_trace (theme : Theme) :
    (∀ v w : Value, v.Proper → Lacks (.record .theme) false v w → Theme.read v = .ok theme →
      ∃ other, Theme.read w = .ok other ∧
        (∀ context source, other.boxCss context source = theme.boxCss context source) ∧
        ∀ (kind : SetKind) (source : Source (StyleSet kind)),
          other.setStyles source = theme.setStyles source) ∧
    (∀ (context : BoxContext) (v w : Value), v.Proper → Lacks (.source (.record .box)) false v w →
      (Box.readSource v).map (theme.boxCss context) =
        (Box.readSource w).map (theme.boxCss context)) ∧
    (∀ (kind : SetKind) (v w : Value), v.Proper →
      Lacks (.source (.record (.set kind))) false v w →
      (Source.read (@StyleSet.read kind) v).map theme.setStyles =
        (Source.read (@StyleSet.read kind) w).map theme.setStyles) ∧
    (∀ (front back : PseudoElement) (key : String) (value : Scalar) (styles : Styles),
      key ≠ "content" → value.isSet = false →
      (∀ e ∈ front ++ back, ¬ Declares e (declaredKey key)) →
      theme.pseudoElementStyles (front ++ (key, some value) :: back) = .ok styles →
      Table.find? styles (declaredKey key) = some (.declaration value.toText) ∧
        ∃ without, theme.pseudoElementStyles (front ++ back) = .ok without ∧
          Table.find? without (declaredKey key) = none) ∧
    ∀ (key : String) (allowGradient : Bool) (gradient : Gradient),
      (gradient.shown allowGradient = some (.flag false) →
        coloured theme.globals key allowGradient (some (.gradient gradient)) =
          .ok [(key, .declaration "false")]) ∧
      (gradient.shown allowGradient = none →
        coloured theme.globals key allowGradient (some (.gradient gradient)) =
          .ok [(key, .declaration "")]) := by
  refine ⟨fun v w proper lacks hread => ?_, fun context v w proper lacks => ?_,
    fun kind v w proper lacks => ?_, fun front back key value styles hkey hunset alone h => ?_,
    fun key allowGradient gradient => ⟨fun hshown => ?_, fun hshown => ?_⟩⟩
  · have hagree := Theme.read_overlooks false v w proper lacks
    rw [hread] at hagree
    cases hother : Theme.read w with
    | error _ =>
      rw [hother] at hagree
      cases hagree
    | ok other =>
      rw [hother] at hagree
      have hbare : theme.bare = other.bare := Option.some.inj hagree
      refine ⟨other, rfl, fun context source => ?_, fun kind source => ?_⟩
      · rw [← boxCss_bare, ← hbare, boxCss_bare]
      · rw [← setStyles_bare, ← hbare, setStyles_bare]
  · refine (Box.readSource_overlooks rfl v w proper lacks).map_eq (Box.failsIn_readSource v)
      (Box.failsIn_readSource w) fun a b hab => ?_
    rw [← boxCss_bare, hab, boxCss_bare]
  · refine (Source.overlooks (StyleSet.overlooks kind) false v w proper lacks).map_eq
      (Source.failsIn_read _ v) (Source.failsIn_read _ w) fun a b hab => ?_
    rw [← setStyles_bare, hab, setStyles_bare]
  · obtain ⟨⟨text, htext, hfound⟩, without⟩ := find?_pseudoElementStyles h alone
    rw [entryText, if_neg hkey, resolveScalar_of_unset hunset] at htext
    cases htext
    exact ⟨hfound, without⟩
  · exact coloured_gradient key (by rw [hshown]; rfl)
  · exact coloured_gradient key (by rw [hshown])

def emptyColorBox : Box :=
  .mk { BoxSlots.record.blank with before := some [("color", some (.text ""))] } fun _ => none

theorem boxCss_emptyColorBox (context : BoxContext) :
    theme.boxCss context (.inline emptyColorBox) =
      .ok (some [("&::before", .block [("color", .declaration "")])]) := by
  have hinner : theme.pseudoElementStyles [("color", some (.text ""))] =
      .ok [("color", .declaration "")] := by
    have htext : theme.entryText "color" (.text "") = .ok "" := Globals.resolve_empty
    simp only [pseudoElementStyles_eq, List.foldlM_cons, putEntry, htext]
    rfl
  simp only [emptyColorBox, boxCss, sourceStyles, boxStyles, plainStyles, slotStyles, hinner]
  rfl

def boxConfig (box : List (String × Value)) : Value :=
  .object [("name", .text "T"), ("version", .text "1"),
    ("sets", .object [("boxSets", .object [("a", .object box)])])]

/-- The plain height is left out, but not the empty color of the pseudo-element. -/
theorem empty_color_declared :
    ∃ theme other, Theme.read (boxConfig [("padding", .flag false)]) = .ok theme ∧
      Theme.read (boxConfig []) = .ok other ∧
      other.boxCss .global (.reference "$$a") = theme.boxCss .global (.reference "$$a") ∧
      (Box.readSource (.object [("height", .text ""),
          ("before", .object [("color", .text "")])])).map (theme.boxCss .global) =
        .ok (.ok (some [("&::before", .block [("color", .declaration "")])])) ∧
      (Box.readSource (.object [("before", .object [])])).map (theme.boxCss .global) =
        .ok (.ok (some [("&::before", .block [])])) ∧
      (Source.read (@StyleSet.read .color)
          (.object [("background", .object [("fallbackColor", .flag false),
            ("definition", .flag false)])])).map theme.setStyles =
        .ok (.ok [("background", .declaration "false")]) := by
  obtain ⟨theme, hread⟩ : ∃ theme, Theme.read (boxConfig [("padding", .flag false)]) = .ok theme :=
    ⟨_, rfl⟩
  obtain ⟨hconfig, hbox, hset, -, -⟩ := unset_slots_leave_no_trace theme
  have hlacks : Lacks (.record .theme) false (boxConfig [("padding", .flag false)])
      (boxConfig []) := by
    have hpadding := @Lacks.entry (.record .box) false [] [] "padding" (.flag false) rfl
    exact @Lacks.inside _ _ [_, _] [] "sets" _ _ (@Lacks.inside _ _ [] [] "boxSets" _ _
      (@Lacks.inside _ _ [] [] "a" _ _ hpadding))
  have hconfigProper : (boxConfig [("padding", .flag false)]).Proper := by
    simp [boxConfig, Value.Proper, Value.ProperEntries, Table.Distinct, Table.keys]
  obtain ⟨other, hother, hcss, -⟩ := hconfig _ _ hconfigProper hlacks hread
  refine ⟨theme, other, hread, hother, hcss .global _, ?_, ?_, ?_⟩
  · refine (hbox .global _ _ ?_ (@Lacks.entry _ _ [] _ "height" _ rfl)).trans ?_
    · simp [Value.Proper, Value.ProperEntries, Table.Distinct, Table.keys]
    · exact congrArg Except.ok (boxCss_emptyColorBox .global)
  · rfl
  · refine (hset .color _ _ ?_ (@Lacks.inside _ _ [] [] "background" _ _
      (@Lacks.entry _ _ [] _ "fallbackColor" _ rfl))).trans ?_
    · simp [Value.Proper, Value.ProperEntries, Table.Distinct, Table.keys]
    · rfl

end Theme

end Theming
