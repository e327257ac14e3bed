import Theming.Compile.Boxes
import Theming.Proofs.Reading.KeyOrder

/-! Boxes are read alike, and so have the same styles, however the keys of their objects are
ordered. Records come first, from the values of properties up to style sets. -/

namespace Theming

open Value

theorem Gradient.orderFree : Gradient.record.OrderFree where
  fields := by
    simp [Gradient.record, Field.orderFree_optional, orderFree_scalar]
  commutes := by simp [Gradient.record, Field.commutes_optional]

theorem Color.orderFree : Reader.OrderFree Color.read := by
  refine Reader.OrderFree.oneOf ?_ "ColorValue"
  exact .of_structured (Gradient.orderFree.read (by decide)) (fun _ => rfl) (fun _ => rfl)

theorem Filter.orderFree : Filter.record.OrderFree where
  fields := by
    simp [Filter.record, Field.orderFree_optional, orderFree_scalar, Color.orderFree]
  commutes := by simp [Filter.record, Field.commutes_optional]

theorem Backdrop.orderFree : Reader.OrderFree Backdrop.read := by
  refine Reader.OrderFree.oneOf ?_ "BackdropFilter"
  exact .of_structured (Filter.orderFree.read (by decide)) (fun _ => rfl) (fun _ => rfl)

theorem ColorProps.orderFree : ColorProps.record.OrderFree where
  fields := by
    simp [ColorProps.record, Field.orderFree_optional, orderFree_scalar, Color.orderFree,
      Backdrop.orderFree]
  commutes := by simp [ColorProps.record, Field.commutes_optional]

theorem Selection.orderFree : Selection.record.OrderFree where
  fields := by
    simp [Selection.record, Field.orderFree_optional, Color.orderFree]
  commutes := by simp [Selection.record, Field.commutes_optional]

theorem BorderEdge.orderFree : BorderEdge.record.OrderFree where
  fields := by
    simp [BorderEdge.record, Field.orderFree_optional, orderFree_scalar]
  commutes := by simp [BorderEdge.record, Field.commutes_optional]

theorem BorderProps.orderFree : BorderProps.record.OrderFree where
  fields := by
    have hedge : Reader.OrderFree BorderEdge.record.read := BorderEdge.orderFree.read (by decide)
    simp [BorderProps.record, Field.orderFree_optional, orderFree_scalar, hedge]
  commutes := by simp [BorderProps.record, Field.commutes_optional]

theorem FontProps.orderFree : FontProps.record.OrderFree where
  fields := by
    simp [FontProps.record, Field.orderFree_optional, orderFree_scalar]
  commutes := by simp [FontProps.record, Field.commutes_optional]

theorem SetKind.orderFree (kind : SetKind) : kind.record.OrderFree := by
  cases kind with
  | color => exact ColorProps.orderFree
  | border => exact BorderProps.orderFree
  | font => exact FontProps.orderFree

theorem SetKind.key_not_ordered (kind : SetKind) :
    ∀ field ∈ kind.record.fields, field.key ∉ orderedKeys := by
  cases kind <;> decide

theorem SetHead.orderFree (kind : SetKind) : (SetHead.record kind).OrderFree := by
  have hselection : Reader.OrderFree Selection.record.read := Selection.orderFree.read (by decide)
  refine ⟨?_, ?_⟩
  · intro field hf
    rcases List.mem_cons.1 hf with rfl | hf
    · exact Field.orderFree_optional orderFree_text
    · split at hf
      · rw [List.mem_singleton.1 hf]
        exact Field.orderFree_optional hselection
      · cases hf
  · refine List.pairwise_cons.2 ⟨fun field hf => ?_, ?_⟩
    · split at hf
      · rw [List.mem_singleton.1 hf]
        exact Field.commutes_optional fun _ _ _ => rfl
      · cases hf
    · split
      · exact List.pairwise_singleton _ _
      · exact .nil

theorem States.put_comm {α : Type} (states : States α) {s t : State} (h : s ≠ t)
    (x y : Option α) : (states.put s x).put t y = (states.put t y).put s x := by
  funext u
  unfold States.put
  by_cases hs : u = s
  · simp [hs, h]
  · simp [hs]

theorem State.key_of_ofKey? {key : String} {s : State} (h : State.ofKey? key = some s) :
    s.key = key := by
  simpa using List.find?_some h

/-- What belongs to states is read alike if it is read alike for each of them. -/
theorem States.read_reordered {α : Type} {read : Reader α} {xs zs ys : List (String × Value)}
    (distinct : Table.Distinct xs) (perm : xs.Perm zs)
    (entries : List.Forall₂
      (fun e f => e.1 = f.1 ∧ (read.optional e.2).toOption = (read.optional f.2).toOption) zs ys) :
    (States.read read xs).toOption = (States.read read ys).toOption := by
  refine (foldlM_perm perm distinct (fun states e e' hne => ?_) _).trans (foldlM_congr ?_ _)
  · obtain ⟨k, v⟩ := e
    obtain ⟨k', w⟩ := e'
    dsimp only
    cases hs : State.ofKey? k with
    | none => simp
    | some s =>
      cases ht : State.ofKey? k' with
      | none => simp
      | some t =>
        have hst : s ≠ t := by
          rintro rfl
          exact hne ((State.key_of_ofKey? hs).symm.trans (State.key_of_ofKey? ht))
        simp only [toOption_bind, toOption_map]
        cases (read.optional v).toOption <;> cases (read.optional w).toOption <;>
          simp [States.put_comm states hst]
  · refine entries.imp fun e e' he states => ?_
    obtain ⟨k, v⟩ := e
    obtain ⟨k', w⟩ := e'
    obtain ⟨hk, he⟩ := he
    cases hk
    dsimp only
    cases State.ofKey? k with
    | none => rfl
    | some s => simp only [toOption_map, he]

theorem StyleSet.orderFree {kind : SetKind} :
    Reader.OrderFree (StyleSet.read : Reader (StyleSet kind)) := by
  intro v w proper hr
  cases hr with
  | same => rfl
  | list items => rfl
  | @object xs zs ys perm entries =>
    have hentries := reorderedEntries_iff.1 entries
    have hstates : (States.read kind.record.read xs).toOption =
        (States.read kind.record.read ys).toOption := by
      have hzs : ∀ e ∈ zs, e.2.Proper := fun e he =>
        properEntries_iff.1 proper.2 e (perm.mem_iff.2 he)
      have hprops : Reader.OrderFree kind.record.read :=
        (SetKind.orderFree kind).read (SetKind.key_not_ordered kind)
      refine States.read_reordered proper.1 perm ?_
      refine ((List.forall₂_and_left zs ys).2 ⟨hzs, hentries⟩).imp fun e f h => ?_
      exact ⟨h.2.key, hprops.optional e.2 f.2 h.1 h.2.value⟩
    simp only [StyleSet.read, toOption_bind, hstates,
      (SetHead.orderFree kind).readEntries proper perm hentries,
      (SetKind.orderFree kind).readEntries proper perm hentries]

theorem Source.readItems_eq_mapM {α : Type} (inline : Reader α) (items : List Value) :
    readItems inline items = items.mapM (Source.read inline) := by
  induction items with
  | nil => rfl
  | cons item rest ih => simp [readItems, ih, pure, Except.pure]

theorem Source.orderFree {α : Type} {inline : Reader α} (h : inline.OrderFree) :
    Reader.OrderFree (Source.read inline) := by
  intro v w proper hr
  refine Reordered.induct (P := fun v w => v.Proper →
    (Source.read inline v).toOption = (Source.read inline w).toOption) ?_ ?_ ?_ hr proper
  · exact fun _ _ => rfl
  · intro xs ys items proper
    have hitems : (xs.mapM (Source.read inline)).toOption =
        (ys.mapM (Source.read inline)).toOption :=
      mapM_congr (((List.forall₂_and_left xs ys).2 ⟨properItems_iff.1 proper, items⟩).imp
        fun _ _ h => h.2.2 h.1)
    simp only [Source.read, Source.readItems_eq_mapM, toOption_map, hitems]
  · intro xs zs ys perm entries proper
    have hr : Reordered (.object xs) (.object ys) :=
      .object perm (reorderedEntries_iff.2 (entries.imp fun _ _ h => h.1))
    simp only [Source.read, toOption_map, h.oneOf "Source" _ _ proper hr]

theorem BoxSlots.orderFree : BoxSlots.record.OrderFree where
  fields := by
    have hset : ∀ {kind : SetKind},
        Reader.OrderFree (Source.read (StyleSet.read : Reader (StyleSet kind))) :=
      Source.orderFree StyleSet.orderFree
    simp only [BoxSlots.record, List.forall_mem_cons, Field.orderFree_optional, orderFree_text,
      orderFree_scalar, hset, true_and]
    exact ⟨Field.orderFree_of_ordered (by decide), Field.orderFree_of_ordered (by decide),
      List.forall_mem_nil _⟩
  commutes := by simp [BoxSlots.record, Field.commutes_optional]

namespace Box

theorem readSources_eq_mapM (items : List Value) : readSources items = items.mapM readSource := by
  induction items with
  | nil => rfl
  | cons item rest ih => simp [readSources, ih, pure, Except.pure]

theorem readStates_eq_foldlM (states : States (Source Box)) (entries : List (String × Value)) :
    readStates states entries = entries.foldlM (fun states (key, value) =>
      match State.ofKey? key with
      | some state => (Reader.optional readSource value).map (states.put state)
      | none => pure states) states := by
  induction entries generalizing states with
  | nil => simp [readStates, pure, Except.pure]
  | cons e rest ih =>
    obtain ⟨key, value⟩ := e
    rw [readStates, List.foldlM_cons]
    dsimp only
    cases State.ofKey? key with
    | none => exact ih states
    | some state =>
      cases value with
      | null => exact ih _
      | _ =>
        simp only [Value.isNull, Bool.false_eq_true, if_false, ih, Reader.optional]
        cases readSource _ <;> rfl

theorem readSource_orderFree : Reader.OrderFree readSource := by
  intro v w proper hr
  refine Reordered.induct (P := fun v w => v.Proper →
    (readSource v).toOption = (readSource w).toOption) ?_ ?_ ?_ hr proper
  · exact fun _ _ => rfl
  · intro xs ys items proper
    have hitems : (xs.mapM readSource).toOption = (ys.mapM readSource).toOption :=
      mapM_congr (((List.forall₂_and_left xs ys).2 ⟨properItems_iff.1 proper, items⟩).imp
        fun _ _ h => h.2.2 h.1)
    simp only [readSource, readSources_eq_mapM, toOption_map, hitems]
  · intro xs zs ys perm entries proper
    have hslots := BoxSlots.orderFree.readEntries proper perm (entries.imp fun _ _ h => h.1)
    have hstates : (readStates (fun _ => none) xs).toOption =
        (readStates (fun _ => none) ys).toOption := by
      have hzs : ∀ e ∈ zs, e.2.Proper := fun e he =>
        properEntries_iff.1 proper.2 e (perm.mem_iff.2 he)
      rw [readStates_eq_foldlM, readStates_eq_foldlM]
      refine States.read_reordered proper.1 perm ?_
      refine ((List.forall₂_and_left zs ys).2 ⟨hzs, entries⟩).imp fun e f h => ?_
      exact ⟨h.2.1.key, Reader.toOption_optional h.2.1.value (h.2.2 h.1)⟩
    simp only [readSource, toOption_mapError, toOption_map, toOption_bind, hslots, hstates]

end Box

namespace Theme

/-- The order of keys in a box does not show in its styles, nor in the errors of compiling it. -/
theorem boxCss_of_reordered (theme : Theme) (context : BoxContext) {v w : Value}
    (proper : v.Proper) (reordered : v.Reordered w) {a b : Source Box}
    (first : Box.readSource v = .ok a) (second : Box.readSource w = .ok b) :
    theme.boxCss context a = theme.boxCss context b := by
  have hread := Box.readSource_orderFree v w proper reordered
  rw [first, second] at hread
  rw [Option.some.inj hread]

def sizedHover : Value :=
  let number (n : Int) : Value := .number (.integer n)
  .object [("padding", number 1), ("__hover", .object [("width", number 2), ("height", number 3)])]

def reorderedHover : Value :=
  let number (n : Int) : Value := .number (.integer n)
  .object [("__hover", .object [("height", number 3), ("width", number 2)]), ("padding", number 1)]

theorem sizedHover_compiles_as_reordered :
    sizedHover.Proper ∧ sizedHover.Reordered reorderedHover ∧
    ∃ a b, Box.readSource sizedHover = .ok a ∧ Box.readSource reorderedHover = .ok b ∧
      Theme.record.blank.boxCss .global a = Theme.record.blank.boxCss .global b ∧
      Theme.record.blank.boxCss .global b = .ok (some [("padding", .declaration "1"),
        ("&:hover", .block [("height", .declaration "3"), ("width", .declaration "2")])]) := by
  have proper : sizedHover.Proper := by
    simp [sizedHover, Value.Proper, Value.ProperEntries, Table.Distinct, Table.keys]
  have reordered : sizedHover.Reordered reorderedHover := by
    have hstate : "__hover" ∉ orderedKeys := by decide
    refine .object (List.Perm.swap _ _ []) (.cons ?_ (fun h => absurd h hstate)
      (.cons (.same _) (fun _ => rfl) .nil))
    exact .object (List.Perm.swap _ _ [])
      (.cons (.same _) (fun _ => rfl) (.cons (.same _) (fun _ => rfl) .nil))
  refine ⟨proper, reordered, _, _, rfl, rfl, ?_, ?_⟩
  · exact boxCss_of_reordered _ _ proper reordered rfl rfl
  · rfl

end Theme

end Theming
