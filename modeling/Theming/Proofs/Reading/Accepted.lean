import Theming.Proofs.Reading.Shapes

/-! Reading succeeds for the values that have the shape of their place. Records are taken one by one,
up to configurations as a whole. Lists have to stand in their place, since a list of fields would
otherwise count as a record. -/

namespace Theming

open Shape

variable {α ρ : Type}

/-- Whether a value can be read shows in its shape. -/
def Reader.AcceptsAt (read : Reader α) (shape : Shape) (value : Value) : Prop :=
  shape.ListsInPlace value → ((read value).isOk = true ↔ shape.Fits value)

def Reader.Accepts (read : Reader α) (shape : Shape) : Prop := ∀ value, read.AcceptsAt shape value

theorem Reader.AcceptsAt.optional {read : Reader α} {shape : Shape} {value : Value}
    (h : read.AcceptsAt shape value) : read.optional.AcceptsAt (.optional shape) value := by
  intro inPlace
  have hinner := h (listsInPlace_optional_iff.1 inPlace)
  cases value with
  | null => exact iff_of_true rfl rfl
  | _ =>
    rw [fits_optional_iff (by simp), ← hinner, Reader.optional, isOk_map]
    simp

theorem Reader.Accepts.oneOf {read : Reader α} {shape : Shape} (h : read.Accepts shape)
    (name : String) : (Reader.oneOf name read).Accepts shape := by
  intro value inPlace
  rw [Reader.oneOf, isOk_mapError]
  exact h value inPlace

theorem accepts_text : Reader.text.Accepts .text := by
  intro value inPlace
  cases value <;> simp [Reader.text, Except.isOk, Except.toBool, Shape.Fits, Shape.takes]

theorem accepts_scalar : Reader.Accepts Scalar.read .scalar := by
  intro value inPlace
  cases value <;> simp [Scalar.read, Except.isOk, Except.toBool, Shape.Fits, Shape.takes]

theorem Reader.Accepts.table {read : Reader α} {shape : Shape} (h : read.Accepts shape) :
    read.table.Accepts (.table shape) := by
  intro value inPlace
  cases value with
  | object entries =>
    have hentries := listsInPlace_object_iff.1 inPlace
    have hread : ∀ e ∈ entries, (read e.2).isOk = true ↔ shape.Fits e.2 :=
      fun e he => h e.2 (hentries e he)
    rw [fits_object_iff, Reader.table, isOk_mapM_iff]
    simp only [isOk_map]
    exact ⟨fun hok => ⟨rfl, fun e he => (hread e he).1 (hok e he)⟩,
      fun hfits e he => (hread e he).2 (hfits.2 e he)⟩
  | _ => simp [Reader.table, Except.isOk, Except.toBool, Shape.Fits, Shape.takes]

def Field.Accepts (field : Field ρ) (shape : Shape) : Prop :=
  ∀ value record, shape.ListsInPlace value →
    ((field.read value record).isOk = true ↔ shape.Fits value)

theorem Field.accepts_optional {key : String} {read : Reader α} {set : ρ → Option α → ρ}
    {shape : Shape} (h : read.Accepts shape) :
    (Field.optional key read set).Accepts (.optional shape) := by
  intro value record inPlace
  rw [Field.optional, isOk_map]
  exact (h value).optional inPlace

theorem Field.accepts_orDefault {key : String} {read : Reader α} {default : α} {set : ρ → α → ρ}
    {shape : Shape} (h : read.Accepts shape) :
    (Field.orDefault key read default set).Accepts (.optional shape) := by
  intro value record inPlace
  rw [Field.orDefault, isOk_map, Reader.orDefault, isOk_map]
  exact (h value).optional inPlace

theorem Field.accepts_free {field : Field ρ}
    (h : ∀ value record, (field.read value record).isOk = true) : field.Accepts .free :=
  fun value record _ => iff_of_true (h value record) (fits_free value)

/-- The entries of a record are read if those fit that belong to its fields. -/
theorem Record.isOk_readEntries_iff {record : Record ρ} {under : String → Shape}
    (fields : ∀ field ∈ record.fields, field.Accepts (under field.key))
    {entries : List (String × Value)} (inPlace : ∀ e ∈ entries, (under e.1).ListsInPlace e.2) :
    (record.readEntries entries).isOk = true ↔
      ∀ e ∈ entries, e.1 ∈ record.fields.map Field.key → (under e.1).Fits e.2 := by
  refine isOk_foldlM_iff (fun e he result => ?_) record.blank
  obtain ⟨key, value⟩ := e
  dsimp only
  cases hf : record.fields.find? (fun field => field.key == key) with
  | none =>
    have hkey : key ∉ record.fields.map Field.key := by
      intro hm
      obtain ⟨field, hfield, rfl⟩ := List.mem_map.1 hm
      simpa using List.find?_eq_none.1 hf field hfield
    exact iff_of_true rfl fun hm => absurd hm hkey
  | some field =>
    have hfield : field ∈ record.fields := List.mem_of_find?_eq_some hf
    have hkey : field.key = key := by simpa using List.find?_some hf
    subst hkey
    rw [fields field hfield value result (inPlace _ he)]
    exact ⟨fun h _ => h, fun h => h (List.mem_map_of_mem hfield)⟩

theorem RecordKind.under_of_not_mem {kind : RecordKind} {key : String}
    (h : key ∉ Table.keys kind.fields) : kind.under key = .free := by
  rw [under, Table.find?_eq_none_iff.2 h]
  rfl

structure Record.Describes (record : Record ρ) (kind : RecordKind) : Prop where
  keys : record.fields.map Field.key = Table.keys kind.fields
  fields : ∀ field ∈ record.fields, field.Accepts (kind.under field.key)

theorem Record.Describes.isOk_readEntries_iff {record : Record ρ} {kind : RecordKind}
    (h : record.Describes kind) {entries : List (String × Value)}
    (inPlace : ∀ e ∈ entries, (kind.under e.1).ListsInPlace e.2) :
    (record.readEntries entries).isOk = true ↔ ∀ e ∈ entries, (kind.under e.1).Fits e.2 := by
  rw [Record.isOk_readEntries_iff h.fields inPlace]
  refine forall₂_congr fun e _ => ⟨fun hfits => ?_, fun hfits _ => hfits⟩
  by_cases hkey : e.1 ∈ record.fields.map Field.key
  · exact hfits hkey
  · rw [RecordKind.under_of_not_mem (h.keys ▸ hkey)]
    exact fits_free e.2

theorem Record.Describes.accepts {record : Record ρ} {kind : RecordKind}
    (h : record.Describes kind) : Reader.Accepts record.read (.record kind) := by
  intro value inPlace
  cases value with
  | object entries =>
    have hentries := h.isOk_readEntries_iff (listsInPlace_object_iff.1 inPlace)
    rw [fits_object_iff_of_takes rfl]
    exact hentries
  -- a list of fields is read as a record, but would be out of place here
  | list items => cases (listsInPlace_list_iff.1 inPlace).1
  | _ => simp [Record.read, Except.isOk, Except.toBool, Shape.Fits, Shape.takes]

theorem Gradient.describes : Gradient.record.Describes .gradient where
  keys := rfl
  fields := by
    simp only [Gradient.record, List.forall_mem_cons]
    exact ⟨Field.accepts_optional accepts_scalar, Field.accepts_optional accepts_scalar,
      List.forall_mem_nil _⟩

theorem Record.Describes.accepts_orScalar {record : Record ρ} {kind : RecordKind} {shape : Shape}
    (h : record.Describes kind) (f : Scalar → α) (g : ρ → α) (under : shape.under = kind.under)
    (takes : ∀ value, shape.takes value = (scalar.takes value || (Shape.record kind).takes value)) :
    Reader.Accepts (fun value => match value with
      | .object _ | .list _ => (record.read value).map g
      | _ => (Scalar.read value).map f) shape := by
  intro value inPlace
  have hscalar := accepts_scalar value
  cases value with
  | object entries =>
    have hentries := listsInPlace_object_iff.1 inPlace
    rw [under] at hentries
    have htakes : shape.takes (.object entries) = true := takes _
    rw [isOk_map, fits_object_iff_of_takes htakes, under]
    exact h.isOk_readEntries_iff hentries
  | list items =>
    have htakes := (listsInPlace_list_iff.1 inPlace).1
    rw [takes] at htakes
    cases htakes
  | _ =>
    rw [isOk_map, hscalar trivial]
    simp [Shape.Fits, takes, Shape.takes]

theorem Color.accepts : Reader.Accepts Color.read .color :=
  (Gradient.describes.accepts_orScalar Color.plain Color.gradient rfl
    fun value => by cases value <;> rfl).oneOf "ColorValue"

theorem Filter.describes : Filter.record.Describes .filter where
  keys := rfl
  fields := by
    simp only [Filter.record, List.forall_mem_cons]
    exact ⟨Field.accepts_optional accepts_scalar, Field.accepts_optional Color.accepts,
      List.forall_mem_nil _⟩

theorem Backdrop.accepts : Reader.Accepts Backdrop.read .backdrop :=
  (Filter.describes.accepts_orScalar Backdrop.plain Backdrop.filter rfl
    fun value => by cases value <;> rfl).oneOf "BackdropFilter"

theorem Selection.describes : Selection.record.Describes .selection where
  keys := rfl
  fields := by
    simp only [Selection.record, List.forall_mem_cons]
    exact ⟨Field.accepts_optional Color.accepts, Field.accepts_optional Color.accepts,
      List.forall_mem_nil _⟩

theorem BorderEdge.describes : BorderEdge.record.Describes .edge where
  keys := rfl
  fields := by
    simp only [BorderEdge.record, List.forall_mem_cons]
    exact ⟨Field.accepts_optional accepts_scalar, Field.accepts_optional accepts_scalar,
      Field.accepts_optional accepts_scalar, List.forall_mem_nil _⟩

theorem SetKind.describes (kind : SetKind) : kind.record.Describes (.props kind) where
  keys := by cases kind <;> rfl
  fields := by
    have hscalar {ρ : Type} {key : String} {set : ρ → Option Scalar → ρ} :
        (Field.optional key Scalar.read set).Accepts (.optional .scalar) :=
      Field.accepts_optional accepts_scalar
    have hcolor {ρ : Type} {key : String} {set : ρ → Option Color → ρ} :
        (Field.optional key Color.read set).Accepts (.optional .color) :=
      Field.accepts_optional Color.accepts
    have hedge {ρ : Type} {key : String} {set : ρ → Option BorderEdge → ρ} :
        (Field.optional key BorderEdge.record.read set).Accepts (.optional (.record .edge)) :=
      Field.accepts_optional BorderEdge.describes.accepts
    cases kind with
    | color =>
      simp only [SetKind.record, ColorProps.record, List.forall_mem_cons]
      exact ⟨hscalar, hcolor, hcolor, hscalar, Field.accepts_optional Backdrop.accepts, hcolor,
        hscalar, hscalar, List.forall_mem_nil _⟩
    | border =>
      simp only [SetKind.record, BorderProps.record, List.forall_mem_cons]
      exact ⟨hscalar, hscalar, hscalar, hscalar, hedge, hedge, hedge, hedge, hscalar,
        List.forall_mem_nil _⟩
    | font =>
      simp only [SetKind.record, FontProps.record, List.forall_mem_cons]
      exact ⟨hscalar, hscalar, hscalar, hscalar, hscalar, hscalar, hscalar, hscalar,
        List.forall_mem_nil _⟩

theorem State.ofKey?_eq_none_iff {key : String} :
    State.ofKey? key = none ↔ ∀ state : State, state.key ≠ key := by
  rw [State.ofKey?, List.find?_eq_none]
  exact ⟨fun h state => by simpa using h state (State.mem_setOrder state),
    fun h state _ => by simpa using h state⟩

theorem States.isOk_read_iff (read : Reader α) {under : String → Shape} {shape : Shape}
    {entries : List (String × Value)} (states : ∀ state : State, under state.key = .optional shape)
    (h : ∀ e ∈ entries, read.AcceptsAt shape e.2)
    (inPlace : ∀ e ∈ entries, (under e.1).ListsInPlace e.2) :
    (States.read read entries).isOk = true ↔
      ∀ e ∈ entries, State.ofKey? e.1 ≠ none → (under e.1).Fits e.2 := by
  refine isOk_foldlM_iff (fun e he result => ?_) _
  obtain ⟨key, value⟩ := e
  dsimp only
  cases hs : State.ofKey? key with
  | none => exact iff_of_true rfl fun hne => absurd rfl hne
  | some state =>
    have hkey : state.key = key := State.key_of_ofKey? hs
    have hvalue := inPlace _ he
    dsimp only at hvalue ⊢
    rw [← hkey, states] at hvalue ⊢
    rw [isOk_map, (h _ he).optional hvalue]
    exact ⟨fun hfits _ => hfits, fun hfits => hfits (by simp)⟩

/-- In a record with fields for states, the other fields and the states can be looked at one after
the other. -/
theorem RecordKind.forall_fits_iff {kind : RecordKind} {plain : List (String × Shape)}
    {shape : Shape} (fields : kind.fields = plain ++ stateFields shape)
    (entries : List (String × Value)) :
    (∀ e ∈ entries, (kind.under e.1).Fits e.2) ↔
      (∀ e ∈ entries, e.1 ∈ Table.keys plain → (kind.under e.1).Fits e.2) ∧
      ∀ e ∈ entries, State.ofKey? e.1 ≠ none → (kind.under e.1).Fits e.2 := by
  refine ⟨fun h => ⟨fun e he _ => h e he, fun e he _ => h e he⟩, fun h e he => ?_⟩
  by_cases hplain : e.1 ∈ Table.keys plain
  · exact h.1 e he hplain
  · by_cases hstate : State.ofKey? e.1 = none
    · have hkey : e.1 ∉ Table.keys kind.fields := by
        have hnone := State.ofKey?_eq_none_iff.1 hstate
        simp only [Table.keys] at hplain ⊢
        simp only [fields, stateFields, List.map_append, List.map_map, List.mem_append, not_or]
        refine ⟨hplain, fun hm => ?_⟩
        obtain ⟨state, -, hk⟩ := List.mem_map.1 hm
        exact hnone state hk
      rw [under_of_not_mem hkey]
      exact fits_free e.2
    · exact h.2 e he hstate

namespace StyleSet

theorem head_accepts (kind : SetKind) : ∀ field ∈ (SetHead.record kind).fields,
    field.Accepts ((RecordKind.set kind).under field.key) := by
  have hparent {set : SetHead → Option String → SetHead} :
      (Field.optional "__extends" Reader.text set).Accepts (.optional .text) :=
    Field.accepts_optional accepts_text
  cases kind with
  | color =>
    simp only [SetHead.record, if_true, List.forall_mem_cons]
    exact ⟨hparent, Field.accepts_optional Selection.describes.accepts, List.forall_mem_nil _⟩
  | border =>
    simp only [SetHead.record, reduceCtorEq, if_false, List.forall_mem_cons]
    exact ⟨hparent, List.forall_mem_nil _⟩
  | font =>
    simp only [SetHead.record, reduceCtorEq, if_false, List.forall_mem_cons]
    exact ⟨hparent, List.forall_mem_nil _⟩

theorem keys_head (kind : SetKind) : (SetHead.record kind).fields.map Field.key =
    Table.keys (RecordKind.headFields kind) := by
  cases kind <;> rfl

theorem under_prop (kind : SetKind) : ∀ key ∈ Table.keys (RecordKind.propFields kind),
    (RecordKind.set kind).under key = (RecordKind.props kind).under key := by
  cases kind <;> decide

theorem under_state (kind : SetKind) (state : State) :
    (RecordKind.set kind).under state.key = .optional (.record (.props kind)) := by
  cases kind <;> cases state <;> rfl

theorem accepts (kind : SetKind) :
    Reader.Accepts (StyleSet.read : Reader (StyleSet kind)) (.record (.set kind)) := by
  intro value inPlace
  cases value with
  | object entries =>
    have hentries := listsInPlace_object_iff.1 inPlace
    have hprops : ∀ field ∈ kind.record.fields,
        field.Accepts ((RecordKind.set kind).under field.key) := by
      intro field hf
      have hkey : field.key ∈ Table.keys (RecordKind.propFields kind) :=
        (SetKind.describes kind).keys ▸ List.mem_map_of_mem hf
      rw [under_prop kind _ hkey]
      exact (SetKind.describes kind).fields field hf
    have hhead := Record.isOk_readEntries_iff (head_accepts kind) hentries
    have hbase := Record.isOk_readEntries_iff hprops hentries
    have hstates := States.isOk_read_iff kind.record.read (under_state kind)
      (fun e _ => (SetKind.describes kind).accepts e.2) hentries
    have hread : (StyleSet.read (.object entries) : Except Misfit (StyleSet kind)).isOk = true ↔
        ((SetHead.record kind).readEntries entries).isOk = true ∧
        (kind.record.readEntries entries).isOk = true ∧
        (States.read kind.record.read entries).isOk = true :=
      isOk_bind_iff fun head => isOk_bind_iff fun base => by rw [isOk_bind_pure]
    -- all three readers go through the same entries, and each looks at its own keys
    have hfields : (RecordKind.set kind).fields =
        (RecordKind.headFields kind ++ RecordKind.propFields kind) ++
          RecordKind.stateFields (.record (.props kind)) := rfl
    have hall := RecordKind.forall_fits_iff hfields entries
    rw [keys_head] at hhead
    rw [(SetKind.describes kind).keys] at hbase
    rw [hread, hhead, hbase, hstates, fits_object_iff_of_takes rfl]
    constructor
    · rintro ⟨hh, hb, hs⟩
      refine hall.2 ⟨fun e he hk => ?_, hs⟩
      rw [Table.keys, List.map_append, List.mem_append] at hk
      exact hk.elim (hh e he) (hb e he)
    · intro h
      exact ⟨fun e he _ => h e he, fun e he _ => h e he, (hall.1 h).2⟩
  | list items => cases (listsInPlace_list_iff.1 inPlace).1
  | _ => simp [StyleSet.read, Except.isOk, Except.toBool, Shape.Fits, Shape.takes]

end StyleSet

theorem Source.accepts {inline : Reader α} {kind : RecordKind}
    (h : inline.Accepts (.record kind)) :
    Reader.Accepts (Source.read inline) (.source (.record kind)) := by
  intro value inPlace
  induction value using Value.inside_induct with
  | list items ih =>
    have hitems := (listsInPlace_list_iff.1 inPlace).2
    rw [Source.read, isOk_map, Source.readItems_eq_mapM, isOk_mapM_iff, fits_list_iff]
    exact ⟨fun hok => ⟨rfl, fun item hi => (ih item hi (hitems item hi)).1 (hok item hi)⟩,
      fun hfits item hi => (ih item hi (hitems item hi)).2 (hfits.2 item hi)⟩
  | object entries ih =>
    have hinline := h.oneOf "Source" (.object entries) (by
      rw [listsInPlace_object_iff] at inPlace ⊢
      exact inPlace)
    rw [Source.read, isOk_map, hinline, fits_object_iff, fits_object_iff]
    · rfl
    · simp
    · simp
  | text s => exact iff_of_true rfl rfl
  -- what is neither a reference nor a list is left to the definition, which takes objects only
  | _ =>
    rw [Source.read, isOk_map, h.oneOf "Source"]
    · rfl
    · trivial
    · simp
    · simp

theorem BoxSlots.keys : BoxSlots.record.fields.map Field.key =
    Table.keys RecordKind.slotFields := rfl

theorem BoxSlots.accepts : ∀ field ∈ BoxSlots.record.fields,
    field.Accepts (RecordKind.box.under field.key) := by
  have hset {kind : SetKind} {key : String}
      {set : BoxSlots → Option (Source (StyleSet kind)) → BoxSlots} :
      (Field.optional key (Source.read StyleSet.read) set).Accepts
        (.optional (.source (.record (.set kind)))) :=
    Field.accepts_optional (Source.accepts (StyleSet.accepts kind))
  have hscalar {key : String} {set : BoxSlots → Option Scalar → BoxSlots} :
      (Field.optional key Scalar.read set).Accepts (.optional .scalar) :=
    Field.accepts_optional accepts_scalar
  have hpseudo {key : String} {set : BoxSlots → Option PseudoElement → BoxSlots} :
      (Field.optional key (Reader.table (Reader.optional Scalar.read)) set).Accepts
        (.optional (.table (.optional .scalar))) :=
    Field.accepts_optional (Reader.Accepts.table fun value => (accepts_scalar value).optional)
  simp only [BoxSlots.record, List.forall_mem_cons]
  exact ⟨Field.accepts_optional accepts_text, hset, hset, hset, hscalar, hscalar, hscalar, hscalar,
    hpseudo, hpseudo, List.forall_mem_nil _⟩

namespace Box

theorem under_state (state : State) :
    RecordKind.box.under state.key = .optional (.source (.record .box)) := by
  cases state <;> rfl

theorem isOk_entries_iff {entries : List (String × Value)}
    (inPlace : ∀ e ∈ entries, (RecordKind.box.under e.1).ListsInPlace e.2)
    (sources : ∀ e ∈ entries, Reader.AcceptsAt readSource (.source (.record .box)) e.2) :
    ((do
      let slots ← BoxSlots.record.readEntries entries
      return mk slots (← readStates (fun _ => none) entries) : Except Misfit Box)).isOk = true ↔
      ∀ e ∈ entries, (RecordKind.box.under e.1).Fits e.2 := by
  have hslots := Record.isOk_readEntries_iff BoxSlots.accepts inPlace
  have hstates : (readStates (fun _ => none) entries).isOk = true ↔
      ∀ e ∈ entries, State.ofKey? e.1 ≠ none → (RecordKind.box.under e.1).Fits e.2 := by
    rw [readStates_eq_foldlM]
    exact States.isOk_read_iff readSource under_state sources inPlace
  have hfields : RecordKind.box.fields =
      RecordKind.slotFields ++ RecordKind.stateFields (.source (.record .box)) := rfl
  rw [RecordKind.forall_fits_iff hfields, ← hstates, ← BoxSlots.keys, ← hslots]
  exact isOk_bind_iff fun slots => by rw [isOk_bind_pure]

theorem readSource_accepts : Reader.Accepts readSource (.source (.record .box)) := by
  intro value
  induction value using Value.inside_induct with
  | list items ih =>
    intro inPlace
    have hitems := (listsInPlace_list_iff.1 inPlace).2
    rw [readSource, isOk_map, readSources_eq_mapM, isOk_mapM_iff, fits_list_iff]
    exact ⟨fun hok => ⟨rfl, fun item hi => (ih item hi (hitems item hi)).1 (hok item hi)⟩,
      fun hfits item hi => (ih item hi (hitems item hi)).2 (hfits.2 item hi)⟩
  | object entries ih =>
    intro inPlace
    have hentries := isOk_entries_iff (listsInPlace_object_iff.1 inPlace) ih
    rw [readSource, isOk_mapError, isOk_map]
    rw [fits_object_iff_of_takes rfl]
    exact hentries
  | text s => exact fun _ => iff_of_true rfl rfl
  | _ => simp [Reader.AcceptsAt, readSource, Except.isOk, Except.toBool, Shape.Fits, Shape.takes]

theorem accepts : Reader.Accepts Box.read (.record .box) := by
  intro value inPlace
  cases value with
  | object entries =>
    have hentries := isOk_entries_iff (listsInPlace_object_iff.1 inPlace)
      fun e _ => readSource_accepts e.2
    rw [fits_object_iff_of_takes rfl]
    exact hentries
  | list items => cases (listsInPlace_list_iff.1 inPlace).1
  | _ => simp [Box.read, Except.isOk, Except.toBool, Shape.Fits, Shape.takes]

end Box

theorem Part.accepts : Reader.Accepts Part.read (.source (.record .box)) := by
  intro value inPlace
  rw [Part.read, isOk_map]
  exact Box.readSource_accepts value inPlace

theorem Variant.describes : Variant.record.Describes .variant where
  keys := rfl
  fields := by
    have hprops : (Field.optional "defaultProps" Except.ok
        fun (v : Variant) x => { v with defaultProps := x }).Accepts .free :=
      Field.accepts_free fun value _ => by cases value <;> rfl
    simp only [Variant.record, List.forall_mem_cons]
    exact ⟨Field.accepts_optional Box.readSource_accepts,
      Field.accepts_orDefault Part.accepts.table, hprops, List.forall_mem_nil _⟩

theorem Component.describes : Component.record.Describes .component where
  keys := rfl
  fields := by
    simp only [Component.record, List.forall_mem_cons]
    exact ⟨Field.accepts_optional accepts_text,
      Field.accepts_optional Variant.describes.accepts,
      Field.accepts_orDefault Variant.describes.accepts.table, List.forall_mem_nil _⟩

theorem Sets.describes : Sets.record.Describes .sets where
  keys := rfl
  fields := by
    simp only [Sets.record, List.forall_mem_cons]
    exact ⟨Field.accepts_orDefault (StyleSet.accepts .color).table,
      Field.accepts_orDefault (StyleSet.accepts .border).table,
      Field.accepts_orDefault (StyleSet.accepts .font).table,
      Field.accepts_orDefault Box.accepts.table, List.forall_mem_nil _⟩

theorem Assets.describes : Assets.record.Describes .assets where
  keys := rfl
  fields := by
    simp only [Assets.record, List.forall_mem_cons]
    exact ⟨Field.accepts_optional accepts_text, List.forall_mem_nil _⟩

namespace Theme

theorem describes : Theme.record.Describes .theme where
  keys := rfl
  fields := by
    have hfree {key : String} {set : Theme → Value → Theme} :
        (Field.orDefault key Except.ok .null set).Accepts .free :=
      Field.accepts_free fun value _ => by cases value <;> rfl
    simp only [Theme.record, List.forall_mem_cons]
    refine ⟨fun value record inPlace => ?_, fun value record inPlace => ?_,
      Field.accepts_optional accepts_text, hfree, Field.accepts_orDefault Sets.describes.accepts,
      Field.accepts_orDefault Component.describes.accepts.table, hfree,
      Field.accepts_optional Assets.describes.accepts, List.forall_mem_nil _⟩
    · rw [isOk_map]
      exact accepts_text value inPlace
    · rw [isOk_map]
      exact accepts_scalar value inPlace

theorem isOk_read_iff {value : Value} (inPlace : (Shape.record .theme).ListsInPlace value) :
    (Theme.read value).isOk = true ↔
      (Shape.record .theme).Fits value ∧ Theme.missingField? value = none := by
  rw [← describes.accepts value inPlace, Theme.read]
  refine isOk_bind_iff fun theme => ?_
  cases missingField? value with
  | none => exact iff_of_true rfl rfl
  | some key => exact iff_of_false (fun h => by cases h) (fun h => by cases h)

end Theme

end Theming
