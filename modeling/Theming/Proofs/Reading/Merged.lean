import Theming.Manager
import Theming.Proofs.Inheritance
import Theming.Proofs.Merging
import Theming.Proofs.Reading.Accepted

/-! What can be read on its own can still be read after merging: two values that have the shape of
a place have it together. -/

namespace Theming

namespace Shape

variable {strategy : List String → MergeStrategy}

theorem takes_list (shape : Shape) (items other : List Value) :
    shape.takes (.list items) = shape.takes (.list other) := by
  induction shape with
  | optional shape ih => exact ih
  | _ => rfl

theorem takes_object (shape : Shape) (entries other : List (String × Value)) :
    shape.takes (.object entries) = shape.takes (.object other) := by
  induction shape with
  | optional shape ih => exact ih
  | _ => rfl

theorem fits_mergeEntries {shape : Shape} {path : List String} {base overlay : Table Value}
    (hbase : ∀ e ∈ base, (shape.under e.1).Fits e.2)
    (hoverlay : ∀ e ∈ overlay, (shape.under e.1).Fits e.2)
    (hmerged : ∀ e ∈ overlay, ∀ path old, (shape.under e.1).Fits old →
      (shape.under e.1).Fits (Value.mergeAt strategy path old e.2)) :
    ∀ e ∈ Value.mergeEntries strategy path base overlay, (shape.under e.1).Fits e.2 := by
  induction overlay generalizing base with
  | nil => exact hbase
  | cons first rest ih =>
    obtain ⟨key, value⟩ := first
    -- what is put under the key is the value of the overlay, or that merged with one of the base
    rw [List.forall_mem_cons] at hoverlay hmerged
    rw [Value.mergeEntries]
    refine ih (fun e he => ?_) hoverlay.2 hmerged.2
    rcases Table.mem_put he with rfl | he
    · dsimp only
      cases hold : Table.find? base key with
      | none => exact hoverlay.1
      | some old => exact hmerged.1 _ old (hbase _ (Table.mem_of_find? hold))
    · exact hbase e he

theorem Fits.mergeAt {shape : Shape} {path : List String} {base overlay : Value}
    (hbase : shape.Fits base) (hoverlay : shape.Fits overlay) :
    shape.Fits (Value.mergeAt strategy path base overlay) := by
  induction overlay using Value.inside_induct generalizing shape path base with
  | list items ih =>
    cases hs : strategy path with
    | replace => rwa [Value.mergeAt_of_replace hs]
    | recursive =>
      cases base with
      | list old =>
        obtain ⟨htakes, hold⟩ := fits_list_iff.1 hbase
        rw [Value.mergeAt_lists hs]
        refine fits_list_iff.2 ⟨(takes_list shape _ old).trans htakes, fun item hi => ?_⟩
        exact (List.mem_append.1 hi).elim (hold item) ((fits_list_iff.1 hoverlay).2 item)
      | _ =>
        rw [Value.mergeAt_of_not_sameStructure id]
        exact hoverlay
  | object entries ih =>
    cases hs : strategy path with
    | replace => rwa [Value.mergeAt_of_replace hs]
    | recursive =>
      cases base with
      | object old =>
        obtain ⟨htakes, hold⟩ := fits_object_iff.1 hbase
        have hentries := (fits_object_iff.1 hoverlay).2
        rw [Value.mergeAt_objects hs]
        refine fits_object_iff.2 ⟨(takes_object shape _ old).trans htakes, ?_⟩
        exact fits_mergeEntries hold hentries
          fun e he path value hvalue => ih e he hvalue (hentries e he)
      | _ =>
        rw [Value.mergeAt_of_not_sameStructure id]
        exact hoverlay
  | _ => exact hoverlay

end Shape

namespace Value

theorem mem_keys_mergeEntries {strategy : List String → MergeStrategy} {path : List String}
    {base overlay : Table Value} {key : String} (h : key ∈ base.keys) :
    key ∈ (mergeEntries strategy path base overlay).keys := by
  induction overlay generalizing base with
  | nil => exact h
  | cons e rest ih =>
    rw [mergeEntries]
    refine ih ?_
    rw [Table.keys_put]
    split
    · exact h
    · exact List.mem_append_left _ h

/-- A configuration that can be read, and has lists only in their place. -/
structure IsTheme (config : Value) : Prop where
  inPlace : (Shape.record .theme).ListsInPlace config
  isOk : (Theme.ofConfig config).isOk = true

structure IsPart (raw : Value) : Prop where
  inPlace : (Shape.source (.record .box)).ListsInPlace raw
  isOk : (Part.read raw).isOk = true

theorem isTheme_iff {config : Value} : config.IsTheme ↔
    (Shape.record .theme).Fits config ∧ Theme.missingField? config = none := by
  constructor
  · rintro ⟨inPlace, isOk⟩
    rw [Theme.ofConfig, isOk_mapError] at isOk
    exact (Theme.isOk_read_iff inPlace).1 isOk
  · intro h
    refine ⟨h.1.listsInPlace, ?_⟩
    rw [Theme.ofConfig, isOk_mapError]
    exact (Theme.isOk_read_iff h.1.listsInPlace).2 h

theorem isPart_iff {raw : Value} : raw.IsPart ↔ (Shape.source (.record .box)).Fits raw :=
  ⟨fun h => (Part.accepts raw h.inPlace).1 h.isOk,
    fun h => ⟨h.listsInPlace, (Part.accepts raw h.listsInPlace).2 h⟩⟩

theorem missingField?_eq_none_iff {entries : Table Value} :
    Theme.missingField? (.object entries) = none ↔
      "name" ∈ entries.keys ∧ "version" ∈ entries.keys := by
  simp [Theme.missingField?, Table.find?_eq_none_iff]

theorem IsTheme.mergeConfigs {base overlay : Value} (hbase : base.IsTheme)
    (hoverlay : overlay.IsTheme) : (base.mergeConfigs overlay).IsTheme := by
  rw [isTheme_iff] at hbase hoverlay ⊢
  have hfits : (Shape.record .theme).Fits (base.mergeConfigs overlay) :=
    hbase.1.mergeAt hoverlay.1
  refine ⟨hfits, ?_⟩
  cases overlay with
  | object entries =>
    cases base with
    | object old =>
      -- the required keys are those of the base, which stay whatever is laid over it
      have htop : strategyFor [] = .recursive := rfl
      have hmerged : (object old).mergeConfigs (object entries) =
          object (mergeEntries strategyFor [] old entries) := mergeAt_objects htop old entries
      have hkeys := missingField?_eq_none_iff.1 hbase.2
      rw [hmerged, missingField?_eq_none_iff]
      exact hkeys.imp mem_keys_mergeEntries mem_keys_mergeEntries
    | list items => cases (Shape.fits_list_iff.1 hbase.1).1
    | _ => cases hbase.1
  | list items => cases (Shape.fits_list_iff.1 hoverlay.1).1
  | _ => cases hoverlay.1

theorem IsPart.deepMerge {base overlay : Value} (hbase : base.IsPart) (hoverlay : overlay.IsPart) :
    (base.deepMerge overlay).IsPart :=
  isPart_iff.2 ((isPart_iff.1 hbase).mergeAt (isPart_iff.1 hoverlay))

theorem IsTheme.layerChain {pool : List Value} (hpool : ∀ other ∈ pool, other.IsTheme)
    {trail : Trail} {config last : Value} {earlier : List Value} (hconfig : config.IsTheme)
    (walk : Walk pool trail config earlier last) : (layerChain earlier last).IsTheme := by
  induction walk with
  | stop => exact hconfig
  | step complete fresh follows rest ih =>
    exact (ih (hpool _ follows.mem)).mergeConfigs hconfig

/-- What is inherited is a chain of bases laid over each other. -/
theorem exists_walk_of_inherit {pool : List Value} {config merged : Value}
    (h : config.inherit pool = .ok merged) :
    ∃ earlier last, Walk pool [] config earlier last ∧ merged = layerChain earlier last := by
  obtain ⟨earlier, last, walk, event⟩ := exists_walk_to_event pool [] config
  have hwalk := walk.inheritFrom_eq
  change config.inherit pool = _ at hwalk
  rw [h] at hwalk
  obtain ⟨found, hfound, rfl⟩ := map_eq_ok_iff.1 hwalk.symm
  refine ⟨earlier, last, walk, ?_⟩
  by_cases complete : last.missingKeys = []
  · by_cases seen : last.configName ∈ [] ++ earlier.map configName
    · rw [inheritFrom_of_seen complete seen] at hfound
      cases hfound
    · have hb : last.base? pool = none := base?_eq_none_iff.2
        ((event.resolve_left (not_exists.2 (missingKeys_eq_nil_iff.1 complete))).resolve_left seen)
      rw [inheritFrom_of_no_base complete seen hb] at hfound
      cases hfound
      rfl
  · rw [inheritFrom_of_incomplete complete] at hfound
    cases hfound

end Value

theorem Part.exists_merge {base overlay : Part} (hbase : base.raw.IsPart)
    (hoverlay : overlay.raw.IsPart) :
    ∃ merged, base.merge overlay = .ok merged ∧ merged.raw.IsPart := by
  have hraw := hbase.deepMerge hoverlay
  obtain ⟨merged, hmerged⟩ := isOk_iff.1 hraw.isOk
  refine ⟨merged, hmerged, ?_⟩
  obtain ⟨source, -, rfl⟩ := map_eq_ok_iff.1 hmerged
  exact hraw

theorem Theme.isOk_mergedParts (theme : Theme) {defaults overrides : Table Part}
    (hdefaults : ∀ e ∈ defaults, e.2.raw.IsPart) (hoverrides : ∀ e ∈ overrides, e.2.raw.IsPart) :
    (theme.mergedParts defaults overrides).isOk = true := by
  have hput {parts : Table Part} (hparts : ∀ e ∈ parts, e.2.raw.IsPart) (name : String)
      {part : Part} (hpart : part.raw.IsPart) :
      ∀ e ∈ Table.put parts name part, e.2.raw.IsPart := by
    intro e he
    rcases Table.mem_put he with rfl | he
    · exact hpart
    · exact hparts e he
  rw [mergedParts, isOk_bind_pure]
  induction overrides generalizing defaults with
  | nil => rfl
  | cons first rest ih =>
    obtain ⟨name, part⟩ := first
    obtain ⟨hpart, hrest⟩ := List.forall_mem_cons.1 hoverrides
    rw [List.foldlM_cons]
    dsimp only
    cases hbase : Table.find? defaults name with
    | none => exact ih (hput hdefaults name hpart) hrest
    | some base =>
      obtain ⟨merged, hmerged, hraw⟩ :=
        Part.exists_merge (hdefaults _ (Table.mem_of_find? hbase)) hpart
      dsimp only
      rw [hmerged]
      exact ih (hput hdefaults name hraw) hrest

variable {α ρ : Type}

theorem Reader.ReadsFrom.table {read : Reader α} {shape : Shape} {table : Table α}
    (h : read.table.ReadsFrom (Shape.optional (.table shape)).ListsInPlace table) :
    ∀ e ∈ table, read.ReadsFrom shape.ListsInPlace e.2 := by
  obtain ⟨value, inPlace, hr⟩ := h
  intro e he
  cases value with
  | object entries =>
    obtain ⟨⟨key, value⟩, hentry, hr⟩ := exists_of_mapM hr e he
    obtain ⟨a, ha, rfl⟩ := map_eq_ok_iff.1 hr
    exact ⟨value, Shape.listsInPlace_object_iff.1 inPlace _ hentry, ha⟩
  | _ => cases hr

theorem Record.keeps_inPlace {record : Record ρ} {kind : RecordKind} {P : ρ → Prop}
    (blank : P record.blank)
    (fields : ∀ field ∈ record.fields, field.KeepsOn (kind.under field.key).ListsInPlace P)
    {value : Value} (inPlace : (Shape.record kind).ListsInPlace value) {result : ρ}
    (h : record.read value = .ok result) : P result := by
  cases value with
  | object entries =>
    have hentries := Shape.listsInPlace_object_iff.1 inPlace
    exact readEntries_keeps (Q := fun key => (kind.under key).ListsInPlace) blank fields hentries h
  | list items => cases (Shape.listsInPlace_list_iff.1 inPlace).1
  | _ => cases h

/-- The values behind the parts can be read, and have lists only in their place. -/
def Variant.PartsReadable (variant : Variant) : Prop := ∀ e ∈ variant.parts, e.2.raw.IsPart

structure Component.PartsReadable (component : Component) : Prop where
  default : ∀ variant, component.default = some variant → variant.PartsReadable
  variants : ∀ e ∈ component.variants, e.2.PartsReadable

theorem Variant.partsReadable {variant : Variant}
    (h : Reader.ReadsFrom Variant.record.read (Shape.record .variant).ListsInPlace variant) :
    variant.PartsReadable := by
  obtain ⟨value, inPlace, hr⟩ := h
  have hblank : Variant.record.blank.PartsReadable := fun e he => by cases he
  refine Record.keeps_inPlace hblank ?_ inPlace hr
  simp only [Variant.record, List.forall_mem_cons]
  refine ⟨Field.keepsOn_optional fun v x hk _ => hk,
    Field.keepsOn_orDefault fun v x _ hx e he => ?_,
    Field.keepsOn_optional fun v x hk _ => hk, List.forall_mem_nil _⟩
  rcases hx with rfl | hx
  · cases he
  · obtain ⟨raw, inPlace, hpart⟩ := hx.table e he
    have hraw : e.2.raw = raw := by
      obtain ⟨source, -, hpart⟩ := map_eq_ok_iff.1 hpart
      rw [← hpart]
    rw [hraw]
    exact ⟨inPlace, isOk_iff.2 ⟨_, hpart⟩⟩

theorem Component.partsReadable {component : Component}
    (h : Reader.ReadsFrom Component.record.read (Shape.record .component).ListsInPlace component) :
    component.PartsReadable := by
  obtain ⟨value, inPlace, hr⟩ := h
  have hblank : Component.record.blank.PartsReadable :=
    ⟨fun v hv => (by cases hv), fun e he => (by cases he)⟩
  refine Record.keeps_inPlace hblank ?_ inPlace hr
  simp only [Component.record, List.forall_mem_cons]
  refine ⟨Field.keepsOn_optional fun c x hk _ => ⟨hk.default, hk.variants⟩,
    Field.keepsOn_optional fun c x hk hx => ⟨fun variant hv => ?_, hk.variants⟩,
    Field.keepsOn_orDefault fun c x hk hx => ⟨hk.default, fun e he => ?_⟩,
    List.forall_mem_nil _⟩
  · obtain ⟨value, inPlace, hr⟩ := hx variant hv
    exact Variant.partsReadable ⟨value, Shape.listsInPlace_optional_iff.1 inPlace, hr⟩
  · rcases hx with rfl | hx
    · cases he
    · exact Variant.partsReadable (hx.table e he)

theorem Theme.partsReadable {config : Value} {theme : Theme} (hconfig : config.IsTheme)
    (h : Theme.ofConfig config = .ok theme) : ∀ e ∈ theme.components, e.2.PartsReadable := by
  have hblank : ∀ e ∈ Theme.record.blank.components, e.2.PartsReadable := fun e he => by cases he
  refine Record.keeps_inPlace (P := fun t => ∀ e ∈ t.components, e.2.PartsReadable) hblank ?_
    hconfig.inPlace (Theme.read_of_ofConfig h)
  simp only [Theme.record, List.forall_mem_cons]
  refine ⟨fun value t after _ hk hr => ?_, fun value t after _ hk hr => ?_,
    Field.keepsOn_optional fun t x hk _ => hk, Field.keepsOn_orDefault fun t x hk _ => hk,
    Field.keepsOn_orDefault fun t x hk _ => hk,
    Field.keepsOn_orDefault fun t x _ hx e he => ?_, Field.keepsOn_orDefault fun t x hk _ => hk,
    Field.keepsOn_optional fun t x hk _ => hk, List.forall_mem_nil _⟩
  · obtain ⟨x, -, rfl⟩ := map_eq_ok_iff.1 hr
    exact hk
  · obtain ⟨x, -, rfl⟩ := map_eq_ok_iff.1 hr
    exact hk
  · rcases hx with rfl | hx
    · cases he
    · exact Component.partsReadable (hx.table e he)

namespace Value

/-- Merging what can be read gives what can be read: configurations over those that they are based
on, and the parts of variants over those of the default variant. In a theme that has been read from
such a configuration, merging parts cannot fail. -/
theorem merging_keeps_readable :
    (∀ base overlay : Value, base.IsTheme → overlay.IsTheme →
      (base.mergeConfigs overlay).IsTheme) ∧
    (∀ (config merged : Value) (pool : List Value), config.IsTheme →
      (∀ other ∈ pool, other.IsTheme) → config.inherit pool = .ok merged → merged.IsTheme) ∧
    (∀ base overlay : Value, base.IsPart → overlay.IsPart → (base.deepMerge overlay).IsPart) ∧
    (∀ base overlay : Part, base.raw.IsPart → overlay.raw.IsPart →
      (base.merge overlay).isOk = true) ∧
    (∀ (theme : Theme) (defaults overrides : Table Part), (∀ e ∈ defaults, e.2.raw.IsPart) →
      (∀ e ∈ overrides, e.2.raw.IsPart) → (theme.mergedParts defaults overrides).isOk = true) ∧
    ∀ (config : Value) (theme : Theme), config.IsTheme → Theme.ofConfig config = .ok theme →
      ∀ c ∈ theme.components, ∀ v ∈ c.2.variants,
        (theme.mergedParts (c.2.default.elim [] Variant.parts) v.2.parts).isOk = true := by
  refine ⟨fun base overlay => IsTheme.mergeConfigs, ?_, fun base overlay => IsPart.deepMerge,
    fun base overlay hbase hoverlay => (hbase.deepMerge hoverlay).isOk,
    fun theme defaults overrides => theme.isOk_mergedParts, ?_⟩
  · intro config merged pool hconfig hpool h
    obtain ⟨earlier, last, walk, rfl⟩ := exists_walk_of_inherit h
    exact IsTheme.layerChain hpool hconfig walk
  · intro config theme hconfig h c hc v hv
    have hcomponent := Theme.partsReadable hconfig h c hc
    have hdefaults : ∀ e ∈ c.2.default.elim [] Variant.parts, e.2.raw.IsPart := by
      cases hd : c.2.default with
      | none => exact List.forall_mem_nil _
      | some variant => exact hcomponent.default variant hd
    exact theme.isOk_mergedParts hdefaults (hcomponent.variants v hv)

def carded (name : String) (basedOn : List (String × Value)) (icon flatIcon : Value) : Value :=
  let variant (icon : Value) : Value :=
    .object [("theming", .text "$$frame"), ("parts", .object [("icon", icon)])]
  .object (basedOn ++ [("name", .text name), ("version", .number (.integer 1)),
    ("globals", .object []), ("sets", .object []), ("components", .object [("Card", .object [
      ("default", variant icon), ("variants", .object [("flat", variant flatIcon)])])])])

def listedIcon : Value := .object [("colorSet", .list [.text "$$ink", .object []])]

def gradientIcon : Value := .object [("before", .object [("content", .null)]),
  ("colorSet", .object [("background", .object [("definition", .text "none")])])]

def paper : Value := carded "Paper" [] listedIcon (.text "$$flat")

def stone : Value := carded "Stone" [("basedOn", .text "Paper")] (.text "$$slab") gradientIcon

theorem stone_on_paper_reads :
    paper.IsTheme ∧ stone.IsTheme ∧ (paper.mergeConfigs stone).IsTheme ∧
    (∃ merged theme, stone.inherit [paper] = .ok merged ∧ merged.IsTheme ∧
      Theme.ofConfig merged = .ok theme ∧ ∀ c ∈ theme.components, ∀ v ∈ c.2.variants,
        (theme.mergedParts (c.2.default.elim [] Variant.parts) v.2.parts).isOk = true) ∧
    listedIcon.IsPart ∧ gradientIcon.IsPart ∧ (listedIcon.deepMerge gradientIcon).IsPart ∧
    ∃ p q, Part.read listedIcon = .ok p ∧ Part.read gradientIcon = .ok q ∧
      (p.merge q).isOk = true ∧
      (Theme.record.blank.mergedParts [("icon", p)] [("icon", q)]).isOk = true := by
  obtain ⟨configs, bases, values, parts, tables, themes⟩ := merging_keeps_readable
  have hpaper : paper.IsTheme := ⟨by decide, rfl⟩
  have hstone : stone.IsTheme := ⟨by decide, rfl⟩
  have hlisted : listedIcon.IsPart := ⟨by decide, rfl⟩
  have hgradient : gradientIcon.IsPart := ⟨by decide, rfl⟩
  have hinherit : stone.inherit [paper] = .ok (paper.mergeConfigs stone) := by
    have hbase : stone.base? [paper] = some paper := rfl
    rw [inherit, inheritFrom_of_base (by decide) (by decide) hbase,
      inheritFrom_of_no_base (by decide) (by decide) rfl]
    rfl
  have hmerged := bases stone _ [paper] hstone (List.forall_mem_singleton.2 hpaper) hinherit
  obtain ⟨theme, htheme⟩ := isOk_iff.1 hmerged.isOk
  obtain ⟨p, hp⟩ := isOk_iff.1 hlisted.isOk
  obtain ⟨q, hq⟩ := isOk_iff.1 hgradient.isOk
  obtain ⟨source, -, rfl⟩ := map_eq_ok_iff.1 hp
  obtain ⟨other, -, rfl⟩ := map_eq_ok_iff.1 hq
  refine ⟨hpaper, hstone, configs _ _ hpaper hstone,
    ⟨_, theme, hinherit, hmerged, htheme, themes _ theme hmerged htheme⟩, hlisted, hgradient,
    values _ _ hlisted hgradient, _, _, hp, hq, parts _ _ hlisted hgradient, tables _ _ _ ?_ ?_⟩
  · exact List.forall_mem_singleton.2 hlisted
  · exact List.forall_mem_singleton.2 hgradient

end Value

end Theming
