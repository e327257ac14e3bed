import Theming.Manager
import Theming.Proofs.Success

/-! Data in which no object has a key twice, and the themes that are read from such data: all their
tables of variants and parts have distinct keys. -/

namespace Theming

namespace Value

mutual

/-- No object in the value has a key twice. -/
def Proper : Value → Prop
  | .list items => ProperItems items
  | .object entries => Table.Distinct entries ∧ ProperEntries entries
  | .null | .flag _ | .number _ | .text _ => True
termination_by structural value => value

def ProperItems : List Value → Prop
  | [] => True
  | item :: rest => Proper item ∧ ProperItems rest
termination_by structural items => items

def ProperEntries : List (String × Value) → Prop
  | [] => True
  | (_, value) :: rest => Proper value ∧ ProperEntries rest
termination_by structural entries => entries

end

theorem properItems_iff {items : List Value} :
    ProperItems items ↔ ∀ item ∈ items, item.Proper := by
  induction items with
  | nil => simp [ProperItems]
  | cons item rest ih => simp [ProperItems, ih]

theorem properEntries_iff {entries : List (String × Value)} :
    ProperEntries entries ↔ ∀ e ∈ entries, e.2.Proper := by
  induction entries with
  | nil => simp [ProperEntries]
  | cons e rest ih => simp [ProperEntries, ih]

end Value

variable {α ρ : Type}

/-- Something that has been read from a value with some property. -/
def Reader.ReadsFrom (read : Reader α) (Q : Value → Prop) (a : α) : Prop :=
  ∃ value, Q value ∧ read value = .ok a

def Reader.Reads (read : Reader α) (a : α) : Prop :=
  ∃ value : Value, value.Proper ∧ read value = .ok a

theorem Reader.optional_eq_ok {read : Reader α} {value : Value} {x : Option α}
    (h : read.optional value = .ok x) : x = none ∨ ∃ a, x = some a ∧ read value = .ok a := by
  cases value with
  | null =>
    cases h
    exact .inl rfl
  | _ =>
    obtain ⟨a, hr, rfl⟩ := map_eq_ok_iff.1 h
    exact .inr ⟨a, rfl, hr⟩

/-- The keys of a table are those of the object that it is read from. -/
theorem Reader.table_eq_ok {read : Reader α} {value : Value} {table : Table α}
    (proper : value.Proper) (h : read.table value = .ok table) :
    table.Distinct ∧ ∀ e ∈ table, read.Reads e.2 := by
  cases value with
  | object entries =>
    have hentries := Value.properEntries_iff.1 proper.2
    have hall : List.Forall₂ (fun (e : String × Value) (f : String × α) =>
        f.1 = e.1 ∧ read e.2 = .ok f.2) entries table := by
      refine (mapM_eq_ok_iff.1 h).imp fun e f hf => ?_
      obtain ⟨a, hr, rfl⟩ := map_eq_ok_iff.1 hf
      exact ⟨rfl, hr⟩
    have hkeys : table.keys = Table.keys entries := by
      clear h proper hentries
      induction hall with
      | nil => rfl
      | cons hf _ ih => simpa [Table.keys] using ⟨hf.1, by simpa [Table.keys] using ih⟩
    refine ⟨?_, fun f hf => ?_⟩
    · unfold Table.Distinct
      rw [hkeys]
      exact proper.1
    · obtain ⟨⟨key, value⟩, he, hr⟩ := exists_of_mapM h f hf
      obtain ⟨a, ha, rfl⟩ := map_eq_ok_iff.1 hr
      exact ⟨value, hentries _ he, ha⟩
  | _ => cases h

/-- Reading values with some property into a field keeps what is known of the record. -/
def Field.KeepsOn (field : Field ρ) (Q : Value → Prop) (P : ρ → Prop) : Prop :=
  ∀ value record record', Q value → P record → field.read value record = .ok record' → P record'

theorem Field.keepsOn_optional {P : ρ → Prop} {Q : Value → Prop} {key : String} {read : Reader α}
    {set : ρ → Option α → ρ}
    (h : ∀ record x, P record → (∀ a, x = some a → read.ReadsFrom Q a) → P (set record x)) :
    (Field.optional key read set).KeepsOn Q P := by
  intro value record record' hq hk hr
  obtain ⟨x, hx, rfl⟩ := map_eq_ok_iff.1 hr
  refine h record x hk fun a ha => ?_
  rcases Reader.optional_eq_ok hx with rfl | ⟨b, rfl, hb⟩
  · cases ha
  · cases ha
    exact ⟨value, hq, hb⟩

theorem Field.keepsOn_orDefault {P : ρ → Prop} {Q : Value → Prop} {key : String} {read : Reader α}
    {default : α} {set : ρ → α → ρ}
    (h : ∀ record x, P record → x = default ∨ read.ReadsFrom Q x → P (set record x)) :
    (Field.orDefault key read default set).KeepsOn Q P := by
  intro value record record' hq hk hr
  obtain ⟨_, hd, rfl⟩ := map_eq_ok_iff.1 hr
  obtain ⟨x, hx, rfl⟩ := map_eq_ok_iff.1 hd
  refine h record _ hk ?_
  rcases Reader.optional_eq_ok hx with rfl | ⟨b, rfl, hb⟩
  · exact .inl rfl
  · exact .inr ⟨value, hq, hb⟩

theorem Record.readEntries_keeps {record : Record ρ} {P : ρ → Prop} {Q : String → Value → Prop}
    (blank : P record.blank) (hf : ∀ field ∈ record.fields, field.KeepsOn (Q field.key) P)
    {entries : List (String × Value)} (hentries : ∀ e ∈ entries, Q e.1 e.2) {result : ρ}
    (h : record.readEntries entries = .ok result) : P result := by
  refine foldlM_keeps_of_mem (fun e he before after hk hn => ?_) blank h
  obtain ⟨key, value⟩ := e
  dsimp only at hn
  split at hn
  · next field hfield =>
    have hkey : field.key = key := by simpa using List.find?_some hfield
    have hvalue : Q field.key value := hkey ▸ hentries _ he
    exact hf field (List.mem_of_find?_eq_some hfield) value before after hvalue hk hn
  · cases hn
    exact hk

def Field.Keeps (field : Field ρ) (P : ρ → Prop) : Prop :=
  ∀ value record record', value.Proper → P record → field.read value record = .ok record' →
    P record'

theorem Field.keeps_optional {P : ρ → Prop} {key : String} {read : Reader α}
    {set : ρ → Option α → ρ}
    (h : ∀ record x, P record → (∀ a, x = some a → read.Reads a) → P (set record x)) :
    (Field.optional key read set).Keeps P :=
  Field.keepsOn_optional h

theorem Field.keeps_orDefault {P : ρ → Prop} {key : String} {read : Reader α} {default : α}
    {set : ρ → α → ρ}
    (h : ∀ record x, P record → x = default ∨ read.Reads x → P (set record x)) :
    (Field.orDefault key read default set).Keeps P :=
  Field.keepsOn_orDefault h

theorem Record.readItems_keeps {record : Record ρ} {P : ρ → Prop} {items : List Value}
    (proper : ∀ item ∈ items, item.Proper) :
    ∀ {fields : List (Field ρ)} {length : Nat} {result final : ρ},
      (∀ field ∈ fields, field.Keeps P) → P result →
      record.readItems length result fields items = .ok final → P final := by
  induction items with
  | nil =>
    intro fields
    induction fields with
    | nil =>
      intro length result final _ hk h
      cases h
      exact hk
    | cons field fields ih =>
      intro length result final hf hk h
      rw [Record.readItems] at h
      split at h
      · exact ih (fun f hm => hf f (List.mem_cons_of_mem field hm)) hk h
      · cases h
  | cons item items ih =>
    intro fields length result final hf hk h
    cases fields with
    | nil => cases h
    | cons field fields =>
      rw [Record.readItems] at h
      obtain ⟨next, hn, h⟩ := bind_eq_ok_iff.1 h
      have hnext : P next :=
        hf field List.mem_cons_self item result next (proper item List.mem_cons_self) hk hn
      exact ih (fun i hi => proper i (List.mem_cons_of_mem item hi))
        (fun f hm => hf f (List.mem_cons_of_mem field hm)) hnext h

/-- What is known of the blank record, and kept by every field, is known of all records that are
read. -/
theorem Record.read_keeps {record : Record ρ} {P : ρ → Prop} (blank : P record.blank)
    (hf : ∀ field ∈ record.fields, field.Keeps P) {value : Value} (proper : value.Proper)
    {result : ρ} (h : record.read value = .ok result) : P result := by
  cases value with
  | object entries =>
    exact readEntries_keeps (Q := fun _ => Value.Proper) blank hf
      (Value.properEntries_iff.1 proper.2) h
  | list items =>
    exact readItems_keeps (Value.properItems_iff.1 proper) hf blank h
  | _ => cases h

structure Component.Distinct (component : Component) : Prop where
  variants : component.variants.Distinct
  parts : ∀ variant, component.default = some variant → variant.parts.Distinct
  named : ∀ e ∈ component.variants, e.2.parts.Distinct

theorem Variant.distinct_of_read {variant : Variant} (h : Variant.record.read.Reads variant) :
    variant.parts.Distinct := by
  obtain ⟨value, proper, hr⟩ := h
  have hfields : ∀ field ∈ Variant.record.fields, field.Keeps fun v => v.parts.Distinct := by
    intro field hf
    simp only [Variant.record, List.mem_cons, List.not_mem_nil, or_false] at hf
    rcases hf with rfl | rfl | rfl
    · exact Field.keeps_optional fun v x hk _ => hk
    · refine Field.keeps_orDefault fun v x _ hx => ?_
      rcases hx with rfl | ⟨value, proper, hx⟩
      · exact List.nodup_nil
      · exact (Reader.table_eq_ok proper hx).1
    · exact Field.keeps_optional fun v x hk _ => hk
  have hblank : Variant.record.blank.parts.Distinct := List.nodup_nil
  exact Record.read_keeps hblank hfields proper hr

theorem Component.distinct_of_read {component : Component}
    (h : Component.record.read.Reads component) : component.Distinct := by
  obtain ⟨value, proper, hr⟩ := h
  have hfields : ∀ field ∈ Component.record.fields, field.Keeps Component.Distinct := by
    intro field hf
    simp only [Component.record, List.mem_cons, List.not_mem_nil, or_false] at hf
    rcases hf with rfl | rfl | rfl
    · exact Field.keeps_optional fun c x hk _ => ⟨hk.variants, hk.parts, hk.named⟩
    · exact Field.keeps_optional fun c x hk hx =>
        ⟨hk.variants, fun variant hv => Variant.distinct_of_read (hx variant hv), hk.named⟩
    · refine Field.keeps_orDefault fun c x hk hx => ?_
      rcases hx with rfl | ⟨value, proper, hx⟩
      · exact ⟨List.nodup_nil, hk.parts, fun e he => by cases he⟩
      · obtain ⟨hnames, hread⟩ := Reader.table_eq_ok proper hx
        exact ⟨hnames, hk.parts, fun e he => Variant.distinct_of_read (hread e he)⟩
  have hblank : Component.record.blank.Distinct := by
    refine ⟨List.nodup_nil, ?_, ?_⟩
    · intro variant hv
      cases hv
    · intro e he
      cases he
  exact Record.read_keeps hblank hfields proper hr

theorem Theme.read_of_ofConfig {config : Value} {theme : Theme}
    (h : Theme.ofConfig config = .ok theme) : Theme.record.read config = .ok theme := by
  obtain ⟨record, hrecord, hr⟩ := bind_eq_ok_iff.1 (mapError_eq_ok_iff.1 h)
  split at hr
  · cases hr
  · cases hr
    exact hrecord

/-- All components of a theme have distinct names of variants and parts. -/
def Theme.Distinct (theme : Theme) : Prop := ∀ e ∈ theme.components, e.2.Distinct

theorem Theme.distinct_of_ofConfig {config : Value} {theme : Theme} (proper : config.Proper)
    (h : Theme.ofConfig config = .ok theme) : theme.Distinct := by
  have hfields : ∀ field ∈ Theme.record.fields, field.Keeps Theme.Distinct := by
    intro field hf
    simp only [Theme.record, List.mem_cons, List.not_mem_nil, or_false] at hf
    rcases hf with rfl | rfl | rfl | rfl | rfl | rfl | rfl | rfl
    · intro value theme theme' _ hk hr
      obtain ⟨x, _, rfl⟩ := map_eq_ok_iff.1 hr
      exact hk
    · intro value theme theme' _ hk hr
      obtain ⟨x, _, rfl⟩ := map_eq_ok_iff.1 hr
      exact hk
    · exact Field.keeps_optional fun t x hk _ => hk
    · exact Field.keeps_orDefault fun t x hk _ => hk
    · exact Field.keeps_orDefault fun t x hk _ => hk
    · refine Field.keeps_orDefault fun t x _ hx e he => ?_
      rcases hx with rfl | ⟨value, proper, hx⟩
      · cases he
      · exact Component.distinct_of_read ((Reader.table_eq_ok proper hx).2 e he)
    · exact Field.keeps_orDefault fun t x hk _ => hk
    · exact Field.keeps_optional fun t x hk _ => hk
  have hblank : Theme.record.blank.Distinct := fun e he => by cases he
  exact Record.read_keeps hblank hfields proper (Theme.read_of_ofConfig h)

end Theming
