import Theming.Proofs.Agreement
import Theming.Proofs.Reading.KeyOrder
import Theming.Proofs.Reading.Shapes

/-! Entries that count as absent, and what it takes of a reader to overlook that they are missing.
Records overlook it if their fields do. -/

namespace Theming

namespace Value

/-- Null and the empty text stand for no text. -/
def isBlank : Value → Bool
  | .null => true
  | .text s => s.isEmpty
  | .flag _ | .number _ | .list _ | .object _ => false

def isUnset : Value → Bool
  | .flag b => !b
  | value => value.isBlank

theorem isBlank_cases {value : Value} (h : value.isBlank = true) :
    value = .null ∨ value = .text "" := by
  cases value with
  | null => exact .inl rfl
  | text s => exact .inr (congrArg Value.text (by simpa [isBlank] using h))
  | _ => cases h

theorem isUnset_cases {value : Value} (h : value.isUnset = true) :
    value = .null ∨ value = .text "" ∨ value = .flag false := by
  cases value with
  | null => exact .inl rfl
  | text s => exact .inr (.inl (congrArg Value.text (by simpa [isUnset, isBlank] using h)))
  | flag b =>
    cases b with
    | true => cases h
    | false => exact .inr (.inr rfl)
  | _ => cases h

theorem Proper.of_entry {front back : List (String × Value)} {key : String} {value : Value}
    (h : (object (front ++ (key, value) :: back)).Proper) : value.Proper :=
  properEntries_iff.1 h.2 (key, value) (List.mem_append_right _ List.mem_cons_self)

theorem Proper.of_item {front back : List Value} {item : Value}
    (h : (list (front ++ item :: back)).Proper) : item.Proper :=
  properItems_iff.1 h item (List.mem_append_right _ List.mem_cons_self)

end Value

namespace Shape

/-- The shape of objects that stand in a place. -/
def core : Shape → Shape
  | optional shape | source shape => shape.core
  | shape => shape

def fieldKeys : Shape → List String
  | optional shape => shape.fieldKeys
  | color => Table.keys RecordKind.gradient.fields
  | backdrop => Table.keys RecordKind.filter.fields
  | record kind => Table.keys kind.fields
  | _ => []

def isSlot : Shape → Bool
  | optional scalar | optional color | optional backdrop => true
  | _ => false

def allowsGradient (shape : Shape) (key : String) : Bool :=
  match shape.core with
  | record (.props .color) | record (.set .color) => key == "background"
  | backdrop => key == "fallbackBackground"
  | _ => false

/-- Does the entry count as absent? Pseudo-elements declare everything but null, and gradients
show false in the field for their place. -/
def neglects (shape : Shape) (allowGradient : Bool) (key : String) (value : Value) : Bool :=
  match shape.core with
  | table entry => entry.isSlot && value.isNull
  | color => if key = Globals.gradientKey allowGradient then value.isBlank else value.isUnset
  | shape => (shape.under key).isSlot && value.isUnset

theorem isUnset_of_neglects {shape : Shape} {allowGradient : Bool} {key : String} {value : Value}
    (h : shape.neglects allowGradient key value = true) : value.isUnset = true := by
  unfold neglects at h
  split at h
  · have hnull := (Bool.and_eq_true_iff.1 h).2
    cases value <;> first | rfl | cases hnull
  · split at h
    · rcases Value.isBlank_cases h with rfl | rfl <;> rfl
    · exact h
  · exact (Bool.and_eq_true_iff.1 h).2

/-- The second value is the first one without an entry that counts as absent. The entry may stand
in the value itself or at any depth inside it. -/
inductive Lacks : Shape → Bool → Value → Value → Prop where
  | entry {shape : Shape} {allowGradient : Bool} {front back : List (String × Value)} {key : String}
      {value : Value} (neglected : shape.neglects allowGradient key value = true) :
      Lacks shape allowGradient (.object (front ++ (key, value) :: back)) (.object (front ++ back))
  | inside {shape : Shape} {allowGradient : Bool} {front back : List (String × Value)}
      {key : String} {v w : Value}
      (inner : Lacks (shape.under key) (shape.allowsGradient key) v w) :
      Lacks shape allowGradient (.object (front ++ (key, v) :: back))
        (.object (front ++ (key, w) :: back))
  /-- In a list of sources. -/
  | item {shape inline : Shape} {allowGradient : Bool} {front back : List Value} {v w : Value}
      (sources : shape.item = .source inline) (inner : Lacks (.source inline) false v w) :
      Lacks shape allowGradient (.list (front ++ v :: back)) (.list (front ++ w :: back))
  /-- In a list that stands for a record. -/
  | field {shape : Shape} {allowGradient : Bool} {front back : List Value} {key : String}
      {v w : Value} (place : shape.fieldKeys[front.length]? = some key)
      (inner : Lacks (shape.under key) (shape.allowsGradient key) v w) :
      Lacks shape allowGradient (.list (front ++ v :: back)) (.list (front ++ w :: back))

theorem Lacks.of_optional {shape : Shape} {allowGradient : Bool} {v w : Value}
    (h : Lacks (.optional shape) allowGradient v w) : Lacks shape allowGradient v w := by
  cases h with
  | entry neglected => exact .entry neglected
  | inside inner => exact .inside inner
  | item sources inner => exact .item sources inner
  | field place inner => exact .field place inner

theorem lacks_source_iff {shape : Shape} {allowGradient : Bool} {xs : List (String × Value)}
    {w : Value} :
    Lacks (.source shape) allowGradient (.object xs) w ↔
      Lacks shape allowGradient (.object xs) w := by
  constructor
  · intro h
    cases h with
    | entry neglected => exact .entry neglected
    | inside inner => exact .inside inner
  · intro h
    cases h with
    | entry neglected => exact .entry neglected
    | inside inner => exact .inside inner

/-- Where sources stand, objects are looked at as definitions. -/
theorem looks_of_item {shape inline : Shape} (h : shape.item = .source inline) :
    shape.core = inline.core ∧ (∀ key, shape.under key = inline.under key) ∧
      shape.fieldKeys = [] := by
  induction shape with
  | optional inner ih => exact ih h
  | source inner _ =>
    cases h
    exact ⟨rfl, fun _ => rfl, rfl⟩
  | _ => cases h

theorem Lacks.structured {shape : Shape} {allowGradient : Bool} {v w : Value}
    (h : Lacks shape allowGradient v w) :
    (∃ xs ys, v = .object xs ∧ w = .object ys) ∨ ∃ xs ys, v = .list xs ∧ w = .list ys := by
  cases h with
  | entry _ | inside _ => exact .inl ⟨_, _, rfl, rfl⟩
  | item _ _ | field _ _ => exact .inr ⟨_, _, rfl, rfl⟩

end Shape

open Shape

variable {α β ρ : Type}

/-- An entry may be left out that would do nothing as the first one. -/
theorem AgreeUpTo.foldlM_without {ε γ : Type} {f : α → γ} {step : α → String × β → Except ε α}
    (congr : ∀ e s t, f s = f t → AgreeUpTo f (step s e) (step t e))
    (comm : ∀ s e e', e.1 ≠ e'.1 →
      (step s e >>= fun t => step t e').toOption = (step s e' >>= fun t => step t e).toOption)
    {front back : Table β} {e : String × β} (distinct : Table.Distinct (front ++ e :: back))
    {s : α} (h : AgreeUpTo f (step s e) (.ok s)) :
    AgreeUpTo f ((front ++ e :: back).foldlM step s) ((front ++ back).foldlM step s) := by
  -- steps for different keys commute, so the entry may as well be the first one
  have hperm : (front ++ e :: back).Perm (e :: (front ++ back)) := List.perm_middle
  refine (of_toOption_eq (foldlM_perm hperm distinct comm s)).trans ?_
  rw [List.foldlM_cons]
  exact h.bind (t := fun t => (front ++ back).foldlM step t) fun _ _ => foldlM congr _

/-- Up to what is emptied anyway, a reader gives the same for a value and for one that lacks
something which counts as absent. -/
def Reader.Overlooks (read : Reader α) (shape : Shape) (allowGradient : Bool) (bare : α → α) :
    Prop :=
  ∀ v w : Value, v.Proper → Lacks shape allowGradient v w → AgreeUpTo bare (read v) (read w)

section

variable {read : Reader α} {shape : Shape} {allowGradient : Bool} {bare : α → α}

theorem Reader.optional_of_lacks (read : Reader α) {v w : Value}
    (h : Lacks shape allowGradient v w) :
    read.optional v = (read v).map some ∧ read.optional w = (read w).map some := by
  rcases h.structured with ⟨xs, ys, rfl, rfl⟩ | ⟨xs, ys, rfl, rfl⟩ <;> exact ⟨rfl, rfl⟩

theorem Reader.Overlooks.optional {bareSlot : Option α → Option α}
    (h : read.Overlooks shape allowGradient bare)
    (some_eq : ∀ a b, bare a = bare b → bareSlot (some a) = bareSlot (some b)) :
    read.optional.Overlooks (.optional shape) allowGradient bareSlot := by
  intro v w proper lacks
  obtain ⟨hv, hw⟩ := read.optional_of_lacks lacks
  rw [hv, hw]
  exact (h v w proper lacks.of_optional).map some_eq

theorem Reader.Overlooks.map_optional (h : read.Overlooks shape allowGradient bare) :
    read.optional.Overlooks (.optional shape) allowGradient (Option.map bare) :=
  h.optional fun _ _ hab => congrArg some hab

theorem Reader.Overlooks.oneOf (h : read.Overlooks shape allowGradient bare) (name : String) :
    (Reader.oneOf name read).Overlooks shape allowGradient bare :=
  fun v w proper lacks => (h v w proper lacks).mapError _ _

theorem Reader.overlooks_plain (list : ∀ items, (read (.list items)).toOption = none)
    (object : ∀ entries, (read (.object entries)).toOption = none) :
    read.Overlooks shape allowGradient bare := by
  intro v w _ lacks
  refine .of_toOption_eq ?_
  rcases lacks.structured with ⟨xs, ys, rfl, rfl⟩ | ⟨xs, ys, rfl, rfl⟩
  · rw [object, object]
  · rw [list, list]

theorem Reader.overlooks_scalar {bareSlot : Option Scalar → Option Scalar} :
    (Reader.optional Scalar.read).Overlooks shape allowGradient bareSlot :=
  Reader.overlooks_plain (fun _ => rfl) fun _ => rfl

theorem Reader.overlooks_text :
    (Reader.optional Reader.text).Overlooks shape allowGradient id :=
  Reader.overlooks_plain (fun _ => rfl) fun _ => rfl

end

structure Field.Overlooks (field : Field ρ) (shape : Shape) (allowGradient : Bool) (bare : ρ → ρ)
    (blank : ρ) : Prop where
  congr : ∀ value r s, bare r = bare s →
    AgreeUpTo bare (field.read value r) (field.read value s)
  inside : ∀ v w r, v.Proper →
    Lacks (shape.under field.key) (shape.allowsGradient field.key) v w →
    AgreeUpTo bare (field.read v r) (field.read w r)
  absent : ∀ value, shape.neglects allowGradient field.key value = true →
    AgreeUpTo bare (field.read value blank) (.ok blank)

section

variable {key : String} {shape : Shape} {allowGradient : Bool} {bare : ρ → ρ} {blank : ρ}

theorem Field.overlooks_set {field : Field ρ} {read : Reader α} {set : ρ → α → ρ}
    {bareValue : α → α} (read_eq : ∀ value r, field.read value r = (read value).map (set r))
    (inside : read.Overlooks (shape.under field.key) (shape.allowsGradient field.key) bareValue)
    (absent : ∀ value, shape.neglects allowGradient field.key value = true →
      AgreeUpTo bare (field.read value blank) (.ok blank))
    (bare_set : ∀ r x, bare (set r x) = set (bare r) (bareValue x)) :
    field.Overlooks shape allowGradient bare blank where
  congr value r s h := by
    rw [read_eq, read_eq]
    refine (AgreeUpTo.refl (f := id) _).map fun x y hxy => ?_
    cases hxy
    rw [bare_set, bare_set, h]
  inside v w r proper lacks := by
    rw [read_eq, read_eq]
    refine (inside v w proper lacks).map fun x y hxy => ?_
    rw [bare_set, bare_set, hxy]
  absent := absent

theorem Field.overlooks_optional {read : Reader α} {set : ρ → Option α → ρ}
    (bareSlot : Option α → Option α)
    (inside : read.optional.Overlooks (shape.under key) (shape.allowsGradient key) bareSlot)
    (absent : ∀ value, shape.neglects allowGradient key value = true →
      AgreeUpTo bareSlot (read.optional value) (.ok none))
    (bare_set : ∀ r x, bare (set r x) = set (bare r) (bareSlot x))
    (set_none : set blank none = blank) :
    (Field.optional key read set).Overlooks shape allowGradient bare blank := by
  refine Field.overlooks_set (fun _ _ => rfl) inside (fun value h => ?_) bare_set
  have hblank : (.ok blank : Except Misfit ρ) = (Except.ok none).map (set blank) :=
    congrArg Except.ok set_none.symm
  rw [hblank]
  refine (absent value h).map fun x y hxy => ?_
  rw [bare_set, bare_set, hxy]

theorem Field.overlooks_scalar {set : ρ → Option Scalar → ρ}
    (bare_set : ∀ r x, bare (set r x) = set (bare r) (x.filter Scalar.isSet))
    (set_none : set blank none = blank) :
    (Field.optional key Scalar.read set).Overlooks shape allowGradient bare blank := by
  refine Field.overlooks_optional _ Reader.overlooks_scalar (fun value h => ?_) bare_set set_none
  rcases Value.isUnset_cases (isUnset_of_neglects h) with rfl | rfl | rfl <;> rfl

/-- The entry of a field that is not a slot never counts as absent. -/
theorem Field.overlooks_other {read : Reader α} {set : ρ → Option α → ρ}
    {bareSlot : Option α → Option α}
    (inside : read.optional.Overlooks (shape.under key) (shape.allowsGradient key) bareSlot)
    (other : ∀ value, shape.neglects allowGradient key value = false)
    (bare_set : ∀ r x, bare (set r x) = set (bare r) (bareSlot x))
    (set_none : set blank none = blank) :
    (Field.optional key read set).Overlooks shape allowGradient bare blank := by
  refine Field.overlooks_optional _ inside (fun value h => ?_) bare_set set_none
  rw [other value] at h
  cases h

end

structure Record.Overlooks (record : Record ρ) (shape : Shape) (allowGradient : Bool)
    (bare : ρ → ρ) : Prop where
  fields : ∀ field ∈ record.fields, field.Overlooks shape allowGradient bare record.blank
  commutes : ∀ key value, shape.neglects allowGradient key value = true →
    record.fields.Pairwise Field.Commutes

namespace Record

variable {record : Record ρ} {shape : Shape} {allowGradient : Bool} {bare : ρ → ρ}

namespace Overlooks

theorem readEntry_congr (h : record.Overlooks shape allowGradient bare) (e : String × Value)
    (r s : ρ) (hrs : bare r = bare s) :
    AgreeUpTo bare (record.readEntry r e) (record.readEntry s e) := by
  obtain ⟨key, value⟩ := e
  rcases record.readEntry_cases key with ⟨field, hf, rfl, hk⟩ | hk
  · rw [hk, hk]
    exact (h.fields field hf).congr value r s hrs
  · rw [hk, hk]
    exact .ok hrs

theorem readEntries (h : record.Overlooks shape allowGradient bare)
    {xs ys : List (String × Value)} (proper : (Value.object xs).Proper)
    (lacks : Lacks shape allowGradient (.object xs) (.object ys)) :
    AgreeUpTo bare (record.readEntries xs) (record.readEntries ys) := by
  rw [readEntries_eq, readEntries_eq]
  cases lacks with
  | @entry _ _ front back key value neglected =>
    have hcomm := readEntry_comm (h.commutes key value neglected)
    refine .foldlM_without h.readEntry_congr hcomm proper.1 ?_
    rcases record.readEntry_cases key with ⟨field, hf, rfl, hk⟩ | hk
    · rw [hk]
      exact (h.fields field hf).absent value neglected
    · rw [hk]
      exact .refl _
  | @inside _ _ front back key v w inner =>
    refine .foldlM_replace h.readEntry_congr front back (fun result => ?_) _
    rcases record.readEntry_cases key with ⟨field, hf, rfl, hk⟩ | hk
    · rw [hk, hk]
      exact (h.fields field hf).inside v w result proper.of_entry inner
    · rw [hk, hk]
      exact .refl _

theorem readItems_congr {fields : List (Field ρ)}
    (congr : ∀ field ∈ fields, ∀ value r s, bare r = bare s →
      AgreeUpTo bare (field.read value r) (field.read value s))
    (items : List Value) (length : Nat) {r s : ρ} (h : bare r = bare s) :
    AgreeUpTo bare (record.readItems length r fields items)
      (record.readItems length s fields items) := by
  induction fields generalizing items length r s with
  | nil =>
    cases items with
    | nil => exact .ok h
    | cons _ _ => exact .refl _
  | cons field rest ih =>
    have hrest := ih fun f hf => congr f (List.mem_cons_of_mem field hf)
    cases items with
    | nil =>
      simp only [Record.readItems]
      split
      · exact hrest [] _ h
      · exact .refl _
    | cons item items =>
      simp only [Record.readItems]
      exact (congr field List.mem_cons_self item r s h).bind fun _ _ => hrest items _

theorem readItems_replace {fields : List (Field ρ)}
    (congr : ∀ field ∈ fields, ∀ value r s, bare r = bare s →
      AgreeUpTo bare (field.read value r) (field.read value s))
    {front back : List Value} {v w : Value} {field : Field ρ}
    (place : fields[front.length]? = some field)
    (h : ∀ r, AgreeUpTo bare (field.read v r) (field.read w r)) (length : Nat) (r : ρ) :
    AgreeUpTo bare (record.readItems length r fields (front ++ v :: back))
      (record.readItems length r fields (front ++ w :: back)) := by
  induction front generalizing fields length r with
  | nil =>
    cases fields with
    | nil => cases place
    | cons first rest =>
      cases place
      exact (h r).bind fun _ _ =>
        readItems_congr (fun f hf => congr f (List.mem_cons_of_mem field hf)) back _
  | cons item front ih =>
    cases fields with
    | nil => cases place
    | cons first rest =>
      refine (AgreeUpTo.refl (f := id) _).bind fun s t hst => ?_
      cases hst
      exact ih (fun f hf => congr f (List.mem_cons_of_mem first hf)) place _ s

theorem read (h : record.Overlooks shape allowGradient bare)
    (keys : record.fields.map Field.key = shape.fieldKeys)
    (definition : ∀ inline, shape.item ≠ .source inline) :
    record.read.Overlooks shape allowGradient bare := by
  intro v w proper lacks
  cases lacks with
  | entry neglected => exact h.readEntries proper (.entry neglected)
  | inside inner => exact h.readEntries proper (.inside inner)
  | item sources inner => exact absurd sources (definition _)
  | @field _ _ front back key v w place inner =>
    rw [← keys, List.getElem?_map, Option.map_eq_some_iff] at place
    obtain ⟨field, hf, rfl⟩ := place
    exact readItems_replace (fun f hf => (h.fields f hf).congr) hf
      (fun r => (h.fields field (List.mem_of_getElem? hf)).inside v w r proper.of_item inner) 0
      record.blank

end Overlooks

end Record

end Theming
