import Mathlib.Data.List.Pairwise
import Mathlib.Data.List.Perm.Basic
import Theming.Proofs.Reading.Proper

/-! The order of keys in data. Two values that differ only in the order of the keys of their objects
are read as the same, apart from the objects of pseudo-elements, where the order is part of what is
said. -/

namespace Theming

namespace Value

/-- The keys of objects whose own order of keys counts. -/
def orderedKeys : List String := ["before", "after"]

mutual

/-- The second value is the first one with the keys of its objects in another order. -/
inductive Reordered : Value → Value → Prop where
  | same (value : Value) : Reordered value value
  | list {xs ys : List Value} (items : ReorderedItems xs ys) : Reordered (.list xs) (.list ys)
  | object {xs zs ys : List (String × Value)} (perm : xs.Perm zs)
      (entries : ReorderedEntries zs ys) : Reordered (.object xs) (.object ys)

inductive ReorderedItems : List Value → List Value → Prop where
  | nil : ReorderedItems [] []
  | cons {v w : Value} {xs ys : List Value} (first : Reordered v w) (rest : ReorderedItems xs ys) :
      ReorderedItems (v :: xs) (w :: ys)

inductive ReorderedEntries : List (String × Value) → List (String × Value) → Prop where
  | nil : ReorderedEntries [] []
  | cons {key : String} {v w : Value} {xs ys : List (String × Value)} (first : Reordered v w)
      (kept : key ∈ orderedKeys → v = w) (rest : ReorderedEntries xs ys) :
      ReorderedEntries ((key, v) :: xs) ((key, w) :: ys)

end

structure SameEntry (e f : String × Value) : Prop where
  key : e.1 = f.1
  value : Reordered e.2 f.2
  kept : e.1 ∈ orderedKeys → e.2 = f.2

theorem reorderedItems_iff {xs ys : List Value} :
    ReorderedItems xs ys ↔ List.Forall₂ Reordered xs ys := by
  induction xs generalizing ys with
  | nil =>
    constructor
    · rintro ⟨⟩
      exact .nil
    · rintro ⟨⟩
      exact .nil
  | cons v rest ih =>
    constructor
    · rintro (_ | ⟨first, rest⟩)
      exact .cons first (ih.1 rest)
    · rintro (_ | ⟨first, rest⟩)
      exact .cons first (ih.2 rest)

theorem reorderedEntries_iff {xs ys : List (String × Value)} :
    ReorderedEntries xs ys ↔ List.Forall₂ SameEntry xs ys := by
  induction xs generalizing ys with
  | nil =>
    constructor
    · rintro ⟨⟩
      exact .nil
    · rintro ⟨⟩
      exact .nil
  | cons e rest ih =>
    constructor
    · rintro (_ | ⟨first, kept, rest⟩)
      exact .cons ⟨rfl, first, kept⟩ (ih.1 rest)
    · rintro (_ | ⟨⟨hkey, first, kept⟩, rest⟩)
      obtain ⟨key, v⟩ := e
      cases hkey
      exact .cons first kept (ih.2 rest)

theorem Reordered.induct {P : Value → Value → Prop} (same : ∀ value, P value value)
    (list : ∀ xs ys, List.Forall₂ (fun v w => Reordered v w ∧ P v w) xs ys →
      P (.list xs) (.list ys))
    (object : ∀ xs zs ys, xs.Perm zs →
      List.Forall₂ (fun e f => SameEntry e f ∧ P e.2 f.2) zs ys → P (.object xs) (.object ys))
    {v w : Value} (h : Reordered v w) : P v w :=
  @Reordered.rec (fun v w _ => P v w)
    (fun xs ys _ => List.Forall₂ (fun v w => Reordered v w ∧ P v w) xs ys)
    (fun xs ys _ => List.Forall₂ (fun e f => SameEntry e f ∧ P e.2 f.2) xs ys)
    same (fun _ ih => list _ _ ih) (fun perm _ ih => object _ _ _ perm ih)
    .nil (fun first _ ih ihs => .cons ⟨first, ih⟩ ihs)
    .nil (fun first kept _ ih ihs => .cons ⟨⟨rfl, first, kept⟩, ih⟩ ihs) v w h

end Value

open Value

section

variable {ε α β γ : Type}

theorem toOption_bind (x : Except ε α) (f : α → Except ε β) :
    (x >>= f).toOption = x.toOption.bind fun a => (f a).toOption := by
  cases x <;> rfl

theorem toOption_map (x : Except ε α) (f : α → β) : (x.map f).toOption = x.toOption.map f := by
  cases x <;> rfl

theorem toOption_mapError (x : Except ε α) (f : ε → γ) : (x.mapError f).toOption = x.toOption := by
  cases x <;> rfl

theorem toOption_foldlM (f : β → α → Except ε β) (l : List α) (b : β) :
    (l.foldlM f b).toOption = l.foldl (fun o a => o.bind fun b => (f b a).toOption) (some b) := by
  induction l generalizing b with
  | nil => rfl
  | cons a rest ih =>
    rw [List.foldlM_cons, toOption_bind, List.foldl_cons, Option.bind_some]
    cases h : f b a with
    | error e =>
      have hnone : rest.foldl (fun o a => o.bind fun b => (f b a).toOption) none = none := by
        clear ih
        induction rest with
        | nil => rfl
        | cons _ _ ih => exact ih
      exact hnone.symm
    | ok c => exact ih c

/-- A fold over the entries of an object does not depend on their order if steps for different keys
commute. -/
theorem foldlM_perm {f : β → String × α → Except ε β} {xs ys : Table α} (h : xs.Perm ys)
    (hd : xs.Distinct) (hc : ∀ b e e', e.1 ≠ e'.1 →
      (f b e >>= fun c => f c e').toOption = (f b e' >>= fun c => f c e).toOption) (b : β) :
    (xs.foldlM f b).toOption = (ys.foldlM f b).toOption := by
  rw [toOption_foldlM, toOption_foldlM]
  refine h.foldl_eq' (fun e he e' he' o => ?_) _
  cases o with
  | none => rfl
  | some c =>
    by_cases hk : e.1 = e'.1
    · have hfound := hd.find?_of_mem he
      rw [hk, hd.find?_of_mem he'] at hfound
      rw [Prod.ext hk (Option.some.inj hfound).symm]
    · have hswap := hc c e e' hk
      rw [toOption_bind, toOption_bind] at hswap
      exact hswap

theorem mapM_congr {f : α → Except ε β} {xs ys : List α}
    (h : List.Forall₂ (fun a a' => (f a).toOption = (f a').toOption) xs ys) :
    (xs.mapM f).toOption = (ys.mapM f).toOption := by
  induction h with
  | nil => rfl
  | cons ha _ ih => simp only [List.mapM_cons, toOption_bind, ha, ih]

theorem foldlM_congr {f : β → α → Except ε β} {xs ys : List α}
    (h : List.Forall₂ (fun a a' => ∀ b, (f b a).toOption = (f b a').toOption) xs ys) (b : β) :
    (xs.foldlM f b).toOption = (ys.foldlM f b).toOption := by
  rw [toOption_foldlM, toOption_foldlM]
  generalize some b = o
  induction h generalizing o with
  | nil => rfl
  | cons ha _ ih =>
    simp only [List.foldl_cons, ha]
    exact ih _

end

variable {α β ρ : Type}

def Reader.OrderFree (read : Reader α) : Prop :=
  ∀ v w : Value, v.Proper → v.Reordered w → (read v).toOption = (read w).toOption

/-- It is enough to know how lists and objects are read. All else has no keys. -/
theorem Reader.toOption_eq_of_structured {read : Reader α} {inner : Reader β} {f : β → α}
    {v w : Value} (hr : v.Reordered w)
    (hlist : ∀ items, read (.list items) = (inner (.list items)).map f)
    (hobject : ∀ entries, read (.object entries) = (inner (.object entries)).map f)
    (h : (inner v).toOption = (inner w).toOption) : (read v).toOption = (read w).toOption := by
  cases hr with
  | same => rfl
  | list items => rw [hlist, hlist, toOption_map, toOption_map, h]
  | object perm entries => rw [hobject, hobject, toOption_map, toOption_map, h]

theorem Reader.toOption_optional {read : Reader α} {v w : Value} (hr : v.Reordered w)
    (h : (read v).toOption = (read w).toOption) :
    (read.optional v).toOption = (read.optional w).toOption :=
  toOption_eq_of_structured hr (fun _ => rfl) (fun _ => rfl) h

theorem Reader.OrderFree.of_structured {read : Reader α} {inner : Reader β} {f : β → α}
    (h : inner.OrderFree) (hlist : ∀ items, read (.list items) = (inner (.list items)).map f)
    (hobject : ∀ entries, read (.object entries) = (inner (.object entries)).map f) :
    read.OrderFree := by
  intro v w proper hr
  exact toOption_eq_of_structured hr hlist hobject (h v w proper hr)

theorem Reader.OrderFree.optional {read : Reader α} (h : read.OrderFree) :
    read.optional.OrderFree := by
  intro v w proper hr
  exact Reader.toOption_optional hr (h v w proper hr)

theorem Reader.OrderFree.oneOf {read : Reader α} (h : read.OrderFree) (name : String) :
    (Reader.oneOf name read).OrderFree := by
  intro v w proper hr
  rw [Reader.oneOf, Reader.oneOf, toOption_mapError, toOption_mapError, h v w proper hr]

theorem orderFree_text : Reader.text.OrderFree := by
  intro v w _ hr
  cases hr <;> rfl

theorem orderFree_scalar : Reader.OrderFree Scalar.read := by
  intro v w _ hr
  cases hr <;> rfl

def Field.OrderFree (field : Field ρ) : Prop :=
  ∀ v w record, v.Proper → v.Reordered w → (field.key ∈ orderedKeys → v = w) →
    (field.read v record).toOption = (field.read w record).toOption

theorem Field.orderFree_optional {key : String} {read : Reader α} {set : ρ → Option α → ρ}
    (h : read.OrderFree) : (Field.optional key read set).OrderFree := by
  intro v w record proper hr _
  simp only [Field.optional, toOption_map, h.optional v w proper hr]

/-- A field whose value is kept as it is need not be read in any special way. -/
theorem Field.orderFree_of_ordered {field : Field ρ} (h : field.key ∈ orderedKeys) :
    field.OrderFree := by
  intro v w record _ _ hkept
  rw [hkept h]

/-- Reading two fields one after the other does not depend on which of them is the first. -/
def Field.Commutes (f g : Field ρ) : Prop :=
  ∀ v w record, (f.read v record >>= g.read w).toOption = (g.read w record >>= f.read v).toOption

theorem Field.commutes_optional {α' : Type} {key key' : String} {read : Reader α}
    {read' : Reader α'} {set : ρ → Option α → ρ} {set' : ρ → Option α' → ρ}
    (h : ∀ record x y, set' (set record x) y = set (set' record y) x) :
    (Field.optional key read set).Commutes (Field.optional key' read' set') := by
  intro v w record
  simp only [Field.optional, toOption_bind, toOption_map]
  cases (read.optional v).toOption <;> cases (read'.optional w).toOption <;> simp [h]

/-- What has to be known of the fields of a record so that the order of keys does not matter. -/
structure Record.OrderFree (record : Record ρ) : Prop where
  fields : ∀ field ∈ record.fields, field.OrderFree
  commutes : record.fields.Pairwise Field.Commutes

theorem Field.commutes_of_ne {fields : List (Field ρ)} (h : fields.Pairwise Field.Commutes)
    {f g : Field ρ} (hf : f ∈ fields) (hg : g ∈ fields) (hne : f.key ≠ g.key) : f.Commutes g := by
  have : Std.Symm (Field.Commutes (ρ := ρ)) := ⟨fun _ _ hc v w record => (hc w v record).symm⟩
  exact h.forall hf hg fun he => hne (he ▸ rfl)

namespace Record

def readEntry (record : Record ρ) (result : ρ) (entry : String × Value) : Except Misfit ρ :=
  match record.fields.find? fun field => field.key == entry.1 with
  | some field => field.read entry.2 result
  | none => pure result

theorem readEntries_eq (record : Record ρ) (entries : List (String × Value)) :
    record.readEntries entries = entries.foldlM record.readEntry record.blank := rfl

theorem readEntry_cases (record : Record ρ) (key : String) :
    (∃ field ∈ record.fields, field.key = key ∧
      ∀ result value, record.readEntry result (key, value) = field.read value result) ∨
    ∀ result value, record.readEntry result (key, value) = pure result := by
  unfold readEntry
  cases hf : record.fields.find? (fun field => field.key == key) with
  | none => exact .inr fun _ _ => by simp [hf]
  | some field =>
    exact .inl ⟨field, List.mem_of_find?_eq_some hf, by simpa using List.find?_some hf,
      fun _ _ => by simp [hf]⟩

theorem readEntry_comm {record : Record ρ} (h : record.fields.Pairwise Field.Commutes)
    (result : ρ) (e e' : String × Value) (hne : e.1 ≠ e'.1) :
    (record.readEntry result e >>= fun r => record.readEntry r e').toOption =
      (record.readEntry result e' >>= fun r => record.readEntry r e).toOption := by
  obtain ⟨k, v⟩ := e
  obtain ⟨k', w⟩ := e'
  rcases record.readEntry_cases k with ⟨f, hf, rfl, hk⟩ | hk
  · rcases record.readEntry_cases k' with ⟨g, hg, rfl, hk'⟩ | hk'
    · simp only [hk, hk']
      exact Field.commutes_of_ne h hf hg hne v w result
    · simp [hk']
  · simp [hk]

theorem OrderFree.readEntries {record : Record ρ} (h : record.OrderFree)
    {xs zs ys : List (String × Value)} (proper : (object xs).Proper) (perm : xs.Perm zs)
    (entries : List.Forall₂ SameEntry zs ys) :
    (record.readEntries xs).toOption = (record.readEntries ys).toOption := by
  have hproper : ∀ e ∈ zs, e.2.Proper := fun e he =>
    properEntries_iff.1 proper.2 e (perm.mem_iff.2 he)
  rw [readEntries_eq, readEntries_eq]
  refine (foldlM_perm perm proper.1 (readEntry_comm h.commutes) _).trans (foldlM_congr ?_ _)
  refine ((List.forall₂_and_left zs ys).2 ⟨hproper, entries⟩).imp fun e e' he result => ?_
  obtain ⟨key, v⟩ := e
  obtain ⟨key', w⟩ := e'
  obtain ⟨hv, hkey, hvalue, hkept⟩ := he
  cases hkey
  rcases record.readEntry_cases key with ⟨field, hf, rfl, hk⟩ | hk
  · simp only [hk]
    exact h.fields field hf v w result hv hvalue hkept
  · simp only [hk]

end Record

theorem Record.readItems_congr {record : Record ρ} {xs ys : List Value}
    (items : List.Forall₂ Reordered xs ys) (proper : ∀ v ∈ xs, v.Proper) :
    ∀ {fields : List (Field ρ)} {length : Nat} {result : ρ},
      (∀ field ∈ fields, field.OrderFree ∧ field.key ∉ orderedKeys) →
      (record.readItems length result fields xs).toOption =
        (record.readItems length result fields ys).toOption := by
  induction items with
  | nil => exact fun _ => rfl
  | @cons v w xs ys hvw items ih =>
    intro fields length result hf
    cases fields with
    | nil =>
      simp only [Record.readItems]
      rfl
    | cons field rest =>
      obtain ⟨hfree, hkey⟩ := hf field List.mem_cons_self
      have hfirst := hfree v w result (proper v List.mem_cons_self) hvw fun hm => absurd hm hkey
      simp only [Record.readItems, toOption_bind, hfirst]
      congr 1
      funext next
      exact ih (fun u hu => proper u (List.mem_cons_of_mem v hu))
        (fun g hg => hf g (List.mem_cons_of_mem field hg))

theorem Record.OrderFree.read {record : Record ρ} (h : record.OrderFree)
    (hkeys : ∀ field ∈ record.fields, field.key ∉ orderedKeys) :
    Reader.OrderFree record.read := by
  intro v w proper hr
  cases hr with
  | same => rfl
  | list items =>
    exact Record.readItems_congr (reorderedItems_iff.1 items) (properItems_iff.1 proper)
      fun field hf => ⟨h.fields field hf, hkeys field hf⟩
  | object perm entries => exact h.readEntries proper perm (reorderedEntries_iff.1 entries)

end Theming
