/-! Tables that keep their entries in the order in which the keys first appeared. -/

namespace Theming

universe u

/-- Entries in order. Every operation keeps the keys distinct. -/
abbrev Table (α : Type u) := List (String × α)

namespace Table

variable {α : Type u}

def find? (table : Table α) (key : String) : Option α :=
  match table with
  | [] => none
  | (k, a) :: rest => if k = key then some a else find? rest key

def keys (table : Table α) : List String := table.map (·.1)

/-- Gives `key` the value `a`: in its old place if it has one, at the end if not. -/
def put (table : Table α) (key : String) (a : α) : Table α :=
  match table with
  | [] => [(key, a)]
  | (k, b) :: rest => if k = key then (key, a) :: rest else (k, b) :: put rest key a

def putAll (table entries : Table α) : Table α :=
  entries.foldl (fun t e => t.put e.1 e.2) table

/-- The table of a list of entries, in which a later entry replaces an earlier one of its key. -/
def ofEntries (entries : List (String × α)) : Table α := putAll [] entries

def Distinct (table : Table α) : Prop := table.keys.Nodup

theorem find?_put_self (table : Table α) (key : String) (a : α) :
    (table.put key a).find? key = some a := by
  induction table with
  | nil => simp [put, find?]
  | cons e rest ih =>
    by_cases h : e.1 = key
    · simp [put, find?, h]
    · simp [put, find?, h, ih]

theorem find?_put_ne (table : Table α) {key k : String} (a : α) (h : k ≠ key) :
    (table.put key a).find? k = table.find? k := by
  induction table with
  | nil => simp [put, find?, Ne.symm h]
  | cons e rest ih =>
    by_cases he : e.1 = key
    · simp [put, find?, he, Ne.symm h]
    · simp [put, find?, he, ih]

theorem mem_of_find? {table : Table α} {key : String} {a : α}
    (h : table.find? key = some a) : (key, a) ∈ table := by
  induction table with
  | nil => simp [find?] at h
  | cons e rest ih =>
    rw [find?] at h
    split at h
    · next he => cases h; subst he; exact List.mem_cons_self
    · exact List.mem_cons_of_mem _ (ih h)

theorem find?_eq_none_iff {table : Table α} {key : String} :
    table.find? key = none ↔ key ∉ table.keys := by
  induction table with
  | nil => simp [find?, keys]
  | cons e rest ih =>
    by_cases h : e.1 = key
    · simp [find?, keys, h]
    · simpa [find?, keys, h, Ne.symm h] using ih

theorem Distinct.find?_of_mem {table : Table α} (h : table.Distinct) {key : String} {a : α}
    (hm : (key, a) ∈ table) : table.find? key = some a := by
  induction table with
  | nil => simp at hm
  | cons e rest ih =>
    have hd : e.1 ∉ Table.keys rest ∧ (Table.keys rest).Nodup := List.nodup_cons.1 h
    rcases List.mem_cons.1 hm with rfl | hr
    · simp [find?]
    · have hne : e.1 ≠ key := fun he => hd.1 (he ▸ List.mem_map_of_mem hr)
      simpa [find?, hne] using ih hd.2 hr

theorem mem_put {table : Table α} {key : String} {a : α} {e : String × α}
    (h : e ∈ table.put key a) : e = (key, a) ∨ e ∈ table := by
  induction table with
  | nil => simpa [put] using h
  | cons first rest ih =>
    rw [put] at h
    split at h
    · rcases List.mem_cons.1 h with rfl | hr
      · exact .inl rfl
      · exact .inr (List.mem_cons_of_mem _ hr)
    · rcases List.mem_cons.1 h with rfl | hr
      · exact .inr List.mem_cons_self
      · exact (ih hr).imp_right (List.mem_cons_of_mem _)

theorem mem_keys_of_find? {table : Table α} {key : String} {a : α}
    (h : table.find? key = some a) : key ∈ table.keys :=
  List.mem_map_of_mem (mem_of_find? h)

/-- Putting keeps the keys, and adds the new one at the end. -/
theorem keys_put (table : Table α) (key : String) (a : α) :
    (table.put key a).keys = if key ∈ table.keys then table.keys else table.keys ++ [key] := by
  induction table with
  | nil => simp [put, keys]
  | cons e rest ih =>
    by_cases h : e.1 = key
    · simp [put, keys, h]
    · simp only [keys] at ih
      simp only [put, if_neg h, keys, List.map_cons, List.mem_cons, ih, Ne.symm h, false_or]
      split <;> simp_all

theorem Distinct.put {table : Table α} (h : table.Distinct) (key : String) (a : α) :
    (table.put key a).Distinct := by
  unfold Distinct at h ⊢
  rw [keys_put]
  split
  · exact h
  · next hk => exact List.nodup_append.2 ⟨h, by simp, by simpa using fun k hk' => by grind⟩

end Table

end Theming
