import Mathlib.Data.List.Forall2

/-! When computations that may fail succeed: every step of them does. -/

namespace Theming

variable {ε α β : Type}

theorem bind_eq_ok_iff {x : Except ε α} {f : α → Except ε β} {b : β} :
    x >>= f = .ok b ↔ ∃ a, x = .ok a ∧ f a = .ok b := by
  cases x with
  | error e => simp [bind, Except.bind]
  | ok a => simp [bind, Except.bind]

theorem map_eq_ok_iff {x : Except ε α} {f : α → β} {b : β} :
    x.map f = .ok b ↔ ∃ a, x = .ok a ∧ f a = b := by
  cases x with
  | error e => simp [Except.map]
  | ok a => simp [Except.map]

theorem mapError_eq_ok_iff {x : Except ε α} {f : ε → β} {a : α} :
    x.mapError f = .ok a ↔ x = .ok a := by
  cases x with
  | error e => simp [Except.mapError]
  | ok b => simp [Except.mapError]

theorem eq_ok_of_toOption {x : Except ε α} {a : α} (h : x.toOption = some a) : x = .ok a := by
  cases x with
  | error e => cases h
  | ok b => exact congrArg Except.ok (Option.some.inj h)

theorem exists_error_of_isOk {x : Except ε α} (h : x.isOk = false) : ∃ e, x = .error e := by
  cases x with
  | error e => exact ⟨e, rfl⟩
  | ok a => cases h

theorem isOk_iff {x : Except ε α} : x.isOk = true ↔ ∃ a, x = .ok a := by
  cases x with
  | error e => exact iff_of_false (fun h => by cases h) fun ⟨_, h⟩ => by cases h
  | ok a => exact iff_of_true rfl ⟨a, rfl⟩

theorem isOk_map (x : Except ε α) (f : α → β) : (x.map f).isOk = x.isOk := by
  cases x <;> rfl

theorem isOk_mapError {ε' : Type} (x : Except ε α) (f : ε → ε') :
    (x.mapError f).isOk = x.isOk := by
  cases x <;> rfl

theorem isOk_bind_iff {x : Except ε α} {f : α → Except ε β} {P : Prop}
    (h : ∀ a, (f a).isOk = true ↔ P) : (x >>= f).isOk = true ↔ x.isOk = true ∧ P := by
  cases x with
  | error e => exact iff_of_false (fun h => by cases h) fun ⟨h, _⟩ => by cases h
  | ok a => exact (h a).trans (iff_and_self.2 fun _ => rfl)

theorem isOk_bind_pure (x : Except ε α) (f : α → β) :
    (x >>= fun a => pure (f a)).isOk = x.isOk := by
  cases x <;> rfl

theorem isOk_mapM_iff {f : α → Except ε β} {l : List α} :
    (l.mapM f).isOk = true ↔ ∀ a ∈ l, (f a).isOk = true := by
  induction l with
  | nil => exact iff_of_true rfl (List.forall_mem_nil _)
  | cons a rest ih =>
    have hrest (b : β) : (rest.mapM f >>= fun bs => pure (b :: bs)).isOk = true ↔
        ∀ a ∈ rest, (f a).isOk = true := by rw [isOk_bind_pure, ih]
    rw [List.mapM_cons, isOk_bind_iff hrest, List.forall_mem_cons]

/-- A fold whose steps succeed or fail whatever has been found so far. -/
theorem isOk_foldlM_iff {f : β → α → Except ε β} {P : α → Prop} {l : List α}
    (h : ∀ a ∈ l, ∀ b, (f b a).isOk = true ↔ P a) (b : β) :
    (l.foldlM f b).isOk = true ↔ ∀ a ∈ l, P a := by
  induction l generalizing b with
  | nil => exact iff_of_true rfl (List.forall_mem_nil _)
  | cons a rest ih =>
    have hrest (c : β) : (rest.foldlM f c).isOk = true ↔ ∀ a ∈ rest, P a :=
      ih (fun a ha => h a (List.mem_cons_of_mem _ ha)) c
    rw [List.foldlM_cons, isOk_bind_iff hrest, h a List.mem_cons_self, List.forall_mem_cons]

theorem mapM_eq_ok_iff {f : α → Except ε β} {l : List α} {bs : List β} :
    l.mapM f = .ok bs ↔ List.Forall₂ (fun a b => f a = .ok b) l bs := by
  induction l generalizing bs with
  | nil =>
    rw [List.mapM_nil, List.forall₂_nil_left_iff]
    exact ⟨fun h => by cases h; rfl, fun h => by rw [h]; rfl⟩
  | cons a rest ih =>
    simp only [List.mapM_cons, bind_eq_ok_iff, ih, List.forall₂_cons_left_iff]
    constructor
    · rintro ⟨b, hb, cs, hr, h⟩
      cases h
      exact ⟨b, cs, hb, hr, rfl⟩
    · rintro ⟨b, cs, hb, hr, rfl⟩
      exact ⟨b, hb, cs, hr, rfl⟩

theorem exists_of_forall₂ {R : α → β → Prop} {l : List α} {bs : List β}
    (h : List.Forall₂ R l bs) : ∀ b ∈ bs, ∃ a ∈ l, R a b := by
  induction h with
  | nil => simp
  | @cons a b rest bs hb _ ih =>
    refine List.forall_mem_cons.2 ⟨⟨a, List.mem_cons_self, hb⟩, fun b hm => ?_⟩
    obtain ⟨a, ha, h⟩ := ih b hm
    exact ⟨a, List.mem_cons_of_mem _ ha, h⟩

theorem exists_of_mapM {f : α → Except ε β} {l : List α} {bs : List β}
    (h : l.mapM f = .ok bs) : ∀ b ∈ bs, ∃ a ∈ l, f a = .ok b :=
  exists_of_forall₂ (mapM_eq_ok_iff.1 h)

theorem forall_of_mapM {f : α → Except ε β} {P : β → Prop} {l : List α} {bs : List β}
    (h : l.mapM f = .ok bs) (step : ∀ a b, f a = .ok b → P b) : ∀ b ∈ bs, P b := by
  intro b hb
  obtain ⟨a, -, ha⟩ := exists_of_mapM h b hb
  exact step a b ha

theorem ok_of_mapM {f : α → Except ε β} {l : List α} {bs : List β} (h : l.mapM f = .ok bs) :
    ∀ a ∈ l, ∃ b, f a = .ok b := by
  replace h := mapM_eq_ok_iff.1 h
  induction h with
  | nil => simp
  | cons hb _ ih => exact List.forall_mem_cons.2 ⟨⟨_, hb⟩, ih⟩

theorem foldlM_keeps_of_mem {f : β → α → Except ε β} {P : β → Prop} {l : List α}
    (step : ∀ a ∈ l, ∀ b c, P b → f b a = .ok c → P c) {b r : β} (hb : P b)
    (h : l.foldlM f b = .ok r) : P r := by
  induction l generalizing b with
  | nil =>
    cases h
    exact hb
  | cons a rest ih =>
    rw [List.foldlM_cons] at h
    obtain ⟨c, hc, hr⟩ := bind_eq_ok_iff.1 h
    have hstep := List.forall_mem_cons.1 step
    exact ih hstep.2 (hstep.1 b c hb hc) hr

theorem foldlM_keeps {f : β → α → Except ε β} {P : β → Prop}
    (step : ∀ b a c, P b → f b a = .ok c → P c) {l : List α} {b r : β} (hb : P b)
    (h : l.foldlM f b = .ok r) : P r :=
  foldlM_keeps_of_mem (fun a _ b c => step b a c) hb h

/-- A fold that puts the result of every item in front of those before it. -/
theorem foldlM_prepend_eq_ok_iff {f : α → Except ε (List β)} {l : List α} {init r : List β} :
    l.foldlM (fun done a => do return (← f a) ++ done) init = .ok r ↔
      ∃ parts, l.mapM f = .ok parts ∧ r = parts.reverse.flatten ++ init := by
  simp only [mapM_eq_ok_iff]
  induction l generalizing init with
  | nil =>
    simp only [List.foldlM_nil, List.forall₂_nil_left_iff, exists_eq_left]
    exact ⟨fun h => by cases h; rfl, fun h => by rw [h]; rfl⟩
  | cons a rest ih =>
    simp only [List.foldlM_cons, bind_eq_ok_iff, ih, List.forall₂_cons_left_iff]
    constructor
    · rintro ⟨_, ⟨part, hp, h⟩, parts, hr, rfl⟩
      cases h
      exact ⟨part :: parts, ⟨part, parts, hp, hr, rfl⟩, by simp⟩
    · rintro ⟨_, ⟨part, parts, hp, hr, rfl⟩, rfl⟩
      exact ⟨part ++ init, ⟨part, hp, rfl⟩, parts, hr, by simp⟩

end Theming
