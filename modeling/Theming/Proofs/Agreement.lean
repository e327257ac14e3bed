import Theming.Proofs.Failure

/-! When two computations both fail, or both have results that are the same up to some detail. -/

namespace Theming

variable {ε α β γ δ : Type} {f : α → γ} {g : β → δ}

/-- Both fail, or both give results that are the same in what is looked at. -/
def AgreeUpTo (f : α → γ) (x y : Except ε α) : Prop := x.toOption.map f = y.toOption.map f

namespace AgreeUpTo

theorem refl (x : Except ε α) : AgreeUpTo f x x := rfl

theorem of_toOption_eq {x y : Except ε α} (h : x.toOption = y.toOption) : AgreeUpTo f x y :=
  congrArg (Option.map f) h

theorem trans {x y z : Except ε α} (h : AgreeUpTo f x y) (h' : AgreeUpTo f y z) :
    AgreeUpTo f x z :=
  Eq.trans h h'

theorem ok {a b : α} (h : f a = f b) : AgreeUpTo f (.ok a : Except ε α) (.ok b) :=
  congrArg some h

theorem bind {x y : Except ε α} {s t : α → Except ε β} (h : AgreeUpTo f x y)
    (hst : ∀ a b, f a = f b → AgreeUpTo g (s a) (t b)) : AgreeUpTo g (x >>= s) (y >>= t) := by
  unfold AgreeUpTo at h
  cases x with
  | error _ =>
    cases y with
    | error _ => rfl
    | ok _ => cases h
  | ok a =>
    cases y with
    | error _ => cases h
    | ok b => exact hst a b (Option.some.inj h)

theorem map {x y : Except ε α} {s t : α → β} (h : AgreeUpTo f x y)
    (hst : ∀ a b, f a = f b → g (s a) = g (t b)) : AgreeUpTo g (x.map s) (y.map t) := by
  have hbind := h.bind (s := fun a => .ok (s a)) (t := fun b => .ok (t b))
    fun a b hab => ok (hst a b hab)
  exact hbind

theorem weaken {g : α → δ} {x y : Except ε α} (h : AgreeUpTo f x y)
    (hg : ∀ a b, f a = f b → g a = g b) : AgreeUpTo g x y := by
  have hmap := h.map (s := id) (t := id) hg
  cases x <;> cases y <;> exact hmap

theorem mapError {ε' : Type} {x y : Except ε α} (h : AgreeUpTo f x y) (s t : ε → ε') :
    AgreeUpTo f (x.mapError s) (y.mapError t) := by
  cases x <;> cases y <;> exact h

/-- What only depends on the detail that is the same is the same, if failures tell nothing. -/
theorem map_eq {x y : Except ε α} (h : AgreeUpTo f x y) {e : ε} (hx : FailsIn (· = e) x)
    (hy : FailsIn (· = e) y) {s : α → β} (hs : ∀ a b, f a = f b → s a = s b) :
    x.map s = y.map s := by
  cases x with
  | error e' =>
    cases y with
    | error e'' => rw [hx e' rfl, hy e'' rfl]
    | ok _ => cases h
  | ok a =>
    cases y with
    | error _ => cases h
    | ok b => exact congrArg Except.ok (hs a b (Option.some.inj h))

variable {step : α → β → Except ε α}

theorem foldlM (congr : ∀ e s t, f s = f t → AgreeUpTo f (step s e) (step t e)) (l : List β)
    {s t : α} (h : f s = f t) : AgreeUpTo f (l.foldlM step s) (l.foldlM step t) := by
  induction l generalizing s t with
  | nil => exact ok h
  | cons e rest ih =>
    rw [List.foldlM_cons, List.foldlM_cons]
    exact (congr e s t h).bind fun _ _ => ih

/-- One member of the list may be replaced by another one that does the same. -/
theorem foldlM_replace (congr : ∀ e s t, f s = f t → AgreeUpTo f (step s e) (step t e))
    (front back : List β) {d e : β} (h : ∀ s, AgreeUpTo f (step s d) (step s e)) (s : α) :
    AgreeUpTo f ((front ++ d :: back).foldlM step s) ((front ++ e :: back).foldlM step s) := by
  rw [List.foldlM_append, List.foldlM_append]
  refine (refl (f := id) _).bind fun t u htu => ?_
  cases htu
  rw [List.foldlM_cons, List.foldlM_cons]
  exact (h t).bind fun _ _ => foldlM congr back

theorem mapM_replace {t : β → Except ε α} (front back : List β) {d e : β}
    (h : AgreeUpTo f (t d) (t e)) :
    AgreeUpTo (List.map f) ((front ++ d :: back).mapM t) ((front ++ e :: back).mapM t) := by
  have hcons (a b : α) (as bs : List α) (hab : f a = f b) (hs : as.map f = bs.map f) :
      (a :: as).map f = (b :: bs).map f := by
    rw [List.map_cons, List.map_cons, hab, hs]
  induction front with
  | nil =>
    simp only [List.nil_append, List.mapM_cons]
    exact h.bind fun a b hab => (refl (f := List.map f) _).bind fun as bs hs =>
      ok (hcons a b as bs hab hs)
  | cons first rest ih =>
    simp only [List.cons_append, List.mapM_cons]
    exact (refl (f := f) _).bind fun a b hab => ih.bind fun as bs hs =>
      ok (hcons a b as bs hab hs)

end AgreeUpTo

end Theming
