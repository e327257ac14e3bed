import Theming.Proofs.Success

/-! When one computation has the result of another wherever that one succeeds. -/

namespace Theming

variable {ε α β : Type}

/-- The second computation has the result of the first, if that one has any. -/
def RefinedBy (x y : Except ε α) : Prop := ∀ a, x = .ok a → y = .ok a

namespace RefinedBy

variable {x y z : Except ε α}

theorem refl (x : Except ε α) : RefinedBy x x := fun _ h => h

theorem error (e : ε) (y : Except ε α) : RefinedBy (.error e) y := fun _ h => by cases h

theorem trans (h : RefinedBy x y) (h' : RefinedBy y z) : RefinedBy x z :=
  fun a ha => h' a (h a ha)

theorem bind {f g : α → Except ε β} (hx : RefinedBy x y) (hf : ∀ a, RefinedBy (f a) (g a)) :
    RefinedBy (x >>= f) (y >>= g) := by
  intro b hb
  obtain ⟨a, ha, hb⟩ := bind_eq_ok_iff.1 hb
  exact bind_eq_ok_iff.2 ⟨a, hx a ha, hf a b hb⟩

theorem map (h : RefinedBy x y) (f : α → β) : RefinedBy (x.map f) (y.map f) := by
  cases x with
  | error e => exact .error e _
  | ok a =>
    rw [h a rfl]
    exact .refl _

theorem mapM {f g : α → Except ε β} {l : List α} (hf : ∀ a ∈ l, RefinedBy (f a) (g a)) :
    RefinedBy (l.mapM f) (l.mapM g) := by
  induction l with
  | nil => exact .refl _
  | cons a rest ih =>
    have hrest := ih fun b hb => hf b (List.mem_cons_of_mem a hb)
    rw [List.mapM_cons, List.mapM_cons]
    exact (hf a List.mem_cons_self).bind fun b => hrest.bind fun bs => .refl _

theorem foldlM {f g : β → α → Except ε β} {l : List α} {b : β}
    (hf : ∀ b, ∀ a ∈ l, RefinedBy (f b a) (g b a)) : RefinedBy (l.foldlM f b) (l.foldlM g b) := by
  induction l generalizing b with
  | nil => exact .refl _
  | cons a rest ih =>
    rw [List.foldlM_cons, List.foldlM_cons]
    exact (hf b a List.mem_cons_self).bind
      fun c => ih fun b d hd => hf b d (List.mem_cons_of_mem a hd)

end RefinedBy

/-- Two computations have the same result or both fail exactly if each refines the other. -/
theorem toOption_eq_iff {x y : Except ε α} :
    x.toOption = y.toOption ↔ RefinedBy x y ∧ RefinedBy y x := by
  cases x with
  | error e =>
    cases y with
    | error e' => exact iff_of_true rfl ⟨.error e _, .error e' _⟩
    | ok b => exact iff_of_false (fun h => nomatch h) (fun ⟨_, h⟩ => nomatch h b rfl)
  | ok a =>
    refine ⟨fun h => ?_, fun ⟨h, _⟩ => by rw [h a rfl]⟩
    cases y with
    | error e => cases h
    | ok b =>
      cases h
      exact ⟨.refl _, .refl _⟩

theorem toOption_bind_congr {x y : Except ε α} (h : x.toOption = y.toOption)
    (f : α → Except ε β) : (x >>= f).toOption = (y >>= f).toOption := by
  obtain ⟨hxy, hyx⟩ := toOption_eq_iff.1 h
  exact toOption_eq_iff.2 ⟨hxy.bind fun _ => .refl _, hyx.bind fun _ => .refl _⟩

end Theming
