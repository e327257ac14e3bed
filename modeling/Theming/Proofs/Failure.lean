import Theming.Proofs.Success

/-! When computations that may fail do fail: one of their steps does. -/

namespace Theming

variable {ε α β : Type}

def FailsIn (P : ε → Prop) (x : Except ε α) : Prop := ∀ error, x = .error error → P error

namespace FailsIn

variable {P Q : ε → Prop}

theorem ok (a : α) : FailsIn P (.ok a : Except ε α) := fun _ h => by cases h

theorem error {e : ε} (h : P e) : FailsIn P (.error e : Except ε α) := fun _ he => by
  cases he
  exact h

theorem mono {x : Except ε α} (h : FailsIn P x) (hpq : ∀ error, P error → Q error) :
    FailsIn Q x :=
  fun error he => hpq error (h error he)

theorem bind {x : Except ε α} {f : α → Except ε β} (hx : FailsIn P x)
    (hf : ∀ a, FailsIn P (f a)) : FailsIn P (x >>= f) := by
  cases x with
  | error e => exact .error (hx e rfl)
  | ok a => exact hf a

theorem map {x : Except ε α} (h : FailsIn P x) (f : α → β) : FailsIn P (x.map f) := by
  cases x with
  | error e => exact .error (h e rfl)
  | ok a => exact .ok (f a)

theorem mapM {f : α → Except ε β} {l : List α} (hf : ∀ a ∈ l, FailsIn P (f a)) :
    FailsIn P (l.mapM f) := by
  induction l with
  | nil => exact .ok []
  | cons a rest ih =>
    rw [List.mapM_cons]
    have hrest := ih fun b hb => hf b (List.mem_cons_of_mem a hb)
    exact (hf a List.mem_cons_self).bind fun b => hrest.bind fun bs => .ok (b :: bs)

theorem foldlM {f : β → α → Except ε β} {l : List α} {b : β}
    (hf : ∀ b, ∀ a ∈ l, FailsIn P (f b a)) : FailsIn P (l.foldlM f b) := by
  induction l generalizing b with
  | nil => exact .ok b
  | cons a rest ih =>
    rw [List.foldlM_cons]
    exact (hf b a List.mem_cons_self).bind
      fun c => ih fun b d hd => hf b d (List.mem_cons_of_mem a hd)

end FailsIn

end Theming
