/-! Taking something from the front of a list, with the fact that the rest is shorter. -/

namespace Theming

/-- A result taken from the front of a list, and what is left. -/
structure Taken {τ : Type} (α : Type) (front : List τ) where
  result : α
  rest : List τ
  shorter : rest.length < front.length

def Taken.within {τ α : Type} {inner : List τ} (taken : Taken α inner) (outer : List τ)
    (h : inner.length ≤ outer.length) : Taken α outer :=
  ⟨taken.result, taken.rest, Nat.lt_of_lt_of_le taken.shorter h⟩

/-- What is left of a list after taking something or nothing from its front. -/
abbrev Remainder {τ : Type} (front : List τ) := { rest : List τ // rest.length ≤ front.length }

end Theming
