import Theming.Proofs.Variables.Substitution

/-! Dollars in texts. Of all values, only texts have any. Two in a row are a reference wherever they
are. In a text that has been joined from parts they are in one of the parts, or at the end of one
and at the start of what is behind it. -/

namespace Theming

theorem dollar_not_mem_toDigits (n : Nat) : '$' ∉ Nat.toDigits 10 n := by
  intro h
  have hdigit := Nat.isDigit_of_mem_toDigits (by decide) (by decide) h
  exact absurd hdigit (by decide)

namespace DecimalLayout

variable {digits : List Char}

theorem dollar_not_mem_significant (n : Nat) : '$' ∉ significant n := by
  intro h
  have hdrop := List.mem_reverse.1 h
  have hdigits := (List.dropWhile_suffix _).subset hdrop
  exact dollar_not_mem_toDigits n (List.mem_reverse.1 hdigits)

theorem dollar_not_mem_positional (h : '$' ∉ digits) (exponent : Int) :
    '$' ∉ positional digits exponent := by
  have htake (n : Nat) : '$' ∉ digits.take n := fun hm => h (List.mem_of_mem_take hm)
  have hdrop (n : Nat) : '$' ∉ digits.drop n := fun hm => h (List.mem_of_mem_drop hm)
  unfold positional
  dsimp only
  split_ifs <;> simp [h, htake, hdrop]

theorem dollar_not_mem_scientific (h : '$' ∉ digits) (exponent : Int) :
    '$' ∉ scientific digits exponent := by
  have htake : '$' ∉ digits.take 1 := fun hm => h (List.mem_of_mem_take hm)
  have hdrop : '$' ∉ digits.drop 1 := fun hm => h (List.mem_of_mem_drop hm)
  have hexponent := dollar_not_mem_toDigits exponent.natAbs
  unfold scientific
  split_ifs <;> simp_all

theorem dollar_not_mem_text (layout : DecimalLayout) (x : Binary64) :
    '$' ∉ (layout.text x).toList := by
  have hmagnitude : '$' ∉ layout.magnitude x := by
    have hdigits := dollar_not_mem_significant x.shortest.digits
    unfold magnitude
    split
    · decide
    · dsimp only
      split
      · exact dollar_not_mem_positional hdigits _
      · exact dollar_not_mem_scientific hdigits _
  rw [text, String.toList_ofList]
  split_ifs <;> simp [hmagnitude]

end DecimalLayout

theorem Number.dollar_not_mem_text (n : Number) : '$' ∉ n.text.toList := by
  cases n with
  | integer n =>
    have hrepr (m : Nat) : '$' ∉ m.repr.toList := by
      rw [Nat.repr, String.toList_ofList]
      exact dollar_not_mem_toDigits m
    cases n with
    | ofNat m => exact hrepr m
    | negSucc m =>
      change '$' ∉ ("-" ++ (m + 1).repr).toList
      rw [String.toList_append, List.mem_append]
      exact fun h => h.elim (by decide) (hrepr _)
  | real x => exact DecimalLayout.dollar_not_mem_text _ x

/-- Only texts have dollars. -/
theorem Value.dollar_not_mem_scalarText {value : Value} (h : ∀ text, value ≠ .text text) :
    '$' ∉ value.scalarText.toList := by
  cases value with
  | text s => exact absurd rfl (h s)
  | number n => exact n.dollar_not_mem_text
  | flag b => cases b <;> decide
  | null | list _ | object _ => exact List.not_mem_nil

theorem pair_infix_append_iff {α : Type} {a b : α} {xs ys : List α} : [a, b] <:+: xs ++ ys ↔
    [a, b] <:+: xs ∨ [a, b] <:+: ys ∨ xs.getLast? = some a ∧ ys.head? = some b := by
  rw [List.infix_append_iff]
  constructor
  · rintro (h | h | ⟨left, right, he, hleft, hright⟩)
    · exact .inl h
    · exact .inr (.inl h)
    · match left, he with
      | [], he =>
        rw [List.nil_append] at he
        exact .inr (.inl (he ▸ hright.isInfix))
      | [_], he =>
        cases he
        obtain ⟨front, rfl⟩ := hleft
        obtain ⟨back, rfl⟩ := hright
        exact .inr (.inr ⟨by simp, by simp⟩)
      | [_, _], he =>
        cases he
        exact .inl hleft.isInfix
  · rintro (h | h | ⟨hlast, hhead⟩)
    · exact .inl h
    · exact .inr (.inl h)
    · obtain ⟨front, rfl⟩ := List.getLast?_eq_some_iff.1 hlast
      obtain ⟨back, rfl⟩ := List.head?_eq_some_iff.1 hhead
      exact .inr (.inr ⟨[a], [b], rfl, List.suffix_append _ _, ⟨back, rfl⟩⟩)

/-- One part ends with a dollar, and what is behind it starts with one. -/
def DollarsMeet (parts : List (List Char)) : Prop :=
  ∃ front part back, parts = front ++ part :: back ∧ part.getLast? = some '$' ∧
    back.flatten.head? = some '$'

theorem mark_infix_flatten_iff {parts : List (List Char)} : ['$', '$'] <:+: parts.flatten ↔
    (∃ part ∈ parts, ['$', '$'] <:+: part) ∨ DollarsMeet parts := by
  constructor
  · intro h
    induction parts with
    | nil =>
      have hnil := List.eq_nil_of_infix_nil h
      cases hnil
    | cons part rest ih =>
      rw [List.flatten_cons] at h
      rcases pair_infix_append_iff.1 h with hpart | hrest | ⟨hlast, hhead⟩
      · exact .inl ⟨part, List.mem_cons_self, hpart⟩
      · rcases ih hrest with ⟨other, hm, hother⟩ | ⟨front, other, back, rfl, hmeet⟩
        · exact .inl ⟨other, List.mem_cons_of_mem _ hm, hother⟩
        · exact .inr ⟨part :: front, other, back, rfl, hmeet⟩
      · exact .inr ⟨[], part, rest, rfl, hlast, hhead⟩
  · rintro (⟨part, hm, hpart⟩ | ⟨front, part, back, rfl, hlast, hhead⟩)
    · exact hpart.trans (List.infix_of_mem_flatten hm)
    · have hseam : ['$', '$'] <:+: part ++ back.flatten :=
        pair_infix_append_iff.2 (.inr (.inr ⟨hlast, hhead⟩))
      rw [List.flatten_append, List.flatten_cons]
      exact hseam.trans (List.suffix_append _ _).isInfix

theorem hasReference_iff {text : List Char} :
    hasReference text = true ↔ ['$', '$'] <:+: text := by
  constructor
  · intro h
    by_contra hunmarked
    have hnone : referencedPaths text = [] := by
      rw [referencedPaths, pieces_unmarked hunmarked, List.filterMap_map, List.filterMap_eq_nil_iff]
      exact fun _ _ => rfl
    rw [hasReference, hnone] at h
    cases h
  · intro h
    obtain ⟨path, hm⟩ : ∃ path, Piece.reference path ∈ pieces text := by
      fun_induction pieces text
      case case1 rest _ => exact ⟨_, List.mem_cons_self⟩
      case case2 c rest single ih =>
        rcases List.infix_cons_iff.1 h with ⟨others, he⟩ | hrest
        · cases he
          exact absurd rfl (single others rfl)
        · obtain ⟨path, hm⟩ := ih hrest
          exact ⟨path, List.mem_cons_of_mem _ hm⟩
      case case3 =>
        have hnil := List.eq_nil_of_infix_nil h
        cases hnil
    rw [hasReference]
    have hpath := mem_referencedPaths.2 hm
    cases hpaths : referencedPaths text with
    | nil =>
      rw [hpaths] at hpath
      cases hpath
    | cons _ _ => rfl

end Theming
