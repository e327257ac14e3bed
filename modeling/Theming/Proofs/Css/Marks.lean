import Mathlib.Data.List.Chain
import Mathlib.Data.List.ReduceOption
import Theming.Proofs.Css.Stretches

/-! Keys with marks. A stretch without `&` is put behind its parent and a space, and a mark stands
in the place where that happens. Since marks stand at the front, behind commas and behind closing
brackets only, the text under a parent tells where they are. -/

namespace Theming

theorem Text.replace_of_not_mem {c : Char} {replacement text : List Char} (h : c ∉ text) :
    replace c replacement text = text := by
  have hsame : ∀ d ∈ text, (if d = c then replacement else [d]) = [d] := by
    intro d hd
    rw [if_neg]
    intro he
    exact h (he ▸ hd)
  rw [replace, List.flatMap_congr hsame, List.flatMap_singleton']

namespace Selector

/-- The characters of a stretch, with `none` in front where a parent and a space are put. -/
def mark (stretch : List Char) : List (Option Char) :=
  if '&' ∈ stretch then stretch.map some else none :: stretch.map some

/-- How a key is read: stretch by stretch, with the commas between them. -/
inductive Marked : List Char → List (Option Char) → Prop
  | nil : Marked [] []
  | comma {rest : List Char} {marked : List (Option Char)} (next : Marked rest marked) :
      Marked (',' :: rest) (some ',' :: marked)
  | stretch {text stretch rest : List Char} {marked : List (Option Char)}
      (here : Reads text stretch rest) (next : Marked rest marked) :
      Marked text (mark stretch ++ marked)

def fill (parent : List Char) (marked : List (Option Char)) : List Char :=
  marked.flatMap fun
    | none => parent ++ [' ']
    | some c => if c = '&' then parent else [c]

def partwise (parts : List (List Char)) : List (Option Char) :=
  [some ','].intercalate (parts.map mark)

/-- A mark stands behind a comma or a closing bracket, unless it is the first of all. -/
def MayFollow (before after : Option Char) : Prop :=
  after = none → before = some ',' ∨ before = some ')'

theorem fill_append (parent : List Char) (x y : List (Option Char)) :
    fill parent (x ++ y) = fill parent x ++ fill parent y :=
  List.flatMap_append

theorem fill_map_some (parent text : List Char) :
    fill parent (text.map some) = Text.replace '&' parent text := by
  rw [fill, List.flatMap_map, Text.replace]

theorem fill_mark (parent part : List Char) : fill parent (mark part) = under parent part := by
  unfold mark under
  split
  · exact fill_map_some parent part
  · next h =>
    have hfill : fill parent (none :: part.map some) =
        parent ++ [' '] ++ fill parent (part.map some) := rfl
    rw [hfill, fill_map_some, Text.replace_of_not_mem h, List.append_assoc, List.singleton_append]

theorem reduceOption_map_some (text : List Char) : (text.map some).reduceOption = text := by
  induction text with
  | nil => rfl
  | cons c rest ih => rw [List.map_cons, List.reduceOption_cons_of_some, ih]

theorem reduceOption_mark (part : List Char) : (mark part).reduceOption = part := by
  unfold mark
  split
  · exact reduceOption_map_some part
  · rw [List.reduceOption_cons_of_none, reduceOption_map_some]

theorem isChain_cons_map_some (before : Option Char) (text : List Char) :
    (before :: text.map some).IsChain MayFollow := by
  induction text generalizing before with
  | nil => exact .singleton before
  | cons c rest ih => exact List.isChain_cons_cons.2 ⟨fun he => (nomatch he), ih (some c)⟩

theorem isChain_mark (part : List Char) : (mark part).IsChain MayFollow := by
  unfold mark
  split
  · exact (List.isChain_cons.1 (isChain_cons_map_some none part)).2
  · exact isChain_cons_map_some none part

theorem partwise_cons (part next : List Char) (rest : List (List Char)) :
    partwise (part :: next :: rest) = mark part ++ some ',' :: partwise (next :: rest) := by
  simp [partwise, List.intercalate]

theorem exists_intercalate_cons (part : List Char) (others : List (List Char)) :
    ∃ tail, [','].intercalate (part :: others) = part ++ tail := by
  cases others with
  | nil => exact ⟨[], by simp⟩
  | cons next others => exact ⟨_, intercalate_comma_cons part next others⟩

theorem partwise_singleton (part : List Char) : partwise [part] = mark part := by
  simp [partwise, List.intercalate]

theorem reduceOption_partwise (parts : List (List Char)) :
    (partwise parts).reduceOption = [','].intercalate parts := by
  induction parts with
  | nil => rfl
  | cons part rest ih =>
    cases rest with
    | nil => simp [partwise_singleton, reduceOption_mark]
    | cons next rest =>
      rw [partwise_cons, intercalate_comma_cons, List.reduceOption_append, reduceOption_mark,
        List.reduceOption_cons_of_some, ih]

theorem fill_partwise (parent : List Char) (parts : List (List Char)) :
    fill parent (partwise parts) = [','].intercalate (parts.map (under parent)) := by
  induction parts with
  | nil => rfl
  | cons part rest ih =>
    cases rest with
    | nil => simp [partwise_singleton, fill_mark]
    | cons next rest =>
      rw [partwise_cons, fill_append, fill_mark, List.map_cons, List.map_cons,
        intercalate_comma_cons, ← List.map_cons, ← ih]
      rfl

theorem isChain_partwise (parts : List (List Char)) : (partwise parts).IsChain MayFollow := by
  induction parts with
  | nil => exact .nil
  | cons part rest ih =>
    cases rest with
    | nil => exact partwise_singleton part ▸ isChain_mark part
    | cons next rest =>
      rw [partwise_cons]
      refine List.isChain_append.2 ⟨isChain_mark part, List.isChain_cons.2 ⟨?_, ih⟩, ?_⟩
      · exact fun _ _ _ => .inl rfl
      · intro before _ after hafter he
        cases hafter
        cases he

namespace Marked

variable {text : List Char} {marked other : List (Option Char)}

theorem unique (h : Marked text marked) (h' : Marked text other) : marked = other := by
  induction h generalizing other with
  | nil =>
    cases h' with
    | nil => rfl
    | stretch here next => exact absurd (List.append_eq_nil_iff.1 here.split.symm).1 here.ne_nil
  | comma next ih =>
    cases h' with
    | comma next' => rw [ih next']
    | stretch here next => exact absurd rfl here.head?_ne
  | stretch here next ih =>
    cases h' with
    | nil => exact absurd (List.append_eq_nil_iff.1 here.split.symm).1 here.ne_nil
    | comma next' => exact absurd rfl here.head?_ne
    | stretch here' next' =>
      obtain ⟨rfl, rfl⟩ := here.unique here'
      rw [ih next']

theorem reduceOption_eq (h : Marked text marked) : marked.reduceOption = text := by
  induction h with
  | nil => rfl
  | comma next ih => rw [List.reduceOption_cons_of_some, ih]
  | stretch here next ih => rw [List.reduceOption_append, reduceOption_mark, ih, ← here.split]

theorem head?_ne_none (h : Marked text marked) (hc : ∀ c, text.head? = some c → c = ',') :
    marked.head? ≠ some none := by
  cases h with
  | nil => simp
  | comma next => simp
  | stretch here next =>
    obtain ⟨c, others, hs⟩ := List.exists_cons_of_ne_nil here.ne_nil
    have hhead : text.head? = some c := by rw [here.split, hs]; rfl
    exact absurd (hc c hhead ▸ hhead) here.head?_ne

theorem isChain (h : Marked text marked) : marked.IsChain MayFollow := by
  induction h with
  | nil => exact .nil
  | comma next ih => exact List.isChain_cons.2 ⟨fun _ _ _ => .inl rfl, ih⟩
  | @stretch text stretch rest marked here next ih =>
    refine List.isChain_append.2 ⟨isChain_mark stretch, ih, fun before hb after ha he => ?_⟩
    subst he
    rcases here.ends with hlast | hstop
    · obtain ⟨front, rfl⟩ := List.getLast?_eq_some_iff.1 hlast
      have hb' : (mark (front ++ [')'])).getLast? = some (some ')') := by
        unfold mark
        split <;> simp [List.getLast?_cons]
      exact .inr (Option.some.inj (Option.mem_def.1 hb ▸ hb'))
    · exact absurd (Option.mem_def.1 ha) (next.head?_ne_none hstop)

theorem mapPartsFrom_eq (h : Marked text marked) (parent : List Char) :
    mapPartsFrom (under parent) 0 text = fill parent marked := by
  induction h with
  | nil => rfl
  | comma next ih => rw [mapPartsFrom_comma, ih]; rfl
  | @stretch text stretch rest marked here next ih =>
    obtain ⟨c, others, hs⟩ := List.exists_cons_of_ne_nil here.ne_nil
    have htext : text = c :: (others ++ rest) := by rw [here.split, hs]; rfl
    have hc : c ≠ ',' := fun he => here.head?_ne (by rw [htext, he]; rfl)
    obtain ⟨n, hn, hreads⟩ := exists_reads (others ++ rest) hc
    rw [← htext] at hn hreads
    obtain ⟨htake, hdrop⟩ := hreads.unique here
    have hpos : 0 < n := by
      have hne := htake ▸ here.ne_nil
      by_contra hzero
      exact hne (by rw [Nat.eq_zero_of_not_pos hzero, List.take_zero])
    rw [mapPartsFrom_of_partLength (under parent) hn hpos, htake, hdrop, ih, fill_append, fill_mark]

end Marked

theorem exists_marked (text : List Char) : ∃ marked, Marked text marked := by
  induction hn : text.length using Nat.strong_induction_on generalizing text with
  | _ n ih =>
    cases text with
    | nil => exact ⟨[], .nil⟩
    | cons c rest =>
      by_cases hc : c = ','
      · subst hc
        obtain ⟨marked, hm⟩ := ih rest.length (by simp at hn; omega) rest rfl
        exact ⟨_, .comma hm⟩
      · obtain ⟨k, -, here⟩ := exists_reads rest hc
        have hpos : 0 < ((c :: rest).take k).length := List.length_pos_iff.2 here.ne_nil
        have hless : ((c :: rest).drop k).length < n := by
          have hsum := congrArg List.length here.split
          rw [List.length_append] at hsum
          omega
        obtain ⟨marked, hm⟩ := ih _ hless _ rfl
        exact ⟨_, .stretch here hm⟩

/-- A mark at the end of one text and a character at the end of the other cannot give the same. -/
theorem fill_concat_ne {parent u v : List Char} {x y : List (Option Char)} {c : Char}
    (hx : (x ++ [none]).IsChain MayFollow) (hr : x.reduceOption = y.reduceOption ++ [c]) :
    u ++ fill parent (x ++ [none]) ≠ v ++ fill parent (y ++ [some c]) := by
  have hc : c = ',' ∨ c = ')' := by
    rcases List.eq_nil_or_concat' x with rfl | ⟨front, before, rfl⟩
    · simp at hr
    · have hlast := (List.isChain_append.1 hx).2.2 before (by simp) none rfl rfl
      rw [List.reduceOption_append] at hr
      rcases hlast with rfl | rfl
      · exact .inl (List.cons.inj (List.append_inj' hr rfl).2).1.symm
      · exact .inr (List.cons.inj (List.append_inj' hr rfl).2).1.symm
  have hmark : fill parent [none] = parent ++ [' '] := by simp [fill]
  have hplain : fill parent [some c] = [c] := by
    rcases hc with rfl | rfl <;> rfl
  have hspace : ' ' ≠ c := by
    rcases hc with rfl | rfl <;> decide
  intro he
  rw [fill_append, fill_append, hmark, hplain, ← List.append_assoc, ← List.append_assoc,
    ← List.append_assoc] at he
  exact hspace (List.cons.inj (List.append_inj' he rfl).2).1

def AfterComma (text : List Char) : Prop := text = [] ∨ ∃ front, text = front ++ [',']

theorem fill_concat_ne_of_nil {parent u v : List Char} {x : List (Option Char)} {a : Option Char}
    (hu : AfterComma u) (hr : (x ++ [a]).reduceOption = []) :
    u ≠ v ++ fill parent (x ++ [a]) := by
  obtain rfl : a = none := by
    cases a with
    | none => rfl
    | some c => simp [List.reduceOption_append] at hr
  have hmark : fill parent [none] = parent ++ [' '] := by simp [fill]
  intro he
  rw [fill_append, hmark, ← List.append_assoc, ← List.append_assoc] at he
  rcases hu with rfl | ⟨front, rfl⟩
  · simp at he
  · exact absurd (List.cons.inj (List.append_inj' he rfl).2).1 (by decide)

/-- What a marked text gives under a parent tells where its marks are. -/
theorem eq_of_fill_eq {parent u v : List Char} {x y : List (Option Char)}
    (hx : x.IsChain MayFollow) (hy : y.IsChain MayFollow) (hr : x.reduceOption = y.reduceOption)
    (hu : AfterComma u) (hv : AfterComma v) (h : u ++ fill parent x = v ++ fill parent y) :
    x = y := by
  induction x using List.reverseRecOn generalizing y with
  | nil =>
    rcases List.eq_nil_or_concat' y with rfl | ⟨y, b, rfl⟩
    · rfl
    · rw [fill, List.flatMap_nil, List.append_nil] at h
      exact absurd h (fill_concat_ne_of_nil hu hr.symm)
  | append_singleton x a ih =>
    rcases List.eq_nil_or_concat' y with rfl | ⟨y, b, rfl⟩
    · rw [fill.eq_def parent [], List.flatMap_nil, List.append_nil] at h
      exact absurd h.symm (fill_concat_ne_of_nil hv hr)
    · rw [List.reduceOption_append, List.reduceOption_append] at hr
      have hends (hab : a = b) : x ++ [a] = y ++ [b] := by
        subst hab
        rw [fill_append, fill_append, ← List.append_assoc, ← List.append_assoc] at h
        rw [ih (List.isChain_append.1 hx).1 (List.isChain_append.1 hy).1
          (List.append_cancel_right hr) (List.append_cancel_right h)]
      cases a with
      | none =>
        cases b with
        | none => exact hends rfl
        | some c => exact absurd h (fill_concat_ne hx (by simpa using hr))
      | some c =>
        cases b with
        | none => exact absurd h.symm (fill_concat_ne hy (by simpa using hr.symm))
        | some d => exact hends (congrArg some (List.cons.inj (List.append_inj' hr rfl).2).1)

end Selector

end Theming
