import Theming.Proofs.Css.Marks

/-! Nested selectors part by part. A key is a list of parts with commas between them, and a comma
between brackets is no end of a part. Whether a key stands for all its parts below all parents
depends on the stretches in which it is read. They can end inside a part, behind its arguments, and
they can go on over commas if there is no space before the next bracket. -/

namespace Theming.Selector

/-- Every part below every parent, those of the first parent first. -/
def expanded (parents parts : List String) : String :=
  ",".intercalate (parents.flatMap fun parent =>
    parts.map fun part => String.ofList (under parent.toList part.toList))

theorem exists_front_intercalate (f : String → List Char) (front : List String) (last : String) :
    ∃ u, AfterComma u ∧ [','].intercalate ((front ++ [last]).map f) = u ++ f last := by
  induction front with
  | nil => exact ⟨[], .inl rfl, by simp⟩
  | cons parent front ih =>
    obtain ⟨u, hu, h⟩ := ih
    refine ⟨f parent ++ ',' :: u, .inr ?_, ?_⟩
    · rcases hu with rfl | ⟨before, rfl⟩
      · exact ⟨f parent, rfl⟩
      · exact ⟨f parent ++ ',' :: before, by simp⟩
    · obtain ⟨next, rest, hs⟩ := List.exists_cons_of_ne_nil (l := front ++ [last]) (by simp)
      rw [List.cons_append, hs, List.map_cons, List.map_cons, intercalate_comma_cons,
        ← List.map_cons, ← hs, h]
      simp

theorem toList_expanded (parents parts : List String) (hne : parts ≠ []) :
    (expanded parents parts).toList = [','].intercalate (parents.map fun parent =>
      fill parent.toList (partwise (parts.map String.toList))) := by
  have hchildren (parent : String) :
      (parts.map fun part => String.ofList (under parent.toList part.toList)) ≠ [] := by
    simpa using hne
  rw [expanded, intercalate_flatMap hchildren, String.toList_intercalate, List.map_map]
  refine congrArg _ (List.map_congr_left fun parent _ => ?_)
  rw [Function.comp_apply, String.toList_intercalate, fill_partwise, List.map_map, List.map_map]
  refine congrArg _ (List.map_congr_left fun part _ => ?_)
  simp

theorem nest_eq_fill {parents : List String} (hp : Parents parents) {key : String}
    {marked : List (Option Char)} (hm : Marked key.toList marked) :
    nest (",".intercalate parents) key =
      ",".intercalate (parents.map fun parent => String.ofList (fill parent.toList marked)) := by
  rw [hp.nest_eq]
  refine congrArg _ (List.map_congr_left fun parent _ => ?_)
  rw [mapParts, hm.mapPartsFrom_eq]

theorem nest_eq_expanded_iff {parents parts : List String} (hp : Parents parents)
    (hne : parts ≠ []) {marked : List (Option Char)}
    (hm : Marked (",".intercalate parts).toList marked) :
    nest (",".intercalate parents) (",".intercalate parts) = expanded parents parts ↔
      marked = partwise (parts.map String.toList) := by
  have hkey : (",".intercalate parts).toList = [','].intercalate (parts.map String.toList) :=
    String.toList_intercalate
  rw [nest_eq_fill hp hm, ← String.toList_inj, toList_expanded parents parts hne,
    String.toList_intercalate, List.map_map]
  constructor
  · intro h
    obtain ⟨front, last, rfl⟩ := (List.eq_nil_or_concat' parents).resolve_left hp.ne_nil
    -- the selectors in front end with a comma, so the texts below the last parent can be compared
    obtain ⟨u, hu, hleft⟩ := exists_front_intercalate
      (fun parent => fill parent.toList marked) front last
    obtain ⟨v, hv, hright⟩ := exists_front_intercalate
      (fun parent => fill parent.toList (partwise (parts.map String.toList))) front last
    have hreduce : marked.reduceOption = (partwise (parts.map String.toList)).reduceOption := by
      rw [hm.reduceOption_eq, reduceOption_partwise, hkey]
    have hlast : u ++ fill last.toList marked =
        v ++ fill last.toList (partwise (parts.map String.toList)) := by
      rw [← hleft, ← hright, ← h]
      refine congrArg _ (List.map_congr_left fun parent _ => ?_)
      rw [Function.comp_apply, String.toList_ofList]
    exact eq_of_fill_eq hm.isChain (isChain_partwise _) hreduce hu hv hlast
  · rintro rfl
    refine congrArg _ (List.map_congr_left fun parent _ => ?_)
    rw [Function.comp_apply, String.toList_ofList]

/-- A part that stands for its parent somewhere. Only arguments at its end have a closing bracket,
and without arguments it has no comma. -/
structure Compact (part : List Char) : Prop where
  parent : '&' ∈ part
  bracket : ')' ∉ part.dropLast
  comma : ',' ∈ part → ∃ head name args, Functional part head name args []

theorem Functional.append {text head name args rest : List Char}
    (h : Functional text head name args rest) (tail : List Char) :
    Functional (text ++ tail) head name args (rest ++ tail) := by
  obtain ⟨call, rfl, hcall⟩ := h.call
  refine ⟨h.plain, call ++ tail, by simp, ?_, hcall.ne_nil, hcall.solid, hcall.closed⟩
  rw [hcall.split]
  simp

/-- What is read from the front is some of the parts, with a comma behind them if others follow. -/
def Takes (parts : List (List Char)) (stretch rest : List Char) : Prop :=
  ∃ taken left, parts = taken ++ left ∧ taken ≠ [] ∧ stretch = [','].intercalate taken ∧
    (left = [] ∧ rest = [] ∨ left ≠ [] ∧ rest = ',' :: [','].intercalate left)

theorem Takes.cons {parts : List (List Char)} {stretch rest : List Char}
    (h : Takes parts stretch rest) (part : List Char) :
    Takes (part :: parts) (part ++ ',' :: stretch) rest := by
  obtain ⟨taken, left, rfl, hne, rfl, hrest⟩ := h
  obtain ⟨first, others, rfl⟩ := List.exists_cons_of_ne_nil hne
  have hstretch := intercalate_comma_cons part first others
  exact ⟨part :: first :: others, left, rfl, by simp, hstretch.symm, hrest⟩

theorem takes_of_bracket {parts : List (List Char)} {before rest : List Char} (hne : parts ≠ [])
    (hparts : ∀ part ∈ parts, ')' ∉ part.dropLast)
    (h : [','].intercalate parts = before ++ ')' :: rest) : Takes parts (before ++ [')']) rest := by
  induction parts generalizing before with
  | nil => exact absurd rfl hne
  | cons part parts ih =>
    have hlast {others : List Char} (he : part = before ++ ')' :: others) : others = [] := by
      by_contra ho
      refine hparts part List.mem_cons_self ?_
      rw [he, List.dropLast_append_of_ne_nil (by simp), List.dropLast_cons_of_ne_nil ho]
      simp
    cases parts with
    | nil =>
      have hpart : part = before ++ ')' :: rest := by simpa using h
      have hnil : rest = [] := hlast hpart
      subst hnil
      exact ⟨[part], [], rfl, by simp, by simpa using hpart.symm, .inl ⟨rfl, rfl⟩⟩
    | cons next parts =>
      rw [intercalate_comma_cons] at h
      rcases List.append_eq_append_iff.1 h with ⟨others, rfl, htail⟩ | ⟨others, hpart, htail⟩
      · cases others with
        | nil => cases htail
        | cons c others =>
          obtain ⟨rfl, hnext⟩ := List.cons.inj htail
          have htaken := ih (by simp) (fun p hp => hparts p (List.mem_cons_of_mem _ hp)) hnext
          simpa using htaken.cons part
      · cases others with
        | nil => cases htail
        | cons c others =>
          obtain ⟨rfl, hrest⟩ := List.cons.inj htail
          have hnil : others = [] := hlast hpart
          subst hnil
          have htail : rest = ',' :: [','].intercalate (next :: parts) := by simpa using hrest
          exact ⟨[part], next :: parts, rfl, by simp, by simpa using hpart.symm,
            .inr ⟨by simp, htail⟩⟩

theorem Reads.takes {parts : List (List Char)} {stretch rest : List Char} (hne : parts ≠ [])
    (hparts : ∀ part ∈ parts, Compact part) (h : Reads ([','].intercalate parts) stretch rest) :
    Takes parts stretch rest := by
  cases h with
  | @functional head name args _ here last =>
    have hsplit : [','].intercalate parts =
        (head ++ ':' :: (name ++ '(' :: args)) ++ ')' :: rest := by
      rw [here.split]
      simp
    simpa using takes_of_bracket hne (fun part hp => (hparts part hp).bracket) hsplit
  | plain split ne_nil within stop none =>
    obtain ⟨part, others, rfl⟩ := List.exists_cons_of_ne_nil hne
    have hplain {tail : List Char} (ht : [','].intercalate (part :: others) = part ++ tail) :
        ',' ∉ part := by
      intro hm
      obtain ⟨head, name, args, here⟩ := (hparts part List.mem_cons_self).comma hm
      exact none _ _ _ _ (ht ▸ here.append tail)
    have hstretch := Reads.eq_takeWhile split within stop
    cases others with
    | nil =>
      have htext : [','].intercalate [part] = part ++ [] := by simp
      have hpart := Reads.eq_takeWhile htext (hplain htext) (by simp)
      obtain rfl : stretch = part := hstretch.trans hpart.symm
      exact ⟨[stretch], [], rfl, by simp, by simp,
        .inl ⟨rfl, List.append_cancel_left (split.symm.trans htext)⟩⟩
    | cons next others =>
      have htext := intercalate_comma_cons part next others
      have hpart := Reads.eq_takeWhile htext (hplain htext) (by simp)
      obtain rfl : stretch = part := hstretch.trans hpart.symm
      exact ⟨[stretch], next :: others, rfl, by simp, by simp,
        .inr ⟨by simp, List.append_cancel_left (split.symm.trans htext)⟩⟩

theorem partwise_of_parent {parts : List (List Char)} (h : ∀ part ∈ parts, '&' ∈ part) :
    partwise parts = ([','].intercalate parts).map some := by
  induction parts with
  | nil => rfl
  | cons part rest ih =>
    have hmark : mark part = part.map some := if_pos (h part List.mem_cons_self)
    cases rest with
    | nil => rw [partwise_singleton, hmark]; simp
    | cons next rest =>
      rw [partwise_cons, intercalate_comma_cons, hmark,
        ih fun p hp => h p (List.mem_cons_of_mem part hp)]
      simp

theorem Compact.head?_ne {part : List Char} (h : Compact part) (tail : List Char) :
    (part ++ tail).head? ≠ some ',' ∧ part ++ tail ≠ [] := by
  obtain ⟨c, others, rfl⟩ := List.exists_cons_of_ne_nil (List.ne_nil_of_mem h.parent)
  refine ⟨fun he => ?_, by simp⟩
  obtain rfl : c = ',' := Option.some.inj he
  obtain ⟨head, name, args, here⟩ := h.comma List.mem_cons_self
  exact here.head?_ne rfl

/-- Compact parts are read one by one or several together, but never in pieces. -/
theorem Compact.marked_eq_map_some {parts : List (List Char)} {marked : List (Option Char)}
    (hparts : ∀ part ∈ parts, Compact part) (h : Marked ([','].intercalate parts) marked) :
    marked = ([','].intercalate parts).map some := by
  induction hn : parts.length using Nat.strong_induction_on generalizing parts marked with
  | _ n ih =>
    cases parts with
    | nil => exact h.unique .nil
    | cons part others =>
      obtain ⟨tail, htext⟩ := exists_intercalate_cons part others
      obtain ⟨hhead, hne⟩ := (hparts part List.mem_cons_self).head?_ne tail
      obtain ⟨c, chars, hchars⟩ := List.exists_cons_of_ne_nil hne
      have hc : c ≠ ',' := fun he => hhead (by rw [hchars, he]; rfl)
      obtain ⟨k, -, here⟩ := exists_reads chars hc
      rw [← hchars, ← htext] at here
      obtain ⟨next, hnext⟩ := exists_marked (([','].intercalate (part :: others)).drop k)
      obtain ⟨taken, left, hsplit, htaken, hstretch, hrest⟩ := here.takes (by simp) hparts
      have hparent : '&' ∈ ([','].intercalate (part :: others)).take k := by
        obtain ⟨first, more, rfl⟩ := List.exists_cons_of_ne_nil htaken
        obtain ⟨behind, hfirst⟩ := exists_intercalate_cons first more
        have hmem : first ∈ part :: others := hsplit ▸ List.mem_append_left _ List.mem_cons_self
        rw [hstretch, hfirst]
        exact List.mem_append_left _ (hparts first hmem).parent
      have hleft : next = (([','].intercalate (part :: others)).drop k).map some := by
        rcases hrest with ⟨-, hrest⟩ | ⟨-, hrest⟩
        · rw [hrest] at hnext ⊢
          exact hnext.unique .nil
        · rw [hrest] at hnext ⊢
          obtain ⟨later, hlater⟩ := exists_marked ([','].intercalate left)
          have hlength : left.length < n := by
            have htake := List.length_pos_iff.2 htaken
            rw [← hn, hsplit, List.length_append]
            omega
          rw [hnext.unique (.comma hlater), ih _ hlength
            (fun p hp => hparts p (hsplit ▸ List.mem_append_right _ hp)) hlater rfl]
          rfl
      rw [h.unique (.stretch here hnext), mark, if_pos hparent, hleft, ← List.map_append,
        List.take_append_drop]

theorem not_mem_intercalate {parts : List (List Char)} {c : Char} (hc : c ≠ ',')
    (h : ∀ part ∈ parts, c ∉ part) : c ∉ [','].intercalate parts := by
  induction parts with
  | nil => simp
  | cons part rest ih =>
    have hpart : c ∉ part := h part List.mem_cons_self
    have hrest : c ∉ [','].intercalate rest := ih fun p hp => h p (List.mem_cons_of_mem part hp)
    cases rest with
    | nil => simpa using hpart
    | cons next rest =>
      rw [intercalate_comma_cons]
      simp [hpart, hc, hrest]

/-- No part has arguments. -/
theorem nest_of_plain {parents parts : List String} (hp : Parents parents) (hne : parts ≠ [])
    (hparts : ∀ part ∈ parts, part ≠ "" ∧ ',' ∉ part.toList ∧ '(' ∉ part.toList) :
    nest (",".intercalate parents) (",".intercalate parts) = expanded parents parts := by
  have hkey : (",".intercalate parts).toList = [','].intercalate (parts.map String.toList) :=
    String.toList_intercalate
  have hplain : ∀ part ∈ parts.map String.toList, part ≠ [] ∧ ',' ∉ part := by
    intro chars hm
    obtain ⟨part, hpart, rfl⟩ := List.mem_map.1 hm
    obtain ⟨hempty, hcomma, -⟩ := hparts part hpart
    exact ⟨fun hnil => hempty (String.toList_eq_nil_iff.1 hnil), hcomma⟩
  have hopen : '(' ∉ [','].intercalate (parts.map String.toList) := by
    refine not_mem_intercalate (by decide) fun chars hm => ?_
    obtain ⟨part, hpart, rfl⟩ := List.mem_map.1 hm
    exact (hparts part hpart).2.2
  rw [hp.nest_eq, ← String.toList_inj, toList_expanded parents parts hne,
    String.toList_intercalate, List.map_map]
  refine congrArg _ (List.map_congr_left fun parent _ => ?_)
  rw [Function.comp_apply, String.toList_ofList, hkey, mapParts_intercalate _ hplain hopen,
    fill_partwise]

/-- Every stretch of a key is put below every parent. That expands the key part by part exactly if
the parents are put in front of the same places, so it does if no part has arguments, and if all
parts are compact. -/
theorem nest_by_parts_iff {parents parts : List String} (hp : Parents parents)
    (hne : parts ≠ []) :
    (∃ marked, Marked (",".intercalate parts).toList marked ∧
      (∀ other, Marked (",".intercalate parts).toList other → other = marked) ∧
      nest (",".intercalate parents) (",".intercalate parts) =
        ",".intercalate (parents.map fun parent => String.ofList (fill parent.toList marked)) ∧
      (nest (",".intercalate parents) (",".intercalate parts) = expanded parents parts ↔
        marked = partwise (parts.map String.toList))) ∧
    ((∀ part ∈ parts, part ≠ "" ∧ ',' ∉ part.toList ∧ '(' ∉ part.toList) →
      nest (",".intercalate parents) (",".intercalate parts) = expanded parents parts) ∧
    ((∀ part ∈ parts, Compact part.toList) →
      nest (",".intercalate parents) (",".intercalate parts) = expanded parents parts) := by
  obtain ⟨marked, hm⟩ := exists_marked (",".intercalate parts).toList
  have hiff := nest_eq_expanded_iff hp hne hm
  refine ⟨⟨marked, hm, fun other ho => ho.unique hm, nest_eq_fill hp hm, hiff⟩,
    nest_of_plain hp hne, fun hparts => hiff.2 ?_⟩
  have hcompact : ∀ part ∈ parts.map String.toList, Compact part := by
    intro chars hc
    obtain ⟨part, hpart, rfl⟩ := List.mem_map.1 hc
    exact hparts part hpart
  have hkey : (",".intercalate parts).toList = [','].intercalate (parts.map String.toList) :=
    String.toList_intercalate
  rw [hkey] at hm
  rw [Compact.marked_eq_map_some hcompact hm,
    partwise_of_parent fun part h => (hcompact part h).parent]

/-- What follows arguments and a space is put below the parent once more. -/
theorem argument_cuts_part :
    Parents [".a"] ∧
      nest ".a" "&:is(b,c) d" = ".a:is(b,c).a  d" ∧
      expanded [".a"] ["&:is(b,c) d"] = ".a:is(b,c) d" ∧
      (∃ marked, Marked "&:is(b,c) d".toList marked ∧
        marked ≠ partwise ["&:is(b,c) d".toList]) ∧
      (∀ part ∈ ["p", "&:hover"], part ≠ "" ∧ ',' ∉ part.toList ∧ '(' ∉ part.toList) ∧
      nest ".a" "p,&:hover" = expanded [".a"] ["p", "&:hover"] ∧
      (∀ part ∈ ["&:not(b,c)", "&:hover"], Compact part.toList) ∧
      nest ".a" "&:not(b,c),&:hover" = expanded [".a"] ["&:not(b,c)", "&:hover"] := by
  have hp : Parents [".a"] := ⟨by simp, by decide +kernel⟩
  have hnest : nest ".a" "&:is(b,c) d" = ".a:is(b,c).a  d" := by decide +kernel
  have hexpanded : expanded [".a"] ["&:is(b,c) d"] = ".a:is(b,c) d" := by decide +kernel
  have hplain : ∀ part ∈ ["p", "&:hover"], part ≠ "" ∧ ',' ∉ part.toList ∧ '(' ∉ part.toList := by
    decide +kernel
  have hcompact : ∀ part ∈ ["&:not(b,c)", "&:hover"], Compact part.toList := by
    simp only [List.forall_mem_cons]
    refine ⟨⟨by decide, by decide, fun _ => ⟨['&'], "not".toList, "b,c".toList, ?_⟩⟩,
      ⟨by decide, by decide, fun h => absurd h (by decide)⟩, List.forall_mem_nil _⟩
    exact ⟨by decide, "not(b,c)".toList, rfl, rfl, by decide, by simp [isSpace], by decide⟩
  have hparent : ",".intercalate [".a"] = ".a" := by decide +kernel
  have hcut := (nest_by_parts_iff hp (List.cons_ne_nil "&:is(b,c) d" [])).1
  have hplain' := (nest_by_parts_iff hp (List.cons_ne_nil "p" ["&:hover"])).2.1 hplain
  have hcompact' :=
    (nest_by_parts_iff hp (List.cons_ne_nil "&:not(b,c)" ["&:hover"])).2.2 hcompact
  rw [hparent, (by decide +kernel : ",".intercalate ["&:is(b,c) d"] = "&:is(b,c) d")] at hcut
  rw [hparent, (by decide +kernel : ",".intercalate ["p", "&:hover"] = "p,&:hover")] at hplain'
  rw [hparent, (by decide +kernel :
    ",".intercalate ["&:not(b,c)", "&:hover"] = "&:not(b,c),&:hover")] at hcompact'
  obtain ⟨marked, hm, -, -, hiff⟩ := hcut
  refine ⟨hp, hnest, hexpanded, ⟨marked, hm, fun he => ?_⟩, hplain, hplain', hcompact, hcompact'⟩
  have hequal := hiff.2 he
  rw [hnest, hexpanded] at hequal
  exact absurd hequal (by decide +kernel)

end Theming.Selector
