import Mathlib.Data.List.Induction
import Theming.Css.Selector

/-! Nested selectors as lists of alternatives. A key without arguments stands for its alternatives
under each of the parents. -/

namespace Theming

theorem Text.split_eq_splitOn (separator : Char) (text : List Char) :
    Text.split separator text = text.splitOn separator := by
  induction text with
  | nil => rfl
  | cons c rest ih =>
    rw [Text.split, ih, List.splitOn, List.splitOn, List.splitOnP_cons_eq_if_modifyHead]
    by_cases hc : c = separator
    · simp [hc]
    · have hne : rest.splitOnP (fun d => d == separator) ≠ [] := List.splitOnP_ne_nil _ _
      obtain ⟨first, others, hs⟩ := List.exists_cons_of_ne_nil hne
      simp [hc, hs]

theorem Text.intercalate_split (separator : Char) (text : List Char) :
    [separator].intercalate (Text.split separator text) = text := by
  rw [split_eq_splitOn, List.intercalate_splitOn]

theorem Text.split_intercalate {separator : Char} {parts : List (List Char)}
    (h : ∀ part ∈ parts, separator ∉ part) (hne : parts ≠ []) :
    Text.split separator ([separator].intercalate parts) = parts := by
  rw [split_eq_splitOn, List.splitOn_intercalate separator h hne]

theorem Text.not_mem_of_mem_split {separator : Char} {text part : List Char}
    (h : part ∈ Text.split separator text) : separator ∉ part := by
  induction text generalizing part with
  | nil =>
    rw [List.mem_singleton.1 h]
    exact List.not_mem_nil
  | cons c rest ih =>
    rw [Text.split] at h
    split at h
    · rcases List.mem_cons.1 h with rfl | h
      · exact List.not_mem_nil
      · exact ih h
    · next hc =>
      split at h
      · next first others hs =>
        rcases List.mem_cons.1 h with rfl | h
        · have hfirst : separator ∉ first := ih (by simp [hs])
          simpa [hfirst] using fun he => hc he.symm
        · exact ih (by simp [hs, h])
      · next hs => exact absurd hs (Text.split_ne_nil separator rest)

namespace Selector

theorem argumentsLength_eq_none {text : List Char} (h : '(' ∉ text) :
    argumentsLength text = none := by
  unfold argumentsLength
  split
  · simp at h
  · rfl

theorem functionLength_eq_none {text : List Char} (h : '(' ∉ text) :
    functionLength text = none := by
  unfold functionLength
  refine List.findSome?_eq_none_iff.2 fun n _ => ?_
  have hdrop : '(' ∉ text.drop (n + 1) := fun hm => h (List.mem_of_mem_drop hm)
  rw [argumentsLength_eq_none hdrop]
  rfl

theorem functionalLength_eq_none {text : List Char} (h : '(' ∉ text) :
    functionalLength text = none := by
  unfold functionalLength
  refine List.findSome?_eq_none_iff.2 fun n _ => ?_
  split
  · next rest hdrop =>
    have hrest : '(' ∉ rest := fun hm =>
      h (List.mem_of_mem_drop (hdrop ▸ List.mem_cons_of_mem _ hm))
    rw [functionLength_eq_none hrest]
    rfl
  · rfl

theorem runLength_append {part : List Char} (h : ',' ∉ part) (tail : List Char) :
    runLength (part ++ tail) = part.length + runLength tail := by
  have hall : ∀ c ∈ part, (c != ',') = true := fun c hc => by
    simpa using fun he : c = ',' => h (he ▸ hc)
  rw [runLength, List.takeWhile_append_of_pos hall, List.length_append, runLength]

theorem mapPartsFrom_eq_drop (change : List Char → List Char) (skip : Nat) (text : List Char) :
    mapPartsFrom change skip text = mapPartsFrom change 0 (text.drop skip) := by
  induction text generalizing skip with
  | nil => cases skip <;> simp [mapPartsFrom]
  | cons c rest ih =>
    cases skip with
    | zero => rfl
    | succ skip => rw [mapPartsFrom, ih, List.drop_succ_cons]

theorem mapPartsFrom_of_partLength (change : List Char → List Char) {text : List Char} {n : Nat}
    (h : partLength text = some n) (hpos : 0 < n) :
    mapPartsFrom change 0 text = change (text.take n) ++ mapPartsFrom change 0 (text.drop n) := by
  cases text with
  | nil => simp [partLength, functionalLength, runLength] at h
  | cons c rest =>
    rw [mapPartsFrom, h]
    dsimp only
    rw [mapPartsFrom_eq_drop]
    congr 2
    obtain ⟨m, rfl⟩ : ∃ m, n = m + 1 := ⟨n - 1, by omega⟩
    simp

/-- The first part of a text without arguments ends at the first comma. -/
theorem mapPartsFrom_part (change : List Char → List Char) {text : List Char} {n : Nat}
    (h : '(' ∉ text) (hn : runLength text = n) (hpos : 0 < n) :
    mapPartsFrom change 0 text = change (text.take n) ++ mapPartsFrom change 0 (text.drop n) := by
  have hpart : partLength text = some n := by
    rw [partLength, functionalLength_eq_none h, hn, if_neg (by omega)]
  exact mapPartsFrom_of_partLength change hpart hpos

theorem mapPartsFrom_comma (change : List Char → List Char) (text : List Char) :
    mapPartsFrom change 0 (',' :: text) = ',' :: mapPartsFrom change 0 text := by
  have hnone : partLength (',' :: text) = none := by
    simp [partLength, functionalLength, runLength]
  rw [mapPartsFrom, hnone]

theorem intercalate_comma_cons (part next : List Char) (rest : List (List Char)) :
    [','].intercalate (part :: next :: rest) = part ++ ',' :: [','].intercalate (next :: rest) := by
  rw [List.intercalate_cons_cons, List.append_assoc, List.singleton_append]

theorem mapParts_intercalate (change : List Char → List Char) {parts : List (List Char)}
    (h : ∀ part ∈ parts, part ≠ [] ∧ ',' ∉ part) (hopen : '(' ∉ [','].intercalate parts) :
    mapParts change ([','].intercalate parts) = [','].intercalate (parts.map change) := by
  unfold mapParts
  induction parts with
  | nil => rfl
  | cons part rest ih =>
    obtain ⟨hne, hcomma⟩ := h part List.mem_cons_self
    have hpos : 0 < part.length := List.length_pos_iff.2 hne
    cases rest with
    | nil =>
      have hrun : runLength part = part.length := by
        simpa [runLength] using runLength_append hcomma []
      have hpart : '(' ∉ part := by simpa using hopen
      simpa [mapPartsFrom] using mapPartsFrom_part change hpart hrun hpos
    | cons next rest =>
      rw [intercalate_comma_cons] at hopen ⊢
      have hrun : runLength (part ++ ',' :: [','].intercalate (next :: rest)) = part.length := by
        simpa [runLength] using runLength_append hcomma (',' :: [','].intercalate (next :: rest))
      have hrest := ih (fun p hp => h p (List.mem_cons_of_mem part hp)) (by simp_all)
      rw [mapPartsFrom_part change hopen hrun hpos, List.take_left, List.drop_left,
        mapPartsFrom_comma, hrest, List.map_cons, List.map_cons, List.map_cons,
        intercalate_comma_cons]

def alternatives (key : String) : List String := (Text.split ',' key.toList).map String.ofList

/-- An alternative with its parent in the place of each `&`. -/
def underParent (parent alternative : String) : String :=
  String.ofList (Text.replace '&' parent.toList alternative.toList)

/-- The alternatives of a key below each of the parents, those of the first parent first. -/
def below (parents : List String) (key : String) : List String :=
  parents.flatMap fun parent => (alternatives key).map (underParent parent)

/-- Keys without arguments all of whose alternatives start at the parent. -/
def FromParent (key : String) : Prop :=
  '(' ∉ key.toList ∧ ∀ part ∈ Text.split ',' key.toList, part.head? = some '&'

instance (key : String) : Decidable (FromParent key) := inferInstanceAs (Decidable (_ ∧ _))

structure Parents (selectors : List String) : Prop where
  ne_nil : selectors ≠ []
  plain : ∀ selector ∈ selectors, selector ≠ "" ∧ ',' ∉ selector.toList

theorem intercalate_flatMap {α : Type} {f : α → List String} (hf : ∀ a, f a ≠ [])
    (separator : String) (l : List α) : separator.intercalate (l.flatMap f) =
      separator.intercalate (l.map fun a => separator.intercalate (f a)) := by
  induction l with
  | nil => rfl
  | cons a rest ih =>
    cases rest with
    | nil => simp
    | cons b rest =>
      have hrest : (b :: rest).flatMap f ≠ [] := by simp [hf b]
      rw [List.flatMap_cons, String.intercalate_append_of_ne_nil (hf a) hrest, ih]
      simp only [List.map_cons, String.intercalate_cons_cons]

theorem alternatives_ne_nil (key : String) : alternatives key ≠ [] := by
  simpa [alternatives] using Text.split_ne_nil ',' key.toList

theorem exists_tail_of_mem_split {key : String} (hk : FromParent key) {part : List Char}
    (h : part ∈ Text.split ',' key.toList) : ∃ tail, part = '&' :: tail ∧ ',' ∉ tail := by
  have hcomma := Text.not_mem_of_mem_split h
  have hhead := hk.2 part h
  cases part with
  | nil => cases hhead
  | cons c tail =>
    cases hhead
    exact ⟨tail, rfl, fun hm => hcomma (List.mem_cons_of_mem _ hm)⟩

theorem exists_tail_of_fromParent {key : String} (hk : FromParent key) :
    ∃ tail, key.toList = '&' :: tail := by
  obtain ⟨first, rest, hsplit⟩ := List.exists_cons_of_ne_nil (Text.split_ne_nil ',' key.toList)
  obtain ⟨tail, rfl, _⟩ := exists_tail_of_mem_split hk (hsplit ▸ List.mem_cons_self)
  have hkey := Text.intercalate_split ',' key.toList
  rw [hsplit] at hkey
  rw [← hkey]
  cases rest with
  | nil => exact ⟨tail, by simp⟩
  | cons second rest =>
    exact ⟨tail ++ ',' :: [','].intercalate (second :: rest), by simp [List.intercalate]⟩

theorem mapParts_under {key : String} (hk : FromParent key) (parent : String) :
    String.ofList (mapParts (under parent.toList) key.toList) =
      ",".intercalate ((alternatives key).map (underParent parent)) := by
  have hparts : ∀ part ∈ Text.split ',' key.toList, part ≠ [] ∧ ',' ∉ part := by
    intro part hm
    obtain ⟨tail, rfl, _⟩ := exists_tail_of_mem_split hk hm
    exact ⟨by simp, Text.not_mem_of_mem_split hm⟩
  have hunder : (Text.split ',' key.toList).map (under parent.toList) =
      ((alternatives key).map (underParent parent)).map String.toList := by
    rw [alternatives, List.map_map, List.map_map]
    refine List.map_congr_left fun part hm => ?_
    obtain ⟨tail, rfl, _⟩ := exists_tail_of_mem_split hk hm
    simp [under, underParent]
  have hmap := mapParts_intercalate (under parent.toList) hparts
    (by rw [Text.intercalate_split]; exact hk.1)
  rw [Text.intercalate_split] at hmap
  rw [← String.toList_inj, hmap, hunder, String.toList_intercalate]
  simp

theorem Parents.split_intercalate {parents : List String} (hp : Parents parents) :
    Text.split ',' (",".intercalate parents).toList = parents.map String.toList := by
  rw [String.toList_intercalate]
  refine Text.split_intercalate (fun part hm => ?_) (by simpa using hp.ne_nil)
  obtain ⟨parent, hparent, rfl⟩ := List.mem_map.1 hm
  exact (hp.plain parent hparent).2

theorem Parents.intercalate_ne_empty {parents : List String} (hp : Parents parents) :
    ",".intercalate parents ≠ "" := by
  intro hempty
  have hsplit := hp.split_intercalate
  obtain ⟨parent, rest, rfl⟩ := List.exists_cons_of_ne_nil hp.ne_nil
  rw [hempty] at hsplit
  have hparent : [] = parent.toList := (List.cons.inj hsplit).1
  exact (hp.plain parent List.mem_cons_self).1 (String.toList_inj.1 hparent.symm)

theorem Parents.nest_eq {parents : List String} (hp : Parents parents) (key : String) :
    nest (",".intercalate parents) key = ",".intercalate (parents.map fun parent =>
      String.ofList (mapParts (under parent.toList) key.toList)) := by
  have hne : ¬ (",".intercalate parents).toList.isEmpty := by
    rw [List.isEmpty_iff, String.toList_eq_nil_iff]
    exact hp.intercalate_ne_empty
  rw [nest, nestChars, if_neg hne, hp.split_intercalate, List.map_map, ← String.toList_inj,
    String.toList_ofList, String.toList_intercalate, List.map_map]
  refine congrArg _ (List.map_congr_left fun parent hparent => ?_)
  have hempty : parent.toList.isEmpty = false := by
    simpa using (hp.plain parent hparent).1
  rw [Function.comp_apply, hempty, if_neg Bool.false_ne_true, Function.comp_apply,
    String.toList_ofList]

theorem nest_eq_below {parents : List String} (hp : Parents parents) {key : String}
    (hk : FromParent key) :
    nest (",".intercalate parents) key = ",".intercalate (below parents key) := by
  have hchildren : ∀ parent, (alternatives key).map (underParent parent) ≠ [] := fun parent => by
    simpa using alternatives_ne_nil key
  rw [hp.nest_eq, below, intercalate_flatMap hchildren]
  exact congrArg _ (List.map_congr_left fun parent _ => mapParts_under hk parent)

/-- A selector below others is one of them with the rest of an alternative behind it. -/
theorem exists_of_mem_below {parents : List String} {key : String} (hk : FromParent key)
    {selector : String} (h : selector ∈ below parents key) : ∃ parent ∈ parents, ∃ tail,
      '&' :: tail ∈ Text.split ',' key.toList ∧
        selector.toList = parent.toList ++ Text.replace '&' parent.toList tail := by
  obtain ⟨parent, hparent, hs⟩ := List.mem_flatMap.1 h
  obtain ⟨alternative, ha, rfl⟩ := List.mem_map.1 hs
  obtain ⟨part, hpart, rfl⟩ := List.mem_map.1 ha
  obtain ⟨tail, rfl, _⟩ := exists_tail_of_mem_split hk hpart
  refine ⟨parent, hparent, tail, hpart, ?_⟩
  simp [underParent, Text.replace]

theorem Parents.below {parents : List String} (hp : Parents parents) {key : String}
    (hk : FromParent key) : Parents (below parents key) := by
  refine ⟨?_, fun selector hs => ?_⟩
  · obtain ⟨parent, rest, rfl⟩ := List.exists_cons_of_ne_nil hp.ne_nil
    simp [Selector.below, alternatives_ne_nil]
  · obtain ⟨parent, hparent, tail, hpart, hs⟩ := exists_of_mem_below hk hs
    obtain ⟨hne, hcomma⟩ := hp.plain parent hparent
    have htail : ',' ∉ tail := fun hm =>
      Text.not_mem_of_mem_split hpart (List.mem_cons_of_mem _ hm)
    constructor
    · intro hempty
      rw [hempty] at hs
      have hparent : parent.toList = [] := (List.append_eq_nil_iff.1 hs.symm).1
      exact hne (String.toList_inj.1 hparent)
    · intro hm
      rw [hs, List.mem_append, Text.replace, List.mem_flatMap] at hm
      rcases hm with hm | ⟨c, hc, hm⟩
      · exact hcomma hm
      · split at hm
        · exact hcomma hm
        · rw [List.mem_singleton.1 hm] at htail
          exact htail hc

end Selector

end Theming
