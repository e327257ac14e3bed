import Theming.Proofs.Css.Selectors
import Theming.Proofs.Variables.Dollars

/-! Paths that are given segment by segment. They are joined by dots and divided again at the dots,
so the segments that are followed are the given ones exactly if there are any and none of them has a
dot. What stands there is the answer, or what it refers to. -/

namespace Theming

theorem Text.split_append_separator (separator : Char) (text rest : List Char) :
    Text.split separator (text ++ separator :: rest) =
      Text.split separator text ++ Text.split separator rest := by
  simp only [split_eq_splitOn, List.splitOn]
  exact List.splitOnP_append_cons _ _ (beq_self_eq_true separator)

theorem Text.split_of_not_mem {separator : Char} {text : List Char} (h : separator ∉ text) :
    Text.split separator text = [text] := by
  have hsplit : split separator ([separator].intercalate [text]) = [text] :=
    split_intercalate (by simpa using h) (by simp)
  rwa [List.intercalate_singleton] at hsplit

namespace Value

/-- The segments that are followed in the place of the given ones. A dot divides a segment, and if
none are given there is one that is empty. -/
def divided (segments : List String) : List (List Char) :=
  if segments = [] then [[]]
  else segments.flatMap fun segment => Text.split '.' segment.toList

theorem split_intercalate_dots (segments : List String) :
    Text.split '.' (".".intercalate segments).toList = divided segments := by
  induction segments with
  | nil => simp [divided, Text.split]
  | cons segment rest ih =>
    cases rest with
    | nil => simp [divided]
    | cons next others =>
      have htext : (".".intercalate (segment :: next :: others)).toList =
          segment.toList ++ '.' :: (".".intercalate (next :: others)).toList := by
        rw [String.intercalate_cons_cons, String.toList_append, String.toList_append,
          List.append_assoc]
        rfl
      rw [htext, Text.split_append_separator, ih]
      simp [divided]

theorem at?_intercalate (value : Value) (segments : List String) :
    value.at? (".".intercalate segments) = value.follow? (divided segments) := by
  rw [at?, split_intercalate_dots]

theorem divided_eq_iff {segments : List String} : divided segments = segments.map String.toList ↔
    segments ≠ [] ∧ ∀ segment ∈ segments, '.' ∉ segment.toList := by
  constructor
  · intro h
    have hne : segments ≠ [] := by
      rintro rfl
      simp [divided] at h
    refine ⟨hne, fun segment hs => ?_⟩
    have hm : segment.toList ∈ divided segments := h ▸ List.mem_map_of_mem hs
    rw [divided, if_neg hne] at hm
    obtain ⟨other, -, hsplit⟩ := List.mem_flatMap.1 hm
    exact Text.not_mem_of_mem_split hsplit
  · rintro ⟨hne, hdots⟩
    rw [divided, if_neg hne, ← List.flatMap_pure_eq_map]
    exact List.flatMap_congr fun segment hs => Text.split_of_not_mem (hdots segment hs)

/-- Objects inside each other, with one key each, and something that is not null at the end. -/
def nested : List String → Value
  | [] => .flag true
  | segment :: rest => .object [(segment, nested rest)]

theorem follow?_nested (segments : List String) :
    (nested segments).follow? (segments.map String.toList) = some (.flag true) := by
  have hsteps : (segments.map String.toList).foldlM step? (nested segments) =
      some (.flag true) := by
    induction segments with
    | nil => rfl
    | cons segment rest ih => simpa [nested, step?, Table.find?] using ih
  rw [follow?, hsteps]
  rfl

/-- No other segments lead to the end. -/
theorem eq_of_steps_nested {segments : List String} {path : List (List Char)}
    (h : path.foldlM step? (nested segments) = some (.flag true)) :
    path = segments.map String.toList := by
  induction segments generalizing path with
  | nil =>
    cases path with
    | nil => rfl
    | cons first path => cases h
  | cons segment rest ih =>
    cases path with
    | nil => cases h
    | cons first path =>
      rw [List.foldlM_cons] at h
      obtain ⟨next, hn, hrest⟩ := Option.bind_eq_some_iff.1 h
      have hfirst : segment = String.ofList first ∧ nested rest = next := by
        simpa [nested, step?, Table.find?] using hn
      obtain ⟨rfl, rfl⟩ := hfirst
      rw [List.map_cons, String.toList_ofList, ih hrest]

theorem texts_nested (segments : List String) : texts (nested segments) = [] := by
  induction segments with
  | nil => rfl
  | cons segment rest ih => simpa [nested, texts, textsOfEntries] using ih

end Value

namespace Globals

variable {globals : Globals} {path text : String} {found : Option Value}

/-- What a text stands for: what it refers to if it is a single reference, and otherwise the text
with its references replaced. -/
def meaning (globals : Globals) (text : String) : Except ThemeError (Option Value) :=
  match pieces text.toList with
  | [.reference target] => globals.lookupFrom [] target
  | _ => do return some (.text (← globals.resolve text))

theorem lookupFrom_of_several (h : Value.at? globals path = some (.text text))
    (several : ∀ target, pieces text.toList ≠ [.reference target]) :
    globals.lookupFrom [] path = do
      return some (.text (← substitute (globals.lookupFrom [path]) .scalar text)) := by
  rw [lookupFrom_eq, if_neg List.not_mem_nil, h]
  dsimp only
  split
  · next target single => exact absurd single (several target)
  · rfl

theorem meaning_of_several (several : ∀ target, pieces text.toList ≠ [.reference target]) :
    globals.meaning text = do return some (.text (← globals.resolve text)) := by
  rw [meaning]
  split
  · next target single => exact absurd single (several target)
  · rfl

theorem lookupFrom_of_text (h : Value.at? globals path = some (.text text)) :
    (globals.lookupFrom [] path).toOption = (globals.meaning text).toOption := by
  by_cases single : ∃ target, pieces text.toList = [.reference target]
  · obtain ⟨target, single⟩ := single
    have halias : globals.AliasOf path target := ⟨text, h, single⟩
    rw [lookupFrom_of_aliasOf halias, lookupFrom_toOption halias.leadsTo, meaning, single]
  · have several := not_exists.1 single
    rw [lookupFrom_of_several h several, meaning_of_several several]
    exact toOption_bind_congr (substitute_lookupFrom_toOption h) _

structure Answers (globals : Globals) (found : Option Value)
    (answer : Except ThemeError (Option Value)) : Prop where
  missing : found = none → answer = .ok none
  plain : ∀ value, found = some value →
    (∀ text, value = .text text → hasReference text.toList = false) → answer = .ok (some value)
  referring : ∀ text, found = some (.text text) → hasReference text.toList = true →
    answer.toOption = (globals.meaning text).toOption
  fails : ∀ error, answer = .error error → ∃ walk, error = .cycle .variables walk

theorem lookupFrom_of_unmarked (h : Value.at? globals path = some (.text text))
    (hnone : hasReference text.toList = false) :
    globals.lookupFrom [] path = .ok (some (.text text)) := by
  have hunmarked : ¬ ['$', '$'] <:+: text.toList := by
    rw [← hasReference_iff, hnone]
    exact Bool.false_ne_true
  have several (target : String) : pieces text.toList ≠ [.reference target] := by
    intro single
    rw [hasReference, referencedPaths, single] at hnone
    cases hnone
  rw [lookupFrom_of_several h several, substitute_unmarked hunmarked]
  rfl

theorem answers_lookupFrom (globals : Globals) (path : String) :
    globals.Answers (Value.at? globals path) (globals.lookupFrom [] path) where
  missing h := by rw [lookupFrom_of_plain List.not_mem_nil (by simp [h]), h]
  plain value h hnone := by
    cases value with
    | text text => exact lookupFrom_of_unmarked h (hnone text rfl)
    | _ => rw [lookupFrom_of_plain List.not_mem_nil (by simp [h]), h]
  referring text h _ := lookupFrom_of_text h
  fails error h := by
    obtain ⟨walk, -, he⟩ := failsIn_lookupFrom globals [] path error h
    exact ⟨_, he⟩

theorem detectsCycles_lookupFrom (globals : Globals) (path : String) :
    globals.DetectsCycles [path] (globals.lookupFrom [] path) := by
  refine detectsCycles ((failsIn_lookupFrom globals [] path).mono fun error h => ?_)
    fun found h => ?_
  · exact ⟨path, List.mem_singleton_self path, h⟩
  · exact List.forall_mem_singleton.2 ⟨found, h⟩

/-- Segments that are given one by one are joined and divided at the dots. What stands at the
divided path is the answer, or what its references resolve to, and cycles on the way are reported.
That is what stands at the given path, in all globals, exactly if there are segments and none of
them has a dot. -/
theorem segments_followed_iff (segments : List String) :
    (∀ globals : Globals,
      globals.Answers (Value.follow? globals (Value.divided segments))
        (globals.lookupSegments segments) ∧
      globals.DetectsCycles [".".intercalate segments] (globals.lookupSegments segments)) ∧
    ((∀ globals : Globals,
      globals.Answers (Value.follow? globals (segments.map String.toList))
        (globals.lookupSegments segments)) ↔
      segments ≠ [] ∧ ∀ segment ∈ segments, '.' ∉ segment.toList) := by
  have hdivided (globals : Globals) :
      globals.Answers (Value.follow? globals (Value.divided segments))
        (globals.lookupSegments segments) := by
    rw [← Value.at?_intercalate]
    exact answers_lookupFrom globals _
  refine ⟨fun globals => ⟨hdivided globals, detectsCycles_lookupFrom globals _⟩, fun h => ?_,
    fun h globals => ?_⟩
  · -- only the given segments lead through nested objects, where nothing is resolved
    have hplain (text : String) : Value.at? (Value.nested segments) (".".intercalate segments) ≠
        some (.text text) := by
      intro hfound
      have hmem := Value.texts_subset_of_at? hfound (List.mem_singleton_self text)
      rw [Value.texts_nested] at hmem
      cases hmem
    have hanswer := (h (Value.nested segments)).plain _ (Value.follow?_nested segments) nofun
    rw [lookupSegments, lookupFrom_of_plain List.not_mem_nil hplain] at hanswer
    have hfollowed := (Value.at?_intercalate _ _).symm.trans (Except.ok.inj hanswer)
    exact Value.divided_eq_iff.1
      (Value.eq_of_steps_nested (Option.filter_eq_some_iff.1 hfollowed).1)
  · rw [← Value.divided_eq_iff.2 h]
    exact hdivided globals

def scale : Globals := .object [("sizes", .object [("wide", .text "$$unit|px")]),
  ("unit", .number (.integer 4)), ("sizes.narrow", .number (.integer 2))]

/-- A segment with a dot leads past the key that has the dot, and into an object without such a key.
Without any segments, the key that is looked for is empty. -/
theorem dotted_segment_divided :
    Value.follow? scale ["sizes.wide".toList] = none ∧
      (scale.lookupSegments ["sizes.wide"]).toOption = (scale.meaning "$$unit|px").toOption ∧
      ((scale.lookupSegments ["sizes.wide"]).toOption.map fun found =>
        found.bind Value.text?) = some (some "4px") ∧
      Value.follow? scale ["sizes.narrow".toList] = some (.number (.integer 2)) ∧
      scale.lookupSegments ["sizes.narrow"] = .ok none ∧
      Value.follow? scale [] = some scale ∧ scale.lookupSegments [] = .ok none ∧
      ¬ scale.Answers (Value.follow? scale (["sizes.wide"].map String.toList))
        (scale.lookupSegments ["sizes.wide"]) := by
  have hwide : (scale.lookupSegments ["sizes.wide"]).toOption =
      (scale.meaning "$$unit|px").toOption :=
    ((segments_followed_iff ["sizes.wide"]).1 scale).1.referring _ rfl (by decide +kernel)
  have hpixels : ((scale.lookupSegments ["sizes.wide"]).toOption.map fun found =>
      found.bind Value.text?) = some (some "4px") := by decide +kernel
  refine ⟨rfl, hwide, hpixels, rfl, ((segments_followed_iff _).1 scale).1.missing rfl, rfl,
    ((segments_followed_iff []).1 scale).1.missing rfl, fun hanswers => ?_⟩
  rw [hanswers.missing rfl] at hpixels
  cases hpixels

end Globals

end Theming
