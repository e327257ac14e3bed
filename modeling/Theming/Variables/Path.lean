import Theming.Value
import Theming.Text.Digits
import Theming.Variables.Reference

/-! Paths into values. A segment is the key of an object entry or the index of a list item. -/

namespace Theming.Value

/-- The index that a segment stands for, which may have a plus sign and zeros in front. -/
def index? (segment : List Char) : Option Nat :=
  let digits := match segment with
    | '+' :: rest => rest
    | rest => rest
  (Text.number? 10 digits).filter (· < 0x10000000000000000)

def step? (value : Value) (segment : List Char) : Option Value :=
  match value with
  | .object entries => Table.find? entries (String.ofList segment)
  | .list items => (index? segment).bind fun i => items[i]?
  | _ => none

/-- The value at the end of a path of segments, unless it is null. -/
def follow? (value : Value) (segments : List (List Char)) : Option Value :=
  (segments.foldlM step? value).filter fun found => !found.isNull

def at? (value : Value) (path : String) : Option Value :=
  value.follow? (Text.split '.' path.toList)

mutual

def texts : Value → List String
  | .text s => [s]
  | .list items => textsOfItems items
  | .object entries => textsOfEntries entries
  | .null | .flag _ | .number _ => []
termination_by structural value => value

def textsOfItems : List Value → List String
  | [] => []
  | item :: rest => texts item ++ textsOfItems rest
termination_by structural items => items

def textsOfEntries : List (String × Value) → List String
  | [] => []
  | (_, value) :: rest => texts value ++ textsOfEntries rest
termination_by structural entries => entries

end

def referencedPaths (value : Value) : List String :=
  value.texts.flatMap fun text => Theming.referencedPaths text.toList

theorem texts_subset_of_mem {item : Value} {items : List Value} (h : item ∈ items) :
    texts item ⊆ textsOfItems items := by
  induction items with
  | nil => simp at h
  | cons a rest ih =>
    rcases List.mem_cons.1 h with rfl | h
    · exact fun _ ht => List.mem_append_left _ ht
    · exact fun _ ht => List.mem_append_right _ (ih h ht)

theorem texts_subset_of_find? {entries : List (String × Value)} {key : String} {value : Value}
    (h : Table.find? entries key = some value) : texts value ⊆ textsOfEntries entries := by
  induction entries with
  | nil => simp [Table.find?] at h
  | cons e rest ih =>
    rw [Table.find?] at h
    split at h
    · cases h
      exact fun _ ht => List.mem_append_left _ ht
    · exact fun _ ht => List.mem_append_right _ (ih h ht)

theorem texts_subset_of_step? {value found : Value} {segment : List Char}
    (h : value.step? segment = some found) : texts found ⊆ texts value := by
  cases value with
  | object entries => exact texts_subset_of_find? h
  | list items =>
    obtain ⟨i, _, hi⟩ := Option.bind_eq_some_iff.1 h
    exact texts_subset_of_mem (List.mem_of_getElem? hi)
  | _ => simp [step?] at h

theorem texts_subset_of_steps {value found : Value} {segments : List (List Char)}
    (h : segments.foldlM step? value = some found) : texts found ⊆ texts value := by
  induction segments generalizing value with
  | nil => cases h; exact fun _ ht => ht
  | cons segment rest ih =>
    rw [List.foldlM_cons] at h
    obtain ⟨next, hn, hr⟩ := Option.bind_eq_some_iff.1 h
    exact fun _ ht => texts_subset_of_step? hn (ih hr ht)

/-- What a path leads to holds no other texts than the value itself. -/
theorem texts_subset_of_at? {value found : Value} {path : String}
    (h : value.at? path = some found) : texts found ⊆ texts value :=
  texts_subset_of_steps (Option.filter_eq_some_iff.1 h).1

theorem mem_referencedPaths_of_at? {value : Value} {path text next : String}
    (h : value.at? path = some (.text text)) (hn : .reference next ∈ pieces text.toList) :
    next ∈ value.referencedPaths :=
  List.mem_flatMap.2 ⟨text, texts_subset_of_at? h (List.mem_singleton.2 rfl),
    Theming.mem_referencedPaths.2 hn⟩

end Theming.Value
