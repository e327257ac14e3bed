import Theming.Proofs.Compile.Referenced

/-! Texts in the place of backdrop filters. A text that is one reference stands for what it leads
to, as it does everywhere. In any other text that starts with a mark, all that follows the mark is
looked up as one path. No reference has such a path, but a key of the globals may be one. -/

namespace Theming

open Relation

variable {text rest : List Char} {path : String}

theorem afterPath_eq_nil_iff :
    afterPath rest = [] ↔ rest.dropWhile isPathChar = [] ∨ rest.dropWhile isPathChar = ['|'] := by
  unfold afterPath
  split
  · next others h =>
    rw [h]
    simp
  · next h =>
    have hbar : rest.dropWhile isPathChar ≠ ['|'] := h []
    simp [hbar]

theorem pieces_eq_nil_iff : pieces text = [] ↔ text = [] := by
  fun_cases pieces text <;> simp

/-- A text is one reference exactly if it is written as one, with or without the bar. -/
theorem pieces_eq_single_iff : pieces ('$' :: '$' :: rest) = [.reference path] ↔
    IsPath path ∧ (rest = path.toList ∨ rest = path.toList ++ ['|']) := by
  constructor
  · intro h
    rw [pieces_reference] at h
    obtain ⟨hpath, hrest⟩ := List.cons.inj h
    have htake : path.toList = rest.takeWhile isPathChar := by
      rw [← Piece.reference.inj hpath, String.toList_ofList]
    have hafter : afterPath rest = [] := pieces_eq_nil_iff.1 hrest
    have hsplit := List.takeWhile_append_dropWhile (p := isPathChar) (l := rest)
    rw [← htake] at hsplit
    refine ⟨fun c hc => ?_, ?_⟩
    · rw [htake] at hc
      exact List.mem_takeWhile_imp hc
    · rcases afterPath_eq_nil_iff.1 hafter with hd | hd
      · rw [hd, List.append_nil] at hsplit
        exact .inl hsplit.symm
      · rw [hd] at hsplit
        exact .inr hsplit.symm
  · rintro ⟨hp, rfl | rfl⟩
    · have hbare := pieces_bare hp
      rwa [String.toList_append] at hbare
    · rw [pieces_barred hp, pieces]

theorem exists_of_marked (h : text.take 2 = ['$', '$']) : ∃ rest, text = '$' :: '$' :: rest := by
  have hsplit := List.take_append_drop 2 text
  rw [h] at hsplit
  exact ⟨text.drop 2, hsplit.symm⟩

theorem pathOf_of_single (marked : text.take 2 = ['$', '$'])
    (single : pieces text = [.reference path]) : pathOf text = path.toList := by
  obtain ⟨rest, rfl⟩ := exists_of_marked marked
  obtain ⟨hp, rfl | rfl⟩ := pieces_eq_single_iff.1 single
  · have hbare := Globals.pathOf_bare hp
    rwa [String.toList_append] at hbare
  · simp [pathOf]

theorem single_of_isPath (marked : text.take 2 = ['$', '$'])
    (h : IsPath (String.ofList (pathOf text))) :
    pieces text = [.reference (String.ofList (pathOf text))] := by
  obtain ⟨rest, rfl⟩ := exists_of_marked marked
  refine pieces_eq_single_iff.2 ⟨h, ?_⟩
  rw [String.toList_ofList]
  by_cases hl : rest.getLast? = some '|'
  · obtain ⟨front, rfl⟩ := List.getLast?_eq_some_iff.1 hl
    simp [pathOf]
  · simp [pathOf, hl]

namespace Globals

variable {globals : Globals} {text path : String}

theorem lookup_of_single (marked : text.toList.take 2 = ['$', '$'])
    (single : pieces text.toList = [.reference path]) :
    globals.lookup text = globals.lookupFrom [] path := by
  rw [lookup, pathOf_of_single marked single, String.ofList_toList]

end Globals

def Filter.ofText (text : String) : Filter := ⟨some (.text text), none⟩

namespace Theme

variable {theme : Theme} {text path : String} {entries : List (String × Value)}
  {found : Option Value} {error : ThemeError}

/-- The text stands for the filter that is read from the entries. -/
structure UsesDefinition (theme : Theme) (text : String) (entries : List (String × Value)) :
    Prop where
  styles : theme.backdropStyles (.plain (.text text)) = do
    let filter ← (Filter.record.readEntries entries).mapError
      (.misfit theme.name (.backdropFilter text))
    theme.backdropStyles (.filter filter)
  inSets : ∀ filter, Filter.record.readEntries entries = .ok filter → ∀ set : StyleSet .color,
    theme.setStyles (.inline set) = theme.setStyles (.inline (set.withFilter text (.filter filter)))

/-- The text is resolved, and what that gives is the filter. -/
structure IsFilterText (theme : Theme) (text : String) : Prop where
  styles : theme.backdropStyles (.plain (.text text)) = do
    return [("backdropFilter", .declaration (← Globals.resolve theme.globals text))]
  inSets : ∀ set : StyleSet .color, theme.setStyles (.inline set) =
    theme.setStyles (.inline (set.withFilter text (.filter (.ofText text))))

theorem backdropStyles_ofText (marked : text.toList.take 2 = ['$', '$']) :
    theme.backdropStyles (.filter (.ofText text)) = do
      return [("backdropFilter", .declaration (← Globals.resolve theme.globals text))] := by
  have hset : Scalar.isSet (.text text) = true := by
    obtain ⟨rest, hrest⟩ := exists_of_marked marked
    have hne : text ≠ "" := by
      rintro rfl
      cases hrest
    simp [Scalar.isSet, hne]
  have hown : declared theme.globals "backdropFilter" (some (.text text)) = do
      return [("backdropFilter", .declaration (← Globals.resolve theme.globals text))] := by
    rw [declared, Option.filter_some, if_pos hset]
    rfl
  change (declared theme.globals "backdropFilter" (some (.text text)) >>= fun own =>
    .ok (own ++ [])) = _
  rw [hown]
  cases Globals.resolve theme.globals text <;> rfl

theorem backdropStyles_of_object (marked : text.toList.take 2 = ['$', '$'])
    (reached : Globals.lookup theme.globals text = .ok (some (.object entries))) :
    theme.backdropStyles (.plain (.text text)) =
      ((Filter.record.readEntries entries).mapError (.misfit theme.name (.backdropFilter text)) >>=
        fun filter => theme.backdropStyles (.filter filter)) := by
  rw [backdropStyles, backdropFilter, if_pos marked, reached]
  rfl

theorem backdropStyles_of_error (marked : text.toList.take 2 = ['$', '$'])
    (reached : Globals.lookup theme.globals text = .error error) :
    theme.backdropStyles (.plain (.text text)) = .error error := by
  rw [backdropStyles, backdropFilter, if_pos marked, reached]
  rfl

theorem backdropStyles_of_other (marked : text.toList.take 2 = ['$', '$'])
    (reached : Globals.lookup theme.globals text = .ok found)
    (other : ∀ entries, found ≠ some (.object entries)) :
    theme.backdropStyles (.plain (.text text)) =
      theme.backdropStyles (.filter (.ofText text)) := by
  have hfilter : theme.backdropFilter (.plain (.text text)) = .ok (.ofText text) := by
    rw [backdropFilter, if_pos marked, reached]
    cases found with
    | none => rfl
    | some value =>
      cases value with
      | object entries => exact absurd rfl (other entries)
      | _ => rfl
  rw [backdropStyles, hfilter]
  rfl

theorem usesDefinition (marked : text.toList.take 2 = ['$', '$'])
    (reached : Globals.lookup theme.globals text = .ok (some (.object entries))) :
    theme.UsesDefinition text entries := by
  have hstyles := backdropStyles_of_object marked reached
  refine ⟨hstyles, fun filter hf set => setStyles_withFilter ?_ set⟩
  rw [hstyles, hf]
  rfl

theorem isFilterText (marked : text.toList.take 2 = ['$', '$'])
    (h : theme.backdropStyles (.plain (.text text)) =
      theme.backdropStyles (.filter (.ofText text))) : theme.IsFilterText text :=
  ⟨h.trans (backdropStyles_ofText marked), setStyles_withFilter h⟩

theorem isFilterText_of_single (marked : text.toList.take 2 = ['$', '$'])
    (single : pieces text.toList = [.reference path])
    (other : ∀ entries, ¬ Globals.LeadsToObject theme.globals path entries) :
    theme.IsFilterText text := by
  have hlookup : Globals.lookup theme.globals text = Globals.lookupFrom theme.globals [] path :=
    Globals.lookup_of_single marked single
  refine isFilterText marked ?_
  cases reached : Globals.lookupFrom theme.globals [] path with
  | ok found =>
    refine backdropStyles_of_other marked (hlookup.trans reached) fun entries he => ?_
    exact other entries (Globals.leadsToObject_of_lookupFrom (he ▸ reached))
  | error error =>
    have hresolve : Globals.resolve theme.globals text = .error error := by
      rw [Globals.resolve, Globals.resolveWith, Globals.substitute_single single, reached]
      rfl
    rw [backdropStyles_of_error marked (hlookup.trans reached), backdropStyles_ofText marked,
      hresolve]
    rfl

/-- A text that starts with a mark is looked up as one path. If it is one reference, that is the
path of the reference. If not, the path is not one that a reference can have, and the text is
resolved only where this path leads to no object and no cycle. -/
theorem filter_text_looked_up_whole (theme : Theme) (text : String)
    (marked : text.toList.take 2 = ['$', '$']) :
    let whole := String.ofList (pathOf text.toList)
    (∀ path, pieces text.toList = [.reference path] →
      (∀ entries, Globals.LeadsToObject theme.globals path entries →
        theme.UsesDefinition text entries) ∧
      ((∀ entries, ¬ Globals.LeadsToObject theme.globals path entries) →
        theme.IsFilterText text)) ∧
    ((∀ path, pieces text.toList ≠ [.reference path]) →
      ¬ IsPath whole ∧
      (∀ entries, Globals.LeadsToObject theme.globals whole entries →
        theme.UsesDefinition text entries) ∧
      (∀ error, Globals.lookupFrom theme.globals [] whole = .error error →
        theme.backdropStyles (.plain (.text text)) = .error error) ∧
      ∀ found, Globals.lookupFrom theme.globals [] whole = .ok found →
        (∀ entries, ¬ Globals.LeadsToObject theme.globals whole entries) →
        theme.IsFilterText text) := by
  intro whole
  refine ⟨fun path single => ⟨fun entries leads => ?_, isFilterText_of_single marked single⟩,
    fun several => ⟨fun hp => ?_, fun entries leads => ?_, fun error reached => ?_,
      fun found reached other => ?_⟩⟩
  · refine usesDefinition marked ?_
    rw [Globals.lookup_of_single marked single]
    exact Globals.lookupFrom_eq_object_iff.2 leads
  · exact several _ (single_of_isPath marked hp)
  · exact usesDefinition marked (Globals.lookupFrom_eq_object_iff.2 leads)
  · exact backdropStyles_of_error marked reached
  · refine isFilterText marked (backdropStyles_of_other marked reached fun entries he => ?_)
    exact other entries (Globals.leadsToObject_of_lookupFrom (he ▸ reached))

def blur (size : String) : List (String × Value) := [("definition", .text ("blur(" ++ size ++ ")"))]

def glassTheme : Theme := { Theme.record.blank with
  globals := .object [("my-glass", .object (blur "2px")), ("frost", .object (blur "4px")),
    ("glass", .text "$$frost")] }

def glassSet (text : String) : StyleSet .color :=
  ⟨none, { ColorProps.record.blank with backdropFilter := some (.plain (.text text)) },
    fun _ => none, none⟩

theorem not_single_of_length (h : (pieces text.toList).length ≠ 1) (path : String) :
    pieces text.toList ≠ [.reference path] := by
  intro single
  rw [single] at h
  exact h rfl

/-- The hyphen ends the reference, but it is also in a key. Of the texts that are one reference, the
first one leads to a filter by way of an alias and the second one leads to nothing. -/
theorem hyphenated_key_taken_for_path :
    glassTheme.UsesDefinition "$$my-glass" (blur "2px") ∧
      (glassTheme.setStyles (.inline (glassSet "$$my-glass"))).toOption.bind
        (Styles.textAt? · ["backdropFilter"]) = some "blur(2px)" ∧
      (Globals.resolve glassTheme.globals "$$my-glass").toOption = some "-glass" ∧
      glassTheme.IsFilterText "$$my-frost" ∧
      glassTheme.UsesDefinition "$$glass|" (blur "4px") ∧
      glassTheme.IsFilterText "$$my|" := by
  have hglass : Globals.LeadsToObject glassTheme.globals "my-glass" (blur "2px") :=
    ⟨"my-glass", .refl, rfl⟩
  have hfrost : Globals.LeadsToObject glassTheme.globals "glass" (blur "4px") :=
    ⟨"frost", .single ⟨"$$frost", rfl, by decide +kernel⟩, rfl⟩
  have hnothing {path : String} (h : Value.at? glassTheme.globals path = none) :
      Globals.lookupFrom glassTheme.globals [] path = .ok none := by
    rw [Globals.lookupFrom_of_plain List.not_mem_nil fun text => by simp [h], h]
  have hnowhere {path : String} (h : Value.at? glassTheme.globals path = none)
      (entries : List (String × Value)) :
      ¬ Globals.LeadsToObject glassTheme.globals path entries := by
    rw [← Globals.lookupFrom_eq_object_iff, hnothing h]
    simp
  have hkey := (filter_text_looked_up_whole glassTheme "$$my-glass" (by decide +kernel)).2
    (not_single_of_length (by decide +kernel))
  have hno := (filter_text_looked_up_whole glassTheme "$$my-frost" (by decide +kernel)).2
    (not_single_of_length (by decide +kernel))
  have halias := (filter_text_looked_up_whole glassTheme "$$glass|" (by decide +kernel)).1 "glass"
    (by decide +kernel)
  have hlost := (filter_text_looked_up_whole glassTheme "$$my|" (by decide +kernel)).1 "my"
    (by decide +kernel)
  exact ⟨hkey.2.1 _ hglass, by decide +kernel, by decide +kernel,
    hno.2.2.2 none (hnothing rfl) (hnowhere rfl), halias.1 _ hfrost, hlost.2 (hnowhere rfl)⟩

end Theme

end Theming
