import Mathlib.Data.List.Infix
import Theming.Proofs.Reading.Proper

/-! What stands under a path of keys after one value has been laid over another. As long as both
values have objects on the way, and no key on the way is one that is replaced, the two values that
stand there are all that counts. -/

namespace Theming

namespace Value

/-- What stands at the end of a path of keys. -/
def under? (value : Value) (path : List String) : Option Value := path.foldlM field? value

theorem under?_cons (value : Value) (key : String) (path : List String) :
    value.under? (key :: path) = (value.field? key).bind (·.under? path) := rfl

def IsObjectAt (value : Value) (path : List String) : Prop :=
  ∃ entries, value.under? path = some (.object entries)

def SameStructure : Value → Value → Prop
  | .object _, .object _ => True
  | .list _, .list _ => True
  | _, _ => False

theorem proper_of_field? {value found : Value} {key : String} (proper : value.Proper)
    (h : value.field? key = some found) : found.Proper := by
  cases value with
  | object entries => exact properEntries_iff.1 proper.2 _ (Table.mem_of_find? h)
  | _ => cases h

variable {strategy : List String → MergeStrategy} {here : List String}

theorem mergeAt_of_replace (h : strategy here = .replace) (base overlay : Value) :
    mergeAt strategy here base overlay = overlay := by
  cases overlay <;> simp [mergeAt, h]

theorem mergeAt_objects (h : strategy here = .recursive) (base overlay : Table Value) :
    mergeAt strategy here (.object base) (.object overlay) =
      .object (mergeEntries strategy here base overlay) := by
  simp [mergeAt, h]

theorem mergeAt_lists (h : strategy here = .recursive) (base overlay : List Value) :
    mergeAt strategy here (.list base) (.list overlay) = .list (base ++ overlay) := by
  simp [mergeAt, h]

theorem mergeAt_of_not_sameStructure {base overlay : Value} (h : ¬ base.SameStructure overlay) :
    mergeAt strategy here base overlay = overlay := by
  cases overlay with
  | object entries =>
    cases base with
    | object => exact absurd trivial h
    | _ => cases hs : strategy here <;> simp [mergeAt, hs]
  | list items =>
    cases base with
    | list => exact absurd trivial h
    | _ => cases hs : strategy here <;> simp [mergeAt, hs]
  | _ => rfl

theorem find?_mergeEntries (strategy : List String → MergeStrategy) (here : List String)
    (base : Table Value) {overlay : Table Value} (distinct : overlay.Distinct) (key : String) :
    (mergeEntries strategy here base overlay).find? key =
      Option.merge (mergeAt strategy (here ++ [key])) (base.find? key) (overlay.find? key) := by
  induction overlay generalizing base with
  | nil => cases h : base.find? key <;> simp [mergeEntries, Table.find?, h]
  | cons e rest ih =>
    obtain ⟨k, value⟩ := e
    have hd : k ∉ Table.keys rest ∧ Table.Distinct rest := List.nodup_cons.1 distinct
    rw [mergeEntries, ih _ hd.2]
    by_cases hk : k = key
    · subst hk
      rw [Table.find?_put_self, Table.find?_eq_none_iff.2 hd.1]
      cases h : base.find? k <;> simp [Table.find?]
    · rw [Table.find?_put_ne _ _ (Ne.symm hk)]
      simp [Table.find?, hk]

/-- The keys of the base keep their places, and new ones follow in the order of the overlay. -/
theorem keys_mergeEntries (base : Table Value) {overlay : Table Value}
    (distinct : overlay.Distinct) : (mergeEntries strategy here base overlay).keys =
      base.keys ++ overlay.keys.filter fun key => key ∉ base.keys := by
  induction overlay generalizing base with
  | nil => simp [mergeEntries, Table.keys]
  | cons e rest ih =>
    obtain ⟨k, value⟩ := e
    have hd : k ∉ Table.keys rest ∧ Table.Distinct rest := List.nodup_cons.1 distinct
    have hkeys : Table.keys ((k, value) :: rest) = k :: Table.keys rest := rfl
    rw [mergeEntries, ih _ hd.2, Table.keys_put, hkeys]
    by_cases hk : k ∈ base.keys
    · simp [hk]
    · have hrest : (Table.keys rest).filter (fun key => key ∉ base.keys ++ [k]) =
          (Table.keys rest).filter fun key => key ∉ base.keys := by
        refine List.filter_congr fun key hkey => ?_
        have hne : key ≠ k := fun he => hd.1 (he ▸ hkey)
        simp [hne]
      rw [if_neg hk, hrest]
      simp [hk]

theorem under?_mergeAt {before : List String} (here : List String) (last : String)
    {base overlay : Value} (proper : overlay.Proper)
    (objects : ∀ path, path <+: before → base.IsObjectAt path ∧ overlay.IsObjectAt path)
    (recursive : ∀ path, path <+: before → strategy (here ++ path) = .recursive) :
    (mergeAt strategy here base overlay).under? (before ++ [last]) =
      Option.merge (mergeAt strategy (here ++ (before ++ [last])))
        (base.under? (before ++ [last])) (overlay.under? (before ++ [last])) := by
  induction before generalizing here base overlay with
  | nil =>
    obtain ⟨⟨bs, hb⟩, ⟨os, ho⟩⟩ := objects [] (List.prefix_refl [])
    cases hb
    cases ho
    have hhere : strategy here = .recursive := by simpa using recursive [] (List.prefix_refl [])
    have hsingle (entries : Table Value) :
        (object entries).under? [last] = entries.find? last := by
      simp [under?, field?]
    rw [mergeAt_objects hhere]
    simp only [List.nil_append, hsingle]
    exact find?_mergeEntries strategy here bs proper.1 last
  | cons key before ih =>
    obtain ⟨⟨bs, hb⟩, ⟨os, ho⟩⟩ := objects [] List.nil_prefix
    cases hb
    cases ho
    have hhere : strategy here = .recursive := by simpa using recursive [] List.nil_prefix
    have hstep (path : List String) (h : path <+: before) : key :: path <+: key :: before :=
      List.cons_prefix_cons.2 ⟨rfl, h⟩
    -- both have something under the key, since both have an object at the next path
    obtain ⟨⟨_, hb⟩, ⟨_, ho⟩⟩ := objects [key] (hstep [] List.nil_prefix)
    obtain ⟨b, hbk, -⟩ := Option.bind_eq_some_iff.1 hb
    obtain ⟨o, hok, -⟩ := Option.bind_eq_some_iff.1 ho
    have hmerged : (object (mergeEntries strategy here bs os)).field? key =
        some (mergeAt strategy (here ++ [key]) b o) := by
      have hfind := find?_mergeEntries strategy here bs proper.1 key
      change Table.find? bs key = some b at hbk
      change Table.find? os key = some o at hok
      rw [hbk, hok] at hfind
      exact hfind
    rw [mergeAt_objects hhere, List.cons_append, under?_cons, under?_cons, under?_cons, hmerged,
      hbk, hok]
    have hinner := ih (here ++ [key]) (proper_of_field? proper hok)
      (fun path h => by
        obtain ⟨⟨xs, hx⟩, ⟨ys, hy⟩⟩ := objects (key :: path) (hstep path h)
        rw [under?_cons, hbk] at hx
        rw [under?_cons, hok] at hy
        exact ⟨⟨xs, hx⟩, ⟨ys, hy⟩⟩)
      (fun path h => by simpa using recursive (key :: path) (hstep path h))
    simpa using hinner

/-- What merging leaves of the values that stand under a path, of which `last` is the last key. -/
structure Merged (replaced : List String) (last : String) (base overlay merged : Option Value) :
    Prop where
  base_alone : overlay = none → merged = base
  overlay_alone : base = none → merged = overlay
  /-- Nothing of the base survives under a replaced key, nor where the structures differ. -/
  overlay_wins : ∀ b o, base = some b → overlay = some o →
    last ∈ replaced ∨ ¬ b.SameStructure o → merged = some o
  lists : ∀ bs os, base = some (.list bs) → overlay = some (.list os) → last ∉ replaced →
    merged = some (.list (bs ++ os))
  objects : ∀ bs os, base = some (.object bs) → overlay = some (.object os) → last ∉ replaced →
    ∃ entries, merged = some (.object entries) ∧
      Table.keys entries = Table.keys bs ++ (Table.keys os).filter fun key => key ∉ Table.keys bs

theorem proper_of_under? {value found : Value} {path : List String} (proper : value.Proper)
    (h : value.under? path = some found) : found.Proper := by
  induction path generalizing value with
  | nil =>
    cases h
    exact proper
  | cons key path ih =>
    obtain ⟨next, hn, hr⟩ := Option.bind_eq_some_iff.1 h
    exact ih (proper_of_field? proper hn) hr

/-- A strategy that replaces under some keys, whatever is in front of them. -/
theorem merged_under? {replaced before : List String} {last : String} {base overlay : Value}
    (hstrategy : ∀ path key, strategy (path ++ [key]) = .replace ↔ key ∈ replaced)
    (top : strategy [] = .recursive) (proper : overlay.Proper)
    (objects : ∀ path, path <+: before → base.IsObjectAt path ∧ overlay.IsObjectAt path)
    (kept : ∀ key ∈ before, key ∉ replaced) :
    Merged replaced last (base.under? (before ++ [last])) (overlay.under? (before ++ [last]))
      ((merge strategy base overlay).under? (before ++ [last])) := by
  have hrecursive (path : List String) (key : String) (h : key ∉ replaced) :
      strategy (path ++ [key]) = .recursive := by
    cases hs : strategy (path ++ [key]) with
    | recursive => rfl
    | replace => exact absurd ((hstrategy path key).1 hs) h
  have hway (path : List String) (h : path <+: before) : strategy ([] ++ path) = .recursive := by
    rcases List.eq_nil_or_concat path with rfl | ⟨front, key, rfl⟩
    · exact top
    · rw [List.concat_eq_append] at h ⊢
      exact hrecursive front key (kept key (h.subset (by simp)))
  have hunder := under?_mergeAt [] last proper objects hway
  rw [List.nil_append] at hunder
  have hproper (o : Value) (ho : overlay.under? (before ++ [last]) = some o) : o.Proper :=
    proper_of_under? proper ho
  rw [merge, hunder]
  generalize base.under? (before ++ [last]) = b
  generalize overlay.under? (before ++ [last]) = o at hproper
  constructor
  · rintro rfl
    cases b <;> rfl
  · rintro rfl
    cases o <;> rfl
  · rintro b o rfl rfl h
    rw [Option.merge_some_some]
    rcases h with h | h
    · rw [mergeAt_of_replace ((hstrategy before last).2 h)]
    · rw [mergeAt_of_not_sameStructure h]
  · rintro bs os rfl rfl h
    rw [Option.merge_some_some, mergeAt_lists (hrecursive before last h)]
  · rintro bs os rfl rfl h
    refine ⟨mergeEntries strategy (before ++ [last]) bs os, ?_,
      keys_mergeEntries bs (hproper _ rfl).1⟩
    rw [Option.merge_some_some, mergeAt_objects (hrecursive before last h)]

theorem strategyFor_eq_replace_iff (path : List String) (key : String) :
    strategyFor (path ++ [key]) = .replace ↔ key ∈ replacedKeys := by
  simp [strategyFor]

/-- Under a path on which both values have objects, merging configurations depends on the values
that stand there and on the last key. Merging everywhere does so on every such path. -/
theorem merge_path_by_path {base overlay : Value} (proper : overlay.Proper)
    {before : List String} (last : String)
    (objects : ∀ path, path <+: before → base.IsObjectAt path ∧ overlay.IsObjectAt path) :
    ((∀ key ∈ before, key ∉ replacedKeys) →
      Merged replacedKeys last (base.under? (before ++ [last])) (overlay.under? (before ++ [last]))
        ((base.mergeConfigs overlay).under? (before ++ [last]))) ∧
    Merged [] last (base.under? (before ++ [last])) (overlay.under? (before ++ [last]))
      ((base.deepMerge overlay).under? (before ++ [last])) := by
  constructor
  · intro kept
    exact merged_under? strategyFor_eq_replace_iff rfl proper objects kept
  · have hnever (path : List String) (key : String) :
        MergeStrategy.recursive = .replace ↔ key ∈ ([] : List String) := by simp
    exact merged_under? hnever rfl proper objects fun key _ => List.not_mem_nil

def framed : Value := .object [("Card", .object [
  ("theming", .object [("padding", .text "1px")]), ("tags", .list [.text "a"]),
  ("parts", .object [("icon", .text "$$icon"), ("label", .null)])])]

def reframed : Value := .object [("Card", .object [
  ("parts", .object [("badge", .text "$$badge"), ("label", .text "$$label")]),
  ("tags", .list [.text "b"]), ("theming", .object [("width", .text "2px")])])]

theorem framed_merges_path_by_path :
    let merged := framed.mergeConfigs reframed
    merged.under? ["Card", "theming"] = some (.object [("width", .text "2px")]) ∧
    merged.under? ["Card", "tags"] = some (.list [.text "a", .text "b"]) ∧
    (∃ entries, merged.under? ["Card", "parts"] = some (.object entries) ∧
      Table.keys entries = ["icon", "label", "badge"]) ∧
    (framed.deepMerge reframed).under? ["Card", "parts", "icon"] = some (.text "$$icon") := by
  have proper : reframed.Proper := by
    simp [reframed, Proper, ProperEntries, ProperItems, Table.Distinct, Table.keys]
  have objects' : ∀ path, path <+: ["Card", "parts"] →
      framed.IsObjectAt path ∧ reframed.IsObjectAt path := by
    intro path h
    have hp : path = [] ∨ path = ["Card"] ∨ path = ["Card", "parts"] := by
      simpa using (List.mem_inits path _).2 h
    rcases hp with rfl | rfl | rfl <;> exact ⟨⟨_, rfl⟩, ⟨_, rfl⟩⟩
  have objects : ∀ path, path <+: ["Card"] →
      framed.IsObjectAt path ∧ reframed.IsObjectAt path :=
    fun path h => objects' path (h.trans (List.prefix_append ["Card"] ["parts"]))
  have kept : ∀ key ∈ ["Card"], key ∉ replacedKeys := by decide
  refine ⟨?_, ?_, ?_, ?_⟩
  · exact ((merge_path_by_path proper "theming" objects).1 kept).overlay_wins _ _ rfl rfl
      (.inl (by decide))
  · exact ((merge_path_by_path proper "tags" objects).1 kept).lists _ _ rfl rfl (by decide)
  · exact ((merge_path_by_path proper "parts" objects).1 kept).objects _ _ rfl rfl (by decide)
  · exact (merge_path_by_path proper "icon" objects').2.base_alone rfl

end Value

end Theming
