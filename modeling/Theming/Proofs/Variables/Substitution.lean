import Mathlib.Data.List.TakeWhile
import Theming.Proofs.Refinement
import Theming.Proofs.Variables.Cycles

/-! How the text that a reference leads to takes its place. A text is resolved piece by piece, and a
reference with its bar is a piece of its own wherever it stands, unless a dollar is in front of it.
What it leads to is resolved behind its path, and that shows only where the path comes back to
itself, so that both fail. -/

namespace Theming

open Relation Trail

def IsPath (path : String) : Prop := ∀ c ∈ path.toList, isPathChar c = true

instance (path : String) : Decidable (IsPath path) :=
  decidable_of_iff (path.toList.all isPathChar = true) List.all_eq_true

theorem takeWhile_append_dollar (text rest : List Char) :
    (text ++ '$' :: rest).takeWhile isPathChar = text.takeWhile isPathChar := by
  have hstop : ('$' :: rest).takeWhile isPathChar = [] := List.takeWhile_cons_of_neg (by decide)
  rw [List.takeWhile_append, hstop]
  split
  · next hall => rw [List.append_nil, (List.takeWhile_prefix _).eq_of_length hall]
  · rfl

theorem afterPath_append_dollar (text rest : List Char) :
    afterPath (text ++ '$' :: rest) = afterPath text ++ '$' :: rest := by
  have hstop : ('$' :: rest).dropWhile isPathChar = '$' :: rest :=
    List.dropWhile_cons_of_neg (by decide)
  unfold afterPath
  rw [List.dropWhile_append, hstop]
  cases text.dropWhile isPathChar with
  | nil => rfl
  | cons c others =>
    by_cases hc : c = '|'
    · subst hc
      rfl
    · simp [hc]

theorem afterPath_suffix (text : List Char) : afterPath text <:+ text := by
  have hrest : text.dropWhile isPathChar <:+ text := List.dropWhile_suffix _
  unfold afterPath
  split
  · next heq => exact (List.suffix_cons _ _).trans (heq ▸ hrest)
  · exact hrest

theorem pieces_reference (rest : List Char) : pieces ('$' :: '$' :: rest) =
    .reference (String.ofList (rest.takeWhile isPathChar)) :: pieces (afterPath rest) := by
  rw [pieces]

theorem pieces_literal {c : Char} {rest : List Char}
    (h : ∀ others, c = '$' → rest ≠ '$' :: others) :
    pieces (c :: rest) = .literal c :: pieces rest := by
  rw [pieces]
  exact h

theorem pieces_unmarked {text : List Char} (h : ¬ ['$', '$'] <:+: text) :
    pieces text = text.map .literal := by
  fun_induction pieces text
  case case1 rest _ => exact absurd ⟨[], rest, rfl⟩ h
  case case2 c rest single ih =>
    have hrest : ¬ ['$', '$'] <:+: rest := fun hr => h (hr.trans (List.suffix_cons c rest).isInfix)
    rw [ih hrest, List.map_cons]
  case case3 => rfl

theorem pieces_append_reference {before : List Char} (h : ¬ ['$'] <:+ before)
    (rest : List Char) : pieces (before ++ '$' :: '$' :: rest) =
      pieces before ++ pieces ('$' :: '$' :: rest) := by
  fun_induction pieces before
  case case1 others ih =>
    -- a path and its bar end in front of the next dollar, so the search goes on where it did
    have hothers : ¬ ['$'] <:+ afterPath others := fun hs => h <|
      (hs.trans (afterPath_suffix others)).trans
        ((List.suffix_cons _ _).trans (List.suffix_cons _ _))
    rw [List.cons_append, List.cons_append, pieces_reference, takeWhile_append_dollar,
      afterPath_append_dollar, ih hothers, List.cons_append]
  case case2 c others single ih =>
    have hothers : ¬ ['$'] <:+ others := fun hs => h (hs.trans (List.suffix_cons _ _))
    -- a lone dollar cannot take one of the two, since it is not the last character
    have hnext : ∀ more, c = '$' → others ++ '$' :: '$' :: rest ≠ '$' :: more := by
      intro more hc he
      cases others with
      | nil => exact h (hc ▸ List.suffix_refl _)
      | cons d others =>
        cases he
        exact single others hc rfl
    rw [List.cons_append, pieces_literal hnext, ih hothers, List.cons_append]
  case case3 => rfl

theorem pieces_barred {path : String} (hp : IsPath path) (after : List Char) :
    pieces ('$' :: '$' :: (path.toList ++ '|' :: after)) = .reference path :: pieces after := by
  have htake : (path.toList ++ '|' :: after).takeWhile isPathChar = path.toList := by
    rw [List.takeWhile_append_of_pos hp, List.takeWhile_cons_of_neg (by decide), List.append_nil]
  have hafter : afterPath (path.toList ++ '|' :: after) = after := by
    rw [afterPath, List.dropWhile_append_of_pos hp]
    rfl
  rw [pieces_reference, htake, hafter, String.ofList_toList]

theorem pieces_bare {path : String} (hp : IsPath path) :
    pieces ("$$" ++ path).toList = [.reference path] := by
  have htake : path.toList.takeWhile isPathChar = path.toList := List.takeWhile_eq_self_iff.2 hp
  have hafter : afterPath path.toList = [] := by
    rw [afterPath, List.dropWhile_eq_nil_iff.2 hp]
  have htext : ("$$" ++ path).toList = '$' :: '$' :: path.toList := String.toList_append
  rw [htext, pieces_reference, htake, hafter, String.ofList_toList, pieces]

namespace Globals

variable {globals : Globals} {lookup lookup' : String → Except ThemeError (Option Value)}
  {hook : Hook} {trail other : Trail} {path next last text : String}
  {entries : List (String × Value)}

def textOf (hook : Hook) : Option Value → Except ThemeError String
  | some value => hook value
  | none => .ok ""

theorem substitute_append {first last : String}
    (h : pieces text.toList = pieces first.toList ++ pieces last.toList) :
    substitute lookup hook text = do
      return (← substitute lookup hook first) ++ (← substitute lookup hook last) := by
  simp only [substitute, h, List.mapM_append, bind_assoc, pure_bind, List.flatten_append,
    String.ofList_append]

theorem substitute_single (h : pieces text.toList = [.reference path]) :
    substitute lookup hook text = lookup path >>= textOf hook := by
  simp only [substitute, h, List.mapM_cons, List.mapM_nil, renderPiece]
  cases lookup path with
  | error error => rfl
  | ok found =>
    cases found with
    | none => rfl
    | some value =>
      change ((hook value >>= fun text => pure text.toList) >>= _) >>= _ = hook value
      cases hook value with
      | error error => rfl
      | ok text =>
        change Except.ok (String.ofList (text.toList ++ [])) = .ok text
        rw [List.append_nil, String.ofList_toList]

theorem substitute_unmarked (h : ¬ ['$', '$'] <:+: text.toList) :
    substitute lookup hook text = .ok text := by
  have hrender : (text.toList.map Piece.literal).mapM (renderPiece lookup hook) =
      .ok (text.toList.map fun c => [c]) := by
    rw [List.mapM_map]
    exact List.mapM_pure
  rw [substitute, pieces_unmarked h, hrender]
  change Except.ok (String.ofList (text.toList.map fun c => [c]).flatten) = .ok text
  rw [← List.flatMap_def, List.flatMap_singleton', String.ofList_toList]

theorem lookupFrom_of_plain (fresh : path ∉ trail)
    (plain : ∀ text, Value.at? globals path ≠ some (.text text)) :
    globals.lookupFrom trail path = .ok (Value.at? globals path) := by
  rw [lookupFrom_eq, if_neg fresh]
  split
  · next text found => exact absurd found (plain text)
  · rfl

theorem textOf_lookupFrom (fresh : path ∉ trail) (h : Value.at? globals path = some (.text text)) :
    globals.lookupFrom trail path >>= textOf .scalar =
      substitute (globals.lookupFrom (trail ++ [path])) .scalar text := by
  rw [lookupFrom_eq, if_neg fresh, h]
  dsimp only
  -- an alias is followed and any other text is replaced, which comes to the same for a text
  split
  · next target single => rw [substitute_single single]
  · cases substitute (globals.lookupFrom (trail ++ [path])) .scalar text <;> rfl

theorem substitute_refinedBy (hl : ∀ next ∈ referencedPaths text.toList,
    RefinedBy (lookup next) (lookup' next)) :
    RefinedBy (substitute lookup hook text) (substitute lookup' hook text) := by
  refine RefinedBy.bind (RefinedBy.mapM fun piece hp => ?_) fun _ => .refl _
  cases piece with
  | literal c => exact .refl _
  | reference path => exact (hl path (mem_referencedPaths.2 hp)).bind fun _ => .refl _

/-- A look-up that succeeds behind one trail does so behind every trail without further labels that
it meets. -/
theorem lookupFrom_refinedBy (h : Covers globals.LeadsTo id trail other path) :
    RefinedBy (globals.lookupFrom trail path) (globals.lookupFrom other path) := by
  induction trail, path using lookupFrom.induct globals generalizing other with
  | case1 trail path seen =>
    rw [lookupFrom_eq, if_pos seen]
    exact .error _ _
  | case2 trail path fresh text found target single ih =>
    have hother : path ∉ other := h.fresh fresh
    have hleads : globals.LeadsTo path target :=
      ⟨text, found, mem_referencedPaths.2 (by simp [single])⟩
    rw [lookupFrom_eq, lookupFrom_eq globals other, if_neg fresh, if_neg hother, found]
    simp only [single]
    exact ih (h.step hleads)
  | case3 trail path fresh text found several ih =>
    have hother : path ∉ other := h.fresh fresh
    have hsubstitute : RefinedBy (substitute (globals.lookupFrom (trail ++ [path])) .scalar text)
        (substitute (globals.lookupFrom (other ++ [path])) .scalar text) :=
      substitute_refinedBy fun next hn =>
        ih next (mem_referencedPaths.1 hn) (h.step ⟨text, found, hn⟩)
    rw [lookupFrom_eq, lookupFrom_eq globals other, if_neg fresh, if_neg hother, found]
    simp only
    exact hsubstitute.bind fun _ => .refl _
  | case4 trail path fresh plain =>
    have hother : path ∉ other := h.fresh fresh
    rw [lookupFrom_of_plain fresh plain, lookupFrom_of_plain hother plain]
    exact .refl _

theorem lookupFrom_toOption (h : globals.LeadsTo path next) :
    (globals.lookupFrom [path] next).toOption = (globals.lookupFrom [] next).toOption := by
  refine toOption_eq_iff.2 ⟨lookupFrom_refinedBy (.nil _ _), fun found hf => ?_⟩
  -- the path itself would only be met again on a cycle, and then neither look-up succeeds
  have hcovers : Covers globals.LeadsTo id [] [path] next :=
    (explores_lookupFrom globals).covers ⟨found, hf⟩ h fun _ _ he => he
  exact lookupFrom_refinedBy hcovers found hf

theorem substitute_lookupFrom_toOption (h : Value.at? globals path = some (.text text)) :
    (substitute (globals.lookupFrom [path]) .scalar text).toOption =
      (globals.resolve text).toOption := by
  have hnext (next : String) (hn : next ∈ referencedPaths text.toList) :=
    toOption_eq_iff.1 (lookupFrom_toOption ⟨text, h, hn⟩)
  exact toOption_eq_iff.2 ⟨substitute_refinedBy fun next hn => (hnext next hn).1,
    substitute_refinedBy fun next hn => (hnext next hn).2⟩

theorem textOf_lookupFrom_toOption (h : Value.at? globals path = some (.text text)) :
    (globals.lookupFrom [] path >>= textOf .scalar).toOption = (globals.resolve text).toOption := by
  rw [textOf_lookupFrom List.not_mem_nil h]
  exact substitute_lookupFrom_toOption h

/-- The text at the end of one path is a reference to the other one and nothing else. -/
def AliasOf (globals : Globals) (path next : String) : Prop :=
  ∃ text, Value.at? globals path = some (.text text) ∧ pieces text.toList = [.reference next]

theorem AliasOf.leadsTo (h : globals.AliasOf path next) : globals.LeadsTo path next := by
  obtain ⟨text, found, single⟩ := h
  exact ⟨text, found, mem_referencedPaths.2 (by simp [single])⟩

theorem lookupFrom_of_aliasOf (h : globals.AliasOf path next) :
    globals.lookupFrom [] path = globals.lookupFrom [path] next := by
  obtain ⟨text, found, single⟩ := h
  rw [lookupFrom_eq, if_neg List.not_mem_nil, found]
  simp only [single, List.nil_append]

theorem lookupFrom_of_aliases (h : ReflTransGen globals.AliasOf path last) :
    (globals.lookupFrom [] path).toOption = (globals.lookupFrom [] last).toOption := by
  induction h using ReflTransGen.head_induction_on with
  | refl => rfl
  | head first _ ih =>
    rw [lookupFrom_of_aliasOf first, lookupFrom_toOption first.leadsTo, ih]

theorem lookupFrom_of_aliased_object (aliases : ReflTransGen globals.AliasOf path last)
    (found : Value.at? globals last = some (.object entries)) :
    globals.lookupFrom [] path = .ok (some (.object entries)) := by
  have hplain (text : String) : Value.at? globals last ≠ some (.text text) := by simp [found]
  have h := lookupFrom_of_aliases aliases
  rw [lookupFrom_of_plain List.not_mem_nil hplain, found] at h
  cases hl : globals.lookupFrom [] path with
  | error error =>
    rw [hl] at h
    cases h
  | ok value =>
    rw [hl] at h
    exact congrArg Except.ok (Option.some.inj h)

/-- A path leads to an object, perhaps by way of aliases. -/
def LeadsToObject (globals : Globals) (path : String) (entries : List (String × Value)) : Prop :=
  ∃ last, ReflTransGen globals.AliasOf path last ∧
    Value.at? globals last = some (.object entries)

theorem leadsToObject_of_lookupFrom
    (h : globals.lookupFrom trail path = .ok (some (.object entries))) :
    globals.LeadsToObject path entries := by
  induction trail, path using lookupFrom.induct globals with
  | case1 trail path seen =>
    rw [lookupFrom_eq, if_pos seen] at h
    cases h
  | case2 trail path fresh text found target single ih =>
    rw [lookupFrom_eq, if_neg fresh, found] at h
    simp only [single] at h
    obtain ⟨last, aliases, hlast⟩ := ih h
    exact ⟨last, .head ⟨text, found, single⟩ aliases, hlast⟩
  | case3 trail path fresh text found several _ =>
    rw [lookupFrom_eq, if_neg fresh, found] at h
    simp only at h
    obtain ⟨resolved, -, he⟩ := bind_eq_ok_iff.1 h
    cases he
  | case4 trail path fresh plain =>
    rw [lookupFrom_of_plain fresh plain] at h
    exact ⟨path, .refl, Except.ok.inj h⟩

theorem lookupFrom_eq_object_iff :
    globals.lookupFrom [] path = .ok (some (.object entries)) ↔
      globals.LeadsToObject path entries :=
  ⟨leadsToObject_of_lookupFrom, fun ⟨_, aliases, found⟩ =>
    lookupFrom_of_aliased_object aliases found⟩

theorem resolveWith_bare (hp : IsPath path) :
    globals.resolveWith hook ("$$" ++ path) = globals.lookupFrom [] path >>= textOf hook :=
  substitute_single (pieces_bare hp)

theorem substitute_between {before after : String} (hp : IsPath path)
    (hb : before.toList.getLast? ≠ some '$') :
    substitute lookup hook (before ++ "$$" ++ path ++ "|" ++ after) = do
      return (← substitute lookup hook before) ++ (← substitute lookup hook ("$$" ++ path)) ++
        (← substitute lookup hook after) := by
  have hdollar : ¬ ['$'] <:+ before.toList := fun ⟨front, hf⟩ =>
    hb (List.getLast?_eq_some_iff.2 ⟨front, hf.symm⟩)
  have hbarred : ("$$" ++ path ++ "|" ++ after).toList =
      '$' :: '$' :: (path.toList ++ '|' :: after.toList) := by simp
  have hwhole : (before ++ "$$" ++ path ++ "|" ++ after).toList =
      before.toList ++ '$' :: '$' :: (path.toList ++ '|' :: after.toList) := by simp
  have hlast : pieces ("$$" ++ path ++ "|" ++ after).toList =
      pieces ("$$" ++ path).toList ++ pieces after.toList := by
    rw [hbarred, pieces_barred hp, pieces_bare hp, List.singleton_append]
  have hsplit : pieces (before ++ "$$" ++ path ++ "|" ++ after).toList =
      pieces before.toList ++ pieces ("$$" ++ path ++ "|" ++ after).toList := by
    rw [hwhole, hbarred, pieces_append_reference hdollar]
  rw [substitute_append hsplit, substitute_append hlast]
  simp only [bind_assoc, pure_bind, String.append_assoc]

theorem resolve_aliased (hp : IsPath path)
    (aliases : ReflTransGen globals.AliasOf path last)
    (found : Value.at? globals last = some (.text text)) :
    (globals.resolve ("$$" ++ path)).toOption = (globals.resolve text).toOption := by
  rw [resolve, resolveWith_bare hp, toOption_bind_congr (lookupFrom_of_aliases aliases),
    textOf_lookupFrom_toOption found]

theorem resolve_plain (hp : IsPath path)
    (plain : ∀ text, Value.at? globals path ≠ some (.text text)) :
    globals.resolve ("$$" ++ path) = .ok ((Value.at? globals path).elim "" Value.scalarText) := by
  rw [resolve, resolveWith_bare hp, lookupFrom_of_plain List.not_mem_nil plain]
  cases Value.at? globals path <;> rfl

/-- A reference with its bar is resolved on its own, between what stands in front of it and what
stands behind it. A path to a text stands for that text, also by way of aliases, and a path to
anything else for the text of that value. What is not a reference stays as it is. -/
theorem references_resolve_in_place (globals : Globals) :
    (∀ before path after : String, IsPath path → before.toList.getLast? ≠ some '$' →
      globals.resolve (before ++ "$$" ++ path ++ "|" ++ after) = do
        return (← globals.resolve before) ++ (← globals.resolve ("$$" ++ path)) ++
          (← globals.resolve after)) ∧
    (∀ path text, IsPath path → Value.at? globals path = some (.text text) →
      (globals.resolve ("$$" ++ path)).toOption = (globals.resolve text).toOption) ∧
    (∀ path last text, IsPath path → ReflTransGen globals.AliasOf path last →
      Value.at? globals last = some (.text text) →
      (globals.resolve ("$$" ++ path)).toOption = (globals.resolve text).toOption) ∧
    (∀ path, IsPath path → (∀ text, Value.at? globals path ≠ some (.text text)) →
      globals.resolve ("$$" ++ path) =
        .ok ((Value.at? globals path).elim "" Value.scalarText)) ∧
    ∀ text : String, ¬ ['$', '$'] <:+: text.toList → globals.resolve text = .ok text :=
  ⟨fun _ _ _ hp hb => substitute_between hp hb, fun _ _ hp => resolve_aliased hp .refl,
    fun _ _ _ hp => resolve_aliased hp, fun _ hp => resolve_plain hp,
    fun _ => substitute_unmarked⟩

def shades : Globals := .object [
  ("mix", .text "#cc6655"), ("shade", .text "$$mix|aa"), ("accent", .text "$$shade")]

/-- The accent stands for the shade that it is an alias of, also between other references. There is
no tint, and a dollar on its own is no reference. -/
theorem accent_resolves_in_place :
    IsPath "accent" ∧ "0 $$mix ".toList.getLast? ≠ some '$' ∧
      (shades.resolve ("0 $$mix " ++ "$$" ++ "accent" ++ "|" ++ "$$mix")).toOption =
        some "0 #cc6655 #cc6655aa#cc6655" ∧
      Value.at? shades "accent" = some (.text "$$shade") ∧
      (shades.resolve ("$$" ++ "accent")).toOption = (shades.resolve "$$shade").toOption ∧
      ReflTransGen shades.AliasOf "accent" "shade" ∧
      Value.at? shades "shade" = some (.text "$$mix|aa") ∧
      (shades.resolve ("$$" ++ "accent")).toOption = (shades.resolve "$$mix|aa").toOption ∧
      (∀ text, Value.at? shades "tint" ≠ some (.text text)) ∧
      shades.resolve ("$$" ++ "tint") = .ok "" ∧
      ¬ ['$', '$'] <:+: "$5".toList ∧ shades.resolve "$5" = .ok "$5" := by
  have hpath : IsPath "accent" := by decide +kernel
  have hlast : "0 $$mix ".toList.getLast? ≠ some '$' := by decide
  have haccent : Value.at? shades "accent" = some (.text "$$shade") := rfl
  have hshade : Value.at? shades "shade" = some (.text "$$mix|aa") := rfl
  have halias : shades.AliasOf "accent" "shade" := ⟨"$$shade", haccent, by decide +kernel⟩
  have hplain (text : String) : Value.at? shades "tint" ≠ some (.text text) := by
    intro found
    cases found
  have hunmarked : ¬ ['$', '$'] <:+: "$5".toList := by decide +kernel
  obtain ⟨hplace, htext, hchain, hother, hkept⟩ := references_resolve_in_place shades
  refine ⟨hpath, hlast, ?_, haccent, htext _ _ hpath haccent, .single halias, hshade,
    hchain _ _ _ hpath (.single halias) hshade, hplain, hother _ (by decide +kernel) hplain,
    hunmarked, hkept _ hunmarked⟩
  rw [hplace _ _ _ hpath hlast]
  decide +kernel

end Globals

end Theming
