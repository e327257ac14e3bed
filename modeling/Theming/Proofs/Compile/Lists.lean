import Theming.Proofs.Compile.Boxes
import Theming.Proofs.Css.Order

/-! Lists of sources. The items of a list are merged one after the other, and composed maps merge
in the same way from either end. So a list inside a list gives what its items give in its place. -/

namespace Theming

namespace Source

variable {α β : Type}

mutual

/-- What is left of a source when its lists are taken apart. -/
def leaves : Source α → List (Source α)
  | .reference text => [.reference text]
  | .inline definition => [.inline definition]
  | .list items => leavesOfItems items
termination_by structural source => source

def leavesOfItems : List (Source α) → List (Source α)
  | [] => []
  | item :: rest => leaves item ++ leavesOfItems rest
termination_by structural items => items

end

/-- A list inside a list may be replaced by its items. -/
def Flattens (css : Source α → β) : Prop :=
  ∀ xs ys zs, css (.list (xs ++ .list ys :: zs)) = css (.list (xs ++ ys ++ zs))

mutual

theorem Flattens.leaves {css : Source α → β} (h : Flattens css) : (source : Source α) →
    (xs zs : List (Source α)) →
    css (.list (xs ++ source :: zs)) = css (.list (xs ++ source.leaves ++ zs))
  | .reference text, xs, zs => by simp [Source.leaves]
  | .inline definition, xs, zs => by simp [Source.leaves]
  | .list items, xs, zs => by
    rw [h xs items zs, Flattens.leavesOfItems h items xs zs, Source.leaves]
termination_by structural source => source

theorem Flattens.leavesOfItems {css : Source α → β} (h : Flattens css) :
    (items xs zs : List (Source α)) →
    css (.list (xs ++ items ++ zs)) = css (.list (xs ++ Source.leavesOfItems items ++ zs))
  | [], xs, zs => rfl
  | item :: rest, xs, zs => by
    have hfirst := Flattens.leaves h item xs (rest ++ zs)
    have hrest := Flattens.leavesOfItems h rest (xs ++ item.leaves) zs
    simp only [Source.leavesOfItems, List.append_assoc, List.cons_append] at hfirst hrest ⊢
    rw [hfirst, hrest]
termination_by structural items => items

end

end Source

open Styles

theorem Styles.Fit.merge_assoc {a b c : Styles} (ha : Fit .rules a) (hb : Fit .rules b)
    (hc : Fit .rules c) :
    Styles.merge (Styles.merge a b) c = Styles.merge a (Styles.merge b c) :=
  Styles.merge_assoc (ha.block.compatible hb.block) (ha.block.compatible hc.block)
    (hb.block.compatible hc.block) ha.block.proper hb.block.proper hc.block.proper

section

variable {ε α : Type} {css : α → Except ε Styles} {merged styles : Styles}

def mergeItems (css : α → Except ε Styles) (merged : Styles) (items : List α) : Except ε Styles :=
  items.foldlM (fun merged item => return merge merged (← css item)) merged

theorem fit_of_mergeItems (hf : ∀ item styles, css item = .ok styles → Fit .rules styles)
    {items : List α} (hm : Fit .rules merged) (h : mergeItems css merged items = .ok styles) :
    Fit .rules styles := by
  refine foldlM_keeps (fun before item after hb hs => ?_) hm h
  obtain ⟨inner, hi, hs⟩ := bind_eq_ok_iff.1 hs
  cases hs
  exact hb.merge (hf item inner hi)

theorem mergeItems_cons (item : α) (rest : List α) : mergeItems css merged (item :: rest) =
    css item >>= fun styles => mergeItems css (merge merged styles) rest := by
  simp only [mergeItems, List.foldlM_cons, bind_assoc, pure_bind]

theorem mergeItems_append (xs ys : List α) : mergeItems css merged (xs ++ ys) =
    mergeItems css merged xs >>= fun styles => mergeItems css styles ys :=
  List.foldlM_append

/-- What items give on top of a map is what they give on their own, merged into it. -/
theorem mergeItems_eq_map (hf : ∀ item styles, css item = .ok styles → Fit .rules styles)
    (items : List α) (hm : Fit .rules merged) :
    mergeItems css merged items = (mergeItems css [] items).map (merge merged) := by
  induction items generalizing merged with
  | nil => rfl
  | cons item rest ih =>
    rw [mergeItems_cons, mergeItems_cons]
    cases hi : css item with
    | error error => rfl
    | ok inner =>
      have hinner := hf item inner hi
      change mergeItems css (merge merged inner) rest =
        (mergeItems css (merge [] inner) rest).map (merge merged)
      rw [merge_nil_left (fit_iff.1 hinner).1, ih (hm.merge hinner), ih hinner]
      cases hr : mergeItems css [] rest with
      | error error => rfl
      | ok later =>
        have hlater := fit_of_mergeItems hf .nil hr
        exact congrArg Except.ok (hm.merge_assoc hinner hlater)

/-- An item that gives what others give may be replaced by them, also if what it gives has been
arranged in a way that does not matter once the whole is arranged. -/
theorem mergeItems_nested {arrange : Styles → Styles}
    (hf : ∀ item styles, css item = .ok styles → Fit .rules styles)
    (ha : ∀ a b c, Fit .rules a → Fit .rules b → Fit .rules c → Fit .rules (arrange b) ∧
      arrange (merge (merge a (arrange b)) c) = arrange (merge (merge a b) c))
    {nested : α} (xs ys zs : List α) (hn : css nested = (mergeItems css [] ys).map arrange) :
    (mergeItems css [] (xs ++ nested :: zs)).map arrange =
      (mergeItems css [] (xs ++ ys ++ zs)).map arrange := by
  rw [mergeItems_append, mergeItems_append, mergeItems_append]
  cases hx : mergeItems css [] xs with
  | error error => rfl
  | ok a =>
    have hfa := fit_of_mergeItems hf .nil hx
    change (mergeItems css a (nested :: zs)).map arrange =
      (mergeItems css a ys >>= fun styles => mergeItems css styles zs).map arrange
    rw [mergeItems_cons, hn, mergeItems_eq_map hf ys hfa]
    cases hy : mergeItems css [] ys with
    | error error => rfl
    | ok b =>
      have hfb := fit_of_mergeItems hf .nil hy
      have hfb' := (ha a b [] hfa hfb .nil).1
      change (mergeItems css (merge a (arrange b)) zs).map arrange =
        (mergeItems css (merge a b) zs).map arrange
      rw [mergeItems_eq_map hf zs (hfa.merge hfb'), mergeItems_eq_map hf zs (hfa.merge hfb)]
      cases hz : mergeItems css [] zs with
      | error error => rfl
      | ok c =>
        have hfc := fit_of_mergeItems hf .nil hz
        exact congrArg Except.ok (ha a b c hfa hfb hfc).2

end

namespace Theme

variable {theme : Theme} {refer : String → Except ThemeError (Option Styles)}

theorem setListStyles_eq_mergeItems {kind : SetKind} (merged : Styles)
    (items : List (Source (StyleSet kind))) :
    theme.setListStyles merged items = mergeItems theme.setStyles merged items := by
  induction items generalizing merged with
  | nil => rfl
  | cons item rest ih => simp only [setListStyles, mergeItems_cons, ih]

theorem flattens_setStyles (theme : Theme) (kind : SetKind) :
    Source.Flattens (@setStyles theme kind) := by
  intro xs ys zs
  have hlist (items : List (Source (StyleSet kind))) :
      theme.setStyles (.list items) = (mergeItems theme.setStyles [] items).map id := by
    rw [setStyles, setListStyles_eq_mergeItems]
    cases mergeItems theme.setStyles [] items <;> rfl
  rw [hlist, hlist]
  exact mergeItems_nested (fun item _ => fit_of_setStyles item) (fun a b c _ hb _ => ⟨hb, rfl⟩)
    xs ys zs (hlist ys)

/-- The styles of an item of a list of boxes. A reference that leads nowhere gives none. -/
def itemStyles (theme : Theme) (refer : String → Except ThemeError (Option Styles))
    (item : Source Box) : Except ThemeError Styles :=
  (theme.sourceStyles refer item).map fun styles => styles.getD []

theorem listStyles_eq_mergeItems (merged : Styles) (items : List (Source Box)) :
    theme.listStyles refer merged items = mergeItems (theme.itemStyles refer) merged items := by
  induction items generalizing merged with
  | nil => rfl
  | cons item rest ih =>
    rw [listStyles, mergeItems_cons, itemStyles]
    simp only [ih]
    cases theme.sourceStyles refer item <;> rfl

theorem fit_of_itemStyles (hr : FitReferences refer) {item : Source Box} {styles : Styles}
    (h : theme.itemStyles refer item = .ok styles) : Fit .rules styles := by
  unfold itemStyles at h
  cases hs : theme.sourceStyles refer item with
  | error error =>
    rw [hs] at h
    cases h
  | ok found =>
    rw [hs] at h
    cases h
    cases found with
    | none => exact .nil
    | some inner => exact fit_of_sourceStyles hr item hs

theorem flattens_sourceStyles (hr : FitReferences refer) :
    Source.Flattens (theme.sourceStyles refer) := by
  intro xs ys zs
  have hlist (items : List (Source Box)) : theme.sourceStyles refer (.list items) =
      ((mergeItems (theme.itemStyles refer) [] items).map sorted).map some := by
    rw [sourceStyles, listStyles_eq_mergeItems]
    cases mergeItems (theme.itemStyles refer) [] items <;> rfl
  have hnested : theme.itemStyles refer (.list ys) =
      (mergeItems (theme.itemStyles refer) [] ys).map sorted := by
    rw [itemStyles, hlist]
    cases mergeItems (theme.itemStyles refer) [] ys <;> rfl
  rw [hlist, hlist]
  refine congrArg (Except.map some) (mergeItems_nested (fun item _ => fit_of_itemStyles hr)
    (fun a b c ha hb hc => ⟨hb.sorted, ?_⟩) xs ys zs hnested)
  exact sorted_merge_sorted (fit_iff.1 ha).1 (fit_iff.1 hb).1 (fit_iff.1 hc).1

/-- A list inside a list gives what its items give in its place, and lists nested in any way give
what is left when all of them are taken apart. -/
theorem nested_lists_flatten (theme : Theme) :
    (∀ (context : BoxContext) (xs ys zs : List (Source Box)),
      theme.boxCss context (.list (xs ++ [.list ys] ++ zs)) =
        theme.boxCss context (.list (xs ++ ys ++ zs))) ∧
    (∀ (context : BoxContext) (items : List (Source Box)),
      theme.boxCss context (.list items) =
        theme.boxCss context (.list (Source.leavesOfItems items))) ∧
    (∀ (kind : SetKind) (xs ys zs : List (Source (StyleSet kind))),
      theme.setStyles (.list (xs ++ [.list ys] ++ zs)) = theme.setStyles (.list (xs ++ ys ++ zs))) ∧
    (∀ (kind : SetKind) (items : List (Source (StyleSet kind))),
      theme.setStyles (.list items) = theme.setStyles (.list (Source.leavesOfItems items))) := by
  have hboxes (context : BoxContext) : Source.Flattens (theme.boxCss context) :=
    flattens_sourceStyles (fit_of_namedBoxStyles [])
  have hsets := theme.flattens_setStyles
  refine ⟨fun context xs ys zs => ?_, fun context items => ?_, fun kind xs ys zs => ?_,
    fun kind items => ?_⟩
  · simpa only [List.append_assoc, List.singleton_append] using hboxes context xs ys zs
  · simpa using (hboxes context).leavesOfItems items [] []
  · simpa only [List.append_assoc, List.singleton_append] using hsets kind xs ys zs
  · simpa using (hsets kind).leavesOfItems items [] []

end Theme

end Theming
