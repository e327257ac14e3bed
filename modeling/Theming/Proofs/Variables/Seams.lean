import Theming.Proofs.Variables.Dollars

/-! References that come about by resolving. What a text resolves to is not searched for references
again, and single dollars stay in it. So there is a new reference exactly where a dollar at the end
of one piece meets a dollar at the start of what follows, in the text or in one that it leads to. -/

namespace Theming

open Relation

namespace Globals

variable {globals : Globals} {lookup : String → Except ThemeError (Option Value)} {hook : Hook}
  {text out path : String} {trail : Trail} {value : Value} {Q : List Char → Prop}

def RefersTo (globals : Globals) (text found : String) : Prop :=
  ∃ path ∈ referencedPaths text.toList, Value.at? globals path = some (.text found)

def renderings (globals : Globals) (hook : Hook) (text : String) :
    Except ThemeError (List (List Char)) :=
  (pieces text.toList).mapM (renderPiece (globals.lookupFrom []) hook)

/-- Dollars meet between the pieces of the text. -/
def HasSeam (globals : Globals) (hook : Hook) (text : String) : Prop :=
  ∃ parts, globals.renderings hook text = .ok parts ∧ DollarsMeet parts

/-- Dollars meet in the text, or in one that it leads to. -/
def MakesReference (globals : Globals) (text : String) : Prop :=
  ∃ last, ReflTransGen globals.RefersTo text last ∧ globals.HasSeam .scalar last

theorem exists_parts_of_substitute (h : substitute lookup hook text = .ok out) :
    ∃ parts, (pieces text.toList).mapM (renderPiece lookup hook) = .ok parts ∧
      out.toList = parts.flatten := by
  obtain ⟨parts, hparts, he⟩ := bind_eq_ok_iff.1 h
  cases he
  exact ⟨parts, hparts, String.toList_ofList⟩

theorem renderPiece_reference_eq_ok {part : List Char}
    (h : renderPiece lookup hook (.reference path) = .ok part) :
    lookup path = .ok none ∧ part = [] ∨
      ∃ value rendered, lookup path = .ok (some value) ∧ hook value = .ok rendered ∧
        part = rendered.toList := by
  obtain ⟨found, hfound, h⟩ := bind_eq_ok_iff.1 h
  cases found with
  | none =>
    cases h
    exact .inl ⟨hfound, rfl⟩
  | some value =>
    obtain ⟨rendered, hrendered, h⟩ := bind_eq_ok_iff.1 h
    cases h
    exact .inr ⟨value, rendered, hfound, hrendered, rfl⟩

theorem exists_source_of_part {parts : List (List Char)} {part : List Char}
    (h : (pieces text.toList).mapM (renderPiece lookup hook) = .ok parts) (hm : part ∈ parts) :
    (∃ c, Piece.literal c ∈ pieces text.toList ∧ part = [c]) ∨ part = [] ∨
      ∃ path ∈ referencedPaths text.toList, ∃ value rendered, lookup path = .ok (some value) ∧
        hook value = .ok rendered ∧ part = rendered.toList := by
  obtain ⟨piece, hp, hpart⟩ := exists_of_mapM h part hm
  cases piece with
  | literal c =>
    cases hpart
    exact .inl ⟨c, hp, rfl⟩
  | reference path =>
    rcases renderPiece_reference_eq_ok hpart with ⟨-, rfl⟩ | ⟨value, rendered, hl, hh, rfl⟩
    · exact .inr (.inl rfl)
    · exact .inr (.inr ⟨path, mem_referencedPaths.2 hp, value, rendered, hl, hh, rfl⟩)

theorem exists_source_of_marked_part {parts : List (List Char)} {part : List Char}
    (h : (pieces text.toList).mapM (renderPiece lookup hook) = .ok parts) (hm : part ∈ parts)
    (hmark : ['$', '$'] <:+: part) : ∃ path ∈ referencedPaths text.toList, ∃ value rendered,
      lookup path = .ok (some value) ∧ hook value = .ok rendered ∧ part = rendered.toList := by
  have hlength := hmark.length_le
  rcases exists_source_of_part h hm with ⟨c, -, rfl⟩ | rfl | hreference
  · simp at hlength
  · simp at hlength
  · exact hreference

/-- The text has a property when it is resolved that nothing has that it refers to. -/
def Begins (Q : List Char → Prop) (globals : Globals) (text : String) : Prop :=
  ∃ parts, globals.renderings .scalar text = .ok parts ∧ Q parts.flatten ∧
    ∀ path ∈ referencedPaths text.toList, ∀ value, globals.lookupFrom [] path = .ok (some value) →
      ¬ Q value.scalarText.toList

theorem begins_or_referred (hl : ∀ path, RefinedBy (lookup path) (globals.lookupFrom [] path))
    (h : substitute lookup .scalar text = .ok out) (hq : Q out.toList) :
    Begins Q globals text ∨ ∃ path ∈ referencedPaths text.toList, ∃ value,
      lookup path = .ok (some value) ∧ Q value.scalarText.toList := by
  by_cases hr : ∃ path ∈ referencedPaths text.toList, ∃ value,
      lookup path = .ok (some value) ∧ Q value.scalarText.toList
  · exact .inr hr
  · have hout : substitute (globals.lookupFrom []) .scalar text = .ok out :=
      substitute_refinedBy (fun path _ => hl path) out h
    obtain ⟨parts, hparts, he⟩ := exists_parts_of_substitute hout
    refine .inl ⟨parts, hparts, he ▸ hq, fun path hm value hvalue hqv => ?_⟩
    refine hr ⟨path, hm, value, ?_, hqv⟩
    obtain ⟨found, hfound⟩ := lookup_ok_of_substitute h path hm
    rw [← hvalue, hfound, hl path found hfound]

/-- A property that only texts have has its beginning in a text. -/
theorem exists_begins_of_lookupFrom (hQ : ∀ value : Value, Q value.scalarText.toList →
      ∃ text, value = .text text)
    (h : globals.lookupFrom trail path = .ok (some value)) (hq : Q value.scalarText.toList) :
    ∃ found, Value.at? globals path = some (.text found) ∧
      ∃ last, ReflTransGen globals.RefersTo found last ∧ Begins Q globals last := by
  induction trail, path using lookupFrom.induct globals generalizing value with
  | case1 trail path seen =>
    rw [lookupFrom_eq, if_pos seen] at h
    cases h
  | case2 trail path fresh text found target single ih =>
    rw [lookupFrom_eq, if_neg fresh, found] at h
    simp only [single] at h
    obtain ⟨next, hnext, last, hlast, hbegins⟩ := ih h hq
    have hrefers : globals.RefersTo text next :=
      ⟨target, mem_referencedPaths.2 (by simp [single]), hnext⟩
    exact ⟨text, found, last, .head hrefers hlast, hbegins⟩
  | case3 trail path fresh text found several ih =>
    rw [lookupFrom_eq, if_neg fresh, found] at h
    simp only at h
    obtain ⟨resolved, hresolved, he⟩ := bind_eq_ok_iff.1 h
    cases he
    -- what is found behind the trail is found without it too
    rcases begins_or_referred (fun _ => lookupFrom_refinedBy (.nil _ _)) hresolved hq with
      hbegins | ⟨next, hm, value, hvalue, hqv⟩
    · exact ⟨text, found, text, .refl, hbegins⟩
    · obtain ⟨other, hother, last, hlast, hbegins⟩ := ih next (mem_referencedPaths.1 hm) hvalue hqv
      exact ⟨text, found, last, .head ⟨next, hm, hother⟩ hlast, hbegins⟩
  | case4 trail path fresh plain =>
    rw [lookupFrom_of_plain fresh plain] at h
    obtain ⟨text, rfl⟩ := hQ value hq
    exact absurd (Except.ok.inj h) (plain text)

theorem exists_begins_of_resolve (hQ : ∀ value : Value, Q value.scalarText.toList →
      ∃ text, value = .text text) (h : globals.resolve text = .ok out) (hq : Q out.toList) :
    ∃ last, ReflTransGen globals.RefersTo text last ∧ Begins Q globals last := by
  rcases begins_or_referred (fun _ => .refl _) h hq with hbegins | ⟨path, hm, value, hvalue, hqv⟩
  · exact ⟨text, .refl, hbegins⟩
  · obtain ⟨found, hfound, last, hlast, hbegins⟩ := exists_begins_of_lookupFrom hQ hvalue hqv
    exact ⟨last, .head ⟨path, hm, hfound⟩ hlast, hbegins⟩

theorem exists_text_of_dollar (h : '$' ∈ value.scalarText.toList) : ∃ text, value = .text text := by
  by_contra hnone
  exact value.dollar_not_mem_scalarText (fun text he => hnone ⟨text, he⟩) h

theorem exists_text_of_mark (h : ['$', '$'] <:+: value.scalarText.toList) :
    ∃ text, value = .text text :=
  exists_text_of_dollar (h.subset List.mem_cons_self)

theorem Begins.hasSeam (h : Begins (['$', '$'] <:+: ·) globals text) :
    globals.HasSeam .scalar text := by
  obtain ⟨parts, hparts, hmark, hothers⟩ := h
  rcases mark_infix_flatten_iff.1 hmark with ⟨part, hm, hpart⟩ | hmeet
  · obtain ⟨path, hp, value, rendered, hvalue, hrendered, rfl⟩ :=
      exists_source_of_marked_part hparts hm hpart
    cases hrendered
    exact absurd hpart (hothers path hp value hvalue)
  · exact ⟨parts, hparts, hmeet⟩

theorem Begins.literal_dollar (h : Begins ('$' ∈ ·) globals text) :
    Piece.literal '$' ∈ pieces text.toList := by
  obtain ⟨parts, hparts, hdollar, hothers⟩ := h
  obtain ⟨part, hm, hpart⟩ := List.mem_flatten.1 hdollar
  rcases exists_source_of_part hparts hm with
    ⟨c, hc, rfl⟩ | rfl | ⟨path, hp, value, rendered, hvalue, hrendered, rfl⟩
  · rwa [List.mem_singleton.1 hpart]
  · cases hpart
  · cases hrendered
    exact absurd hpart (hothers path hp value hvalue)

theorem infix_of_reference {rendered : String} (h : globals.resolveWith hook text = .ok out)
    (hp : path ∈ referencedPaths text.toList)
    (hvalue : globals.lookupFrom [] path = .ok (some value))
    (hrendered : hook value = .ok rendered) : rendered.toList <:+: out.toList := by
  obtain ⟨parts, hparts, he⟩ := exists_parts_of_substitute h
  obtain ⟨part, hm, hpart⟩ :=
    exists_of_forall₂ (mapM_eq_ok_iff.1 hparts).flip _ (mem_referencedPaths.1 hp)
  rcases renderPiece_reference_eq_ok hpart with ⟨hnone, -⟩ | ⟨other, text, hother, htext, rfl⟩
  · rw [hvalue] at hnone
    cases hnone
  · rw [hvalue] at hother
    cases hother
    rw [hrendered] at htext
    cases htext
    rw [he]
    exact List.infix_of_mem_flatten hm

theorem HasSeam.mark_infix (h : globals.HasSeam hook text)
    (hout : globals.resolveWith hook text = .ok out) : ['$', '$'] <:+: out.toList := by
  obtain ⟨parts, hparts, hmeet⟩ := h
  obtain ⟨parts', hparts', he⟩ := exists_parts_of_substitute hout
  have hsame : parts' = parts := Except.ok.inj (hparts'.symm.trans hparts)
  rw [he, hsame]
  exact mark_infix_flatten_iff.2 (.inr hmeet)

/-- What a text refers to can be resolved if the text can, and unless that is empty the reference
has a value. -/
theorem resolve_of_refersTo {found : String} (h : globals.resolveWith hook text = .ok out)
    (hp : path ∈ referencedPaths text.toList)
    (hfound : Value.at? globals path = some (.text found)) :
    ∃ resolved, globals.resolve found = .ok resolved ∧
      (resolved ≠ "" → ∃ value, globals.lookupFrom [] path = .ok (some value) ∧
        value.scalarText = resolved) := by
  obtain ⟨reached, hreached⟩ := lookup_ok_of_substitute h path hp
  have hresolve := textOf_lookupFrom_toOption hfound
  rw [hreached] at hresolve
  have hok := (toOption_eq_iff.1 hresolve).1
  cases reached with
  | none => exact ⟨"", hok _ rfl, fun hne => absurd rfl hne⟩
  | some value => exact ⟨_, hok _ rfl, fun _ => ⟨value, hreached, rfl⟩⟩

theorem mark_infix_of_refersTo {found : String} (hout : globals.resolveWith hook text = .ok out)
    (hhook : ∀ s, hook (.text s) = .ok s) (hrefers : globals.RefersTo text found)
    (hmark : ∀ resolved, globals.resolve found = .ok resolved → ['$', '$'] <:+: resolved.toList) :
    ['$', '$'] <:+: out.toList := by
  obtain ⟨path, hp, hfound⟩ := hrefers
  obtain ⟨resolved, hresolved, hvalue⟩ := resolve_of_refersTo hout hp hfound
  have hmark := hmark resolved hresolved
  have hne : resolved ≠ "" := by
    rintro rfl
    have hnil := List.eq_nil_of_infix_nil hmark
    cases hnil
  obtain ⟨value, hlookup, rfl⟩ := hvalue hne
  obtain ⟨s, rfl⟩ := exists_text_of_mark hmark
  exact hmark.trans (infix_of_reference hout hp hlookup (hhook s))

theorem MakesReference.mark_infix (h : globals.MakesReference text)
    (hout : globals.resolve text = .ok out) : ['$', '$'] <:+: out.toList := by
  obtain ⟨last, hlast, hseam⟩ := h
  induction hlast using ReflTransGen.head_induction_on generalizing out with
  | refl => exact hseam.mark_infix hout
  | head hrefers _ ih => exact mark_infix_of_refersTo hout (fun _ => rfl) hrefers fun _ => ih

theorem hasReference_resolve_iff (h : globals.resolve text = .ok out) :
    hasReference out.toList = true ↔ globals.MakesReference text := by
  rw [hasReference_iff]
  refine ⟨fun hmark => ?_, fun hmakes => hmakes.mark_infix h⟩
  obtain ⟨last, hlast, hbegins⟩ := exists_begins_of_resolve (fun _ => exists_text_of_mark) h hmark
  exact ⟨last, hlast, hbegins.hasSeam⟩

/-- A reference in the text of a color leads to the other text, or to a gradient that has it in the
place that counts. -/
def ColorRefersTo (globals : Globals) (allowGradient : Bool) (text found : String) : Prop :=
  globals.RefersTo text found ∨ ∃ path ∈ referencedPaths text.toList, ∃ entries,
    globals.LeadsToObject path entries ∧
      Table.find? entries (gradientKey allowGradient) = some (.text found)

def ColorMakesReference (globals : Globals) (allowGradient : Bool) (text : String) : Prop :=
  globals.HasSeam (globals.colorHook allowGradient) text ∨
    ∃ found, globals.ColorRefersTo allowGradient text found ∧ globals.MakesReference found

theorem exists_begins_of_colorHook {allowGradient : Bool} {rendered : String}
    (hQ : ∀ value : Value, Q value.scalarText.toList → ∃ text, value = .text text)
    (hp : path ∈ referencedPaths text.toList)
    (hvalue : globals.lookupFrom [] path = .ok (some value))
    (hrendered : globals.colorHook allowGradient value = .ok rendered) (hq : Q rendered.toList) :
    ∃ found, globals.ColorRefersTo allowGradient text found ∧
      ∃ last, ReflTransGen globals.RefersTo found last ∧ Begins Q globals last := by
  by_cases hobject : ∃ entries, value = .object entries
  · obtain ⟨entries, rfl⟩ := hobject
    have hleads := lookupFrom_eq_object_iff.1 hvalue
    rw [colorHook] at hrendered
    split at hrendered
    · next found hfound =>
      exact ⟨found, .inr ⟨path, hp, entries, hleads, hfound⟩,
        exists_begins_of_resolve hQ hrendered hq⟩
    · next other plain _ =>
      cases hrendered
      obtain ⟨found, rfl⟩ := hQ other hq
      exact absurd rfl (plain found)
    · cases hrendered
      obtain ⟨found, he⟩ := hQ .null hq
      cases he
  · have hscalar : globals.colorHook allowGradient value = .ok value.scalarText := by
      cases value with
      | object entries => exact absurd ⟨entries, rfl⟩ hobject
      | _ => rfl
    rw [hscalar] at hrendered
    cases hrendered
    obtain ⟨found, hfound, hbegins⟩ := exists_begins_of_lookupFrom hQ hvalue hq
    exact ⟨found, .inl ⟨path, hp, hfound⟩, hbegins⟩

theorem ColorMakesReference.mark_infix {allowGradient : Bool}
    (h : globals.ColorMakesReference allowGradient text)
    (hout : globals.resolveWith (globals.colorHook allowGradient) text = .ok out) :
    ['$', '$'] <:+: out.toList := by
  rcases h with hseam | ⟨found, ⟨path, hp, hfound⟩ | ⟨path, hp, entries, hleads, hfound⟩, hmakes⟩
  · exact hseam.mark_infix hout
  · exact mark_infix_of_refersTo hout (fun _ => rfl) ⟨path, hp, hfound⟩
      fun _ => hmakes.mark_infix
  · have hlookup := lookupFrom_eq_object_iff.2 hleads
    have hhook : globals.colorHook allowGradient (.object entries) = globals.resolve found := by
      rw [colorHook, hfound]
    obtain ⟨parts, hparts, -⟩ := exists_parts_of_substitute hout
    obtain ⟨part, hpart⟩ := ok_of_mapM hparts _ (mem_referencedPaths.1 hp)
    rcases renderPiece_reference_eq_ok hpart with
      ⟨hnone, -⟩ | ⟨value, rendered, hvalue, hrendered, -⟩
    · rw [hlookup] at hnone
      cases hnone
    · rw [hlookup] at hvalue
      cases hvalue
      have hresolved := hhook.symm.trans hrendered
      exact (hmakes.mark_infix hresolved).trans (infix_of_reference hout hp hlookup hrendered)

theorem hasReference_resolveColor_iff {allowGradient : Bool}
    (h : globals.resolveColor allowGradient (.plain (.text text)) = .ok out) :
    hasReference out.toList = true ↔ globals.ColorMakesReference allowGradient text := by
  have hout : globals.resolveWith (globals.colorHook allowGradient) text = .ok out := h
  rw [hasReference_iff]
  refine ⟨fun hmark => ?_, fun hmakes => hmakes.mark_infix hout⟩
  obtain ⟨parts, hparts, he⟩ := exists_parts_of_substitute hout
  rw [he] at hmark
  rcases mark_infix_flatten_iff.1 hmark with ⟨part, hm, hpart⟩ | hmeet
  · obtain ⟨path, hp, value, rendered, hvalue, hrendered, rfl⟩ :=
      exists_source_of_marked_part hparts hm hpart
    obtain ⟨found, hrefers, last, hlast, hbegins⟩ :=
      exists_begins_of_colorHook (fun _ => exists_text_of_mark) hp hvalue hrendered hpart
    exact .inr ⟨found, hrefers, last, hlast, hbegins.hasSeam⟩
  · exact .inl ⟨parts, hparts, hmeet⟩

theorem mem_texts_of_refersTo {found : String} (h : globals.RefersTo text found) :
    found ∈ Value.texts globals := by
  obtain ⟨path, -, hfound⟩ := h
  exact Value.texts_subset_of_at? hfound (List.mem_singleton_self found)

theorem mem_texts_of_colorRefersTo {allowGradient : Bool} {found : String}
    (h : globals.ColorRefersTo allowGradient text found) : found ∈ Value.texts globals := by
  rcases h with hrefers | ⟨path, -, entries, ⟨last, -, hobject⟩, hfound⟩
  · exact mem_texts_of_refersTo hrefers
  · exact Value.texts_subset_of_at? hobject
      (Value.texts_subset_of_find? hfound (List.mem_singleton_self found))

theorem mem_texts_of_reflTransGen {last : String} (hm : text ∈ Value.texts globals)
    (h : ReflTransGen globals.RefersTo text last) : last ∈ Value.texts globals := by
  cases h with
  | refl => exact hm
  | tail _ hrefers => exact mem_texts_of_refersTo hrefers

theorem dollar_not_mem_resolve
    (lone : ∀ t ∈ text :: Value.texts globals, Piece.literal '$' ∉ pieces t.toList)
    (h : globals.resolve text = .ok out) : '$' ∉ out.toList := by
  intro hdollar
  obtain ⟨last, hlast, hbegins⟩ :=
    exists_begins_of_resolve (fun _ => exists_text_of_dollar) h hdollar
  refine lone last ?_ hbegins.literal_dollar
  cases hlast with
  | refl => exact List.mem_cons_self
  | tail _ hrefers => exact List.mem_cons_of_mem _ (mem_texts_of_refersTo hrefers)

theorem dollar_not_mem_resolveColor {allowGradient : Bool}
    (lone : ∀ t ∈ text :: Value.texts globals, Piece.literal '$' ∉ pieces t.toList)
    (h : globals.resolveColor allowGradient (.plain (.text text)) = .ok out) :
    '$' ∉ out.toList := by
  intro hdollar
  obtain ⟨parts, hparts, he⟩ := exists_parts_of_substitute h
  rw [he] at hdollar
  obtain ⟨part, hm, hpart⟩ := List.mem_flatten.1 hdollar
  rcases exists_source_of_part hparts hm with
    ⟨c, hc, rfl⟩ | rfl | ⟨path, hp, value, rendered, hvalue, hrendered, rfl⟩
  · rw [List.mem_singleton] at hpart
    subst hpart
    exact lone text List.mem_cons_self hc
  · cases hpart
  · obtain ⟨found, hrefers, last, hlast, hbegins⟩ :=
      exists_begins_of_colorHook (fun _ => exists_text_of_dollar) hp hvalue hrendered hpart
    have hlast := mem_texts_of_reflTransGen (mem_texts_of_colorRefersTo hrefers) hlast
    exact lone last (List.mem_cons_of_mem _ hlast) hbegins.literal_dollar

/-- The resolved text has a reference exactly if dollars meet in the text or in one that it leads
to. If it has none, it stays as it is when it is resolved again. Where no text has a dollar that is
not part of a reference, there is none. -/
theorem resolved_references_exact (globals : Globals) :
    (∀ text out, globals.resolve text = .ok out →
      (hasReference out.toList = true ↔ globals.MakesReference text)) ∧
    (∀ allowGradient text out,
      globals.resolveColor allowGradient (.plain (.text text)) = .ok out →
      (hasReference out.toList = true ↔ globals.ColorMakesReference allowGradient text)) ∧
    (∀ out : String, hasReference out.toList = false → globals.resolve out = .ok out ∧
      ∀ allowGradient, globals.resolveColor allowGradient (.plain (.text out)) = .ok out) ∧
    ∀ text, (∀ t ∈ text :: Value.texts globals, Piece.literal '$' ∉ pieces t.toList) →
      (∀ out, globals.resolve text = .ok out → hasReference out.toList = false) ∧
      ∀ allowGradient out, globals.resolveColor allowGradient (.plain (.text text)) = .ok out →
        hasReference out.toList = false := by
  have hunmarked {out : String} (h : '$' ∉ out.toList) : hasReference out.toList = false := by
    rw [← Bool.not_eq_true, hasReference_iff]
    exact fun hmark => h (hmark.subset List.mem_cons_self)
  refine ⟨fun _ _ => hasReference_resolve_iff, fun _ _ _ => hasReference_resolveColor_iff,
    fun out hnone => ?_, fun text lone => ⟨fun out h => ?_, fun allowGradient out h => ?_⟩⟩
  · rw [← Bool.not_eq_true, hasReference_iff] at hnone
    exact ⟨substitute_unmarked hnone, fun _ => substitute_unmarked hnone⟩
  · exact hunmarked (dollar_not_mem_resolve lone h)
  · exact hunmarked (dollar_not_mem_resolveColor lone h)

def sale : Globals := .object [
  ("sign", .text "$"), ("price", .text "$$sign|$5"), ("tag", .text "$$price|!"),
  ("label", .object [("definition", .text "$$tag"), ("fallbackColor", .text "$$sign")])]

/-- The sign meets the dollar behind it in the price, to which the tag and the label lead. -/
theorem sign_meets_dollar_in_price :
    sale.resolve "$$tag" = .ok "$$5!" ∧ sale.MakesReference "$$tag" ∧
      sale.resolveColor true (.plain (.text "$$label")) = .ok "$$5!" ∧
      sale.ColorMakesReference true "$$label" ∧
      sale.resolveColor false (.plain (.text "$$label")) = .ok "$" ∧
      ¬ sale.ColorMakesReference false "$$label" ∧
      sale.resolve "$" = .ok "$" ∧
      (∀ t ∈ "$$accent" :: Value.texts shades, Piece.literal '$' ∉ pieces t.toList) ∧
      shades.resolve "$$accent" = .ok "#cc6655aa" ∧
      hasReference "#cc6655aa".toList = false := by
  have htag : sale.resolve "$$tag" = .ok "$$5!" := eq_ok_of_toOption (by decide +kernel)
  have hlabel : sale.resolveColor true (.plain (.text "$$label")) = .ok "$$5!" :=
    eq_ok_of_toOption (by decide +kernel)
  have hplain : sale.resolveColor false (.plain (.text "$$label")) = .ok "$" :=
    eq_ok_of_toOption (by decide +kernel)
  have hshade : shades.resolve "$$accent" = .ok "#cc6655aa" := eq_ok_of_toOption (by decide +kernel)
  have hlone : ∀ t ∈ "$$accent" :: Value.texts shades, Piece.literal '$' ∉ pieces t.toList := by
    decide +kernel
  obtain ⟨htext, hcolor, hkept, -⟩ := resolved_references_exact sale
  obtain ⟨-, -, -, hclean⟩ := resolved_references_exact shades
  refine ⟨htag, (htext _ _ htag).1 (by decide +kernel), hlabel,
    (hcolor _ _ _ hlabel).1 (by decide +kernel), hplain, fun hmakes => ?_,
    (hkept "$" (by decide +kernel)).1, hlone, hshade, (hclean _ hlone).1 _ hshade⟩
  have hreference := (hcolor _ _ _ hplain).2 hmakes
  exact absurd hreference (by decide +kernel)

/-- A text that has been resolved may have a reference and resolve to something else. -/
theorem price_has_reference :
    (¬ ∀ (globals : Globals) text out, globals.resolve text = .ok out →
      hasReference out.toList = false) ∧
    (¬ ∀ (globals : Globals) text out, globals.resolve text = .ok out →
      globals.resolve out = .ok out) ∧
    ¬ ∀ (globals : Globals) allowGradient text out,
      globals.resolveColor allowGradient (.plain (.text text)) = .ok out →
      hasReference out.toList = false := by
  have hprice : sale.resolve "$$sign|$5" = .ok "$$5" := eq_ok_of_toOption (by decide +kernel)
  have hagain : sale.resolve "$$5" = .ok "" := eq_ok_of_toOption (by decide +kernel)
  have hcolor : sale.resolveColor false (.plain (.text "$$sign|$5")) = .ok "$$5" :=
    eq_ok_of_toOption (by decide +kernel)
  have hreference : hasReference "$$5".toList ≠ false := by decide +kernel
  refine ⟨fun h => hreference (h _ _ _ hprice), fun h => ?_,
    fun h => hreference (h _ _ _ _ hcolor)⟩
  have hsame := Except.ok.inj (hagain.symm.trans (h _ _ _ hprice))
  exact absurd hsame (by decide)

end Globals

end Theming
