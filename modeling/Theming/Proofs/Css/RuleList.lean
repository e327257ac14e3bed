import Mathlib.Data.List.Nodup
import Theming.Css.Rules
import Theming.Proofs.Css.Merge
import Theming.Proofs.Css.Selectors

/-! The rules that a style map stands for, as a list: one for each block with declarations of its
own. Each declaration of the map belongs to exactly one of them. -/

namespace Theming

mutual

/-- The blocks of a style with the keys that lead to them, each in front of those inside it. -/
def Style.blocks (path : List String) : Style → List (List String × Styles)
  | .declaration _ => []
  | .block styles => (path, styles) :: Styles.innerBlocks path styles
termination_by structural style => style

def Styles.innerBlocks (path : List String) :
    List (String × Style) → List (List String × Styles)
  | [] => []
  | (key, style) :: rest => Style.blocks (path ++ [key]) style ++ Styles.innerBlocks path rest
termination_by structural styles => styles

end

def Styles.texts (styles : Styles) : List (String × String) :=
  styles.filterMap fun (key, style) => style.text?.map (key, ·)

structure Rule where
  path : List String
  entries : List (String × String)
  deriving DecidableEq

namespace Rule

/-- The at-rules around a place, the outermost first. -/
def conditionsAt (path : List String) : List String := path.filter isAtRule

/-- The selectors of a place: each key on the way to it stands for its alternatives below the
selectors before it. -/
def selectorsAt (root : String) (path : List String) : List String :=
  (path.filter fun key => !isAtRule key).foldl Selector.below [root]

def statements (rule : Rule) : List (String × String) := rule.entries.filter fun e => isAtRule e.1

def declarations (rule : Rule) : List (String × String) :=
  rule.entries.filter fun e => !isAtRule e.1

def statementText (e : String × String) : String := e.1 ++ " " ++ e.2 ++ ";"

def declarationText (e : String × String) : String := propertyName e.1 ++ ":" ++ e.2 ++ ";"

def text (root : String) (rule : Rule) : String :=
  let own := if rule.declarations.isEmpty then "" else
    Rules.braced (",".intercalate (selectorsAt root rule.path))
      (String.join (rule.declarations.map declarationText))
  (conditionsAt rule.path).foldr Rules.braced
    (String.join (rule.statements.map statementText) ++ own)

/-- The declarations of the block with the keys that lead to them. -/
def declared (rule : Rule) : List (List String × String) :=
  rule.entries.map fun e => (rule.path ++ [e.1], e.2)

end Rule

/-- The rules of blocks. There is none for a block that declares nothing itself. -/
def rulesOfBlocks (blocks : List (List String × Styles)) : List Rule :=
  (blocks.map fun (path, styles) => Rule.mk path styles.texts).filter fun rule =>
    !rule.entries.isEmpty

/-- The rules of a map in the order in which they are written. -/
def Styles.ruleList (styles : Styles) : List Rule := rulesOfBlocks (Style.blocks [] (.block styles))

namespace Style

theorem at?_append (style : Style) (path rest : List String) :
    style.at? (path ++ rest) = (style.at? path).bind (·.at? rest) := by
  induction path generalizing style with
  | nil => simp [at?]
  | cons key path ih =>
    cases style with
    | declaration text => rfl
    | block styles =>
      rw [List.cons_append, at?, at?]
      cases Table.find? styles key with
      | none => rfl
      | some inner => exact ih inner

end Style

mutual

theorem Style.mem_blocks {path pre : List String} {inner : Styles} : {style : Style} →
    style.Proper → ((path, inner) ∈ Style.blocks pre style ↔
      ∃ rest, path = pre ++ rest ∧ style.at? rest = some (.block inner))
  | .declaration text, _ => by
    simp only [Style.blocks, List.not_mem_nil, false_iff]
    rintro ⟨rest, _, h⟩
    cases rest <;> cases h
  | .block styles, hp => by
    have hin : ∀ e ∈ styles, e.2.Proper :=
      fun e he => hp.inner (hp.distinct.find?_of_mem he)
    rw [Style.blocks, List.mem_cons, Styles.mem_innerBlocks hin hp.distinct]
    constructor
    · rintro (h | ⟨key, rest, style, hk, rfl, hs⟩)
      · cases h
        exact ⟨[], by simp, rfl⟩
      · exact ⟨key :: rest, rfl, (Style.at?_block_cons hk).trans hs⟩
    · rintro ⟨rest, rfl, hs⟩
      cases rest with
      | nil =>
        cases hs
        exact .inl (by simp)
      | cons key rest =>
        obtain ⟨style, hk, hs⟩ := Option.bind_eq_some_iff.1 hs
        exact .inr ⟨key, rest, style, hk, rfl, hs⟩
termination_by structural style => style

theorem Styles.mem_innerBlocks {path pre : List String} {inner : Styles} :
    {styles : List (String × Style)} → (∀ e ∈ styles, e.2.Proper) → Table.Distinct styles →
    ((path, inner) ∈ Styles.innerBlocks pre styles ↔ ∃ key rest style,
      Table.find? styles key = some style ∧ path = pre ++ key :: rest ∧
        style.at? rest = some (.block inner))
  | [], _, _ => by simp [Styles.innerBlocks, Table.find?]
  | (key, style) :: rest, hin, hd => by
    have hd' : key ∉ Table.keys rest ∧ Table.Distinct rest := List.nodup_cons.1 hd
    rw [Styles.innerBlocks, List.mem_append, Style.mem_blocks (hin _ List.mem_cons_self),
      Styles.mem_innerBlocks (fun e he => hin e (List.mem_cons_of_mem _ he)) hd'.2]
    constructor
    · rintro (⟨tail, rfl, hs⟩ | ⟨k, tail, found, hk, rfl, hs⟩)
      · exact ⟨key, tail, style, by simp [Table.find?], by simp, hs⟩
      · have hne : key ≠ k := by
          rintro rfl
          exact hd'.1 (Table.mem_keys_of_find? hk)
        exact ⟨k, tail, found, by simpa [Table.find?, hne] using hk, rfl, hs⟩
    · rintro ⟨k, tail, found, hk, rfl, hs⟩
      rw [Table.find?] at hk
      split at hk
      · next he =>
        cases hk
        cases he
        exact .inl ⟨tail, by simp, hs⟩
      · exact .inr ⟨k, tail, found, hk, rfl, hs⟩
termination_by structural styles => styles

end

mutual

theorem Style.nodup_blocks {pre : List String} : {style : Style} → style.Proper →
    ((Style.blocks pre style).map (·.1)).Nodup
  | .declaration _, _ => List.nodup_nil
  | .block styles, hp => by
    have hin : ∀ e ∈ styles, e.2.Proper :=
      fun e he => hp.inner (hp.distinct.find?_of_mem he)
    rw [Style.blocks, List.map_cons, List.nodup_cons]
    refine ⟨fun hm => ?_, Styles.nodup_innerBlocks hin hp.distinct⟩
    obtain ⟨⟨path, inner⟩, hb, he⟩ := List.mem_map.1 hm
    obtain ⟨key, rest, _, _, hpath, _⟩ := (Styles.mem_innerBlocks hin hp.distinct).1 hb
    have hlen := congrArg List.length (hpath.symm.trans he)
    simp at hlen
termination_by structural style => style

theorem Styles.nodup_innerBlocks {pre : List String} : {styles : List (String × Style)} →
    (∀ e ∈ styles, e.2.Proper) → Table.Distinct styles →
    ((Styles.innerBlocks pre styles).map (·.1)).Nodup
  | [], _, _ => List.nodup_nil
  | (key, style) :: rest, hin, hd => by
    have hd' : key ∉ Table.keys rest ∧ Table.Distinct rest := List.nodup_cons.1 hd
    have hfirst : style.Proper := hin _ List.mem_cons_self
    have hrest : ∀ e ∈ rest, e.2.Proper := fun e he => hin e (List.mem_cons_of_mem _ he)
    rw [Styles.innerBlocks, List.map_append, List.nodup_append]
    refine ⟨Style.nodup_blocks hfirst, Styles.nodup_innerBlocks hrest hd'.2, ?_⟩
    rintro path hm path' hm' rfl
    obtain ⟨⟨path, inner⟩, hb, rfl⟩ := List.mem_map.1 hm
    obtain ⟨⟨path', inner'⟩, hb', he⟩ := List.mem_map.1 hm'
    obtain ⟨tail, hpath, _⟩ := (Style.mem_blocks hfirst).1 hb
    obtain ⟨k, tail', _, hk, hpath', _⟩ := (Styles.mem_innerBlocks hrest hd'.2).1 hb'
    dsimp only at he
    rw [hpath, hpath', List.append_assoc] at he
    have hkey : k = key := (List.cons.inj (List.append_cancel_left he)).1
    exact hd'.1 (hkey ▸ Table.mem_keys_of_find? hk)
termination_by structural styles => styles

end

namespace Styles

theorem mem_texts {styles : Styles} {key text : String} :
    (key, text) ∈ styles.texts ↔ (key, Style.declaration text) ∈ styles := by
  simp only [texts, List.mem_filterMap]
  constructor
  · rintro ⟨⟨k, style⟩, he, h⟩
    cases style with
    | declaration other =>
      cases h
      exact he
    | block inner => cases h
  · exact fun he => ⟨_, he, rfl⟩

theorem textAt?_append_singleton_eq_some {styles : Styles} {path : List String}
    {key text : String} : styles.textAt? (path ++ [key]) = some text ↔ ∃ inner,
      (Style.block styles).at? path = some (.block inner) ∧
        Table.find? inner key = some (.declaration text) := by
  rw [textAt?, Style.textAt?, Style.at?_append]
  constructor
  · intro h
    obtain ⟨style, hs, ht⟩ := Option.bind_eq_some_iff.1 h
    obtain ⟨parent, hp, hs⟩ := Option.bind_eq_some_iff.1 hs
    cases parent with
    | declaration other => cases hs
    | block inner =>
      obtain ⟨found, hf, hs⟩ := Option.bind_eq_some_iff.1 hs
      cases hs
      cases style with
      | declaration other =>
        cases ht
        exact ⟨inner, hp, hf⟩
      | block deeper => cases ht
  · rintro ⟨inner, hp, hf⟩
    simp [hp, Style.at?, hf, Style.text?]

/-- A rule is that of the block at its path. -/
theorem mem_ruleList {styles : Styles} (hp : (Style.block styles).Proper) {rule : Rule} :
    rule ∈ styles.ruleList ↔ rule.entries ≠ [] ∧ ∃ inner,
      (Style.block styles).at? rule.path = some (.block inner) ∧ rule.entries = texts inner := by
  simp only [ruleList, rulesOfBlocks, List.mem_filter, List.mem_map]
  constructor
  · rintro ⟨⟨⟨path, inner⟩, hb, rfl⟩, hne⟩
    obtain ⟨rest, rfl, hs⟩ := (Style.mem_blocks hp).1 hb
    exact ⟨by simpa using hne, inner, hs, rfl⟩
  · rintro ⟨hne, inner, hs, he⟩
    obtain ⟨path, entries⟩ := rule
    cases he
    exact ⟨⟨(path, inner), (Style.mem_blocks hp).2 ⟨path, rfl, hs⟩, rfl⟩, by simpa using hne⟩

theorem mem_declared_iff {styles : Styles} (hp : (Style.block styles).Proper)
    {path : List String} {text : String} :
    (path, text) ∈ styles.ruleList.flatMap Rule.declared ↔ styles.textAt? path = some text := by
  simp only [List.mem_flatMap, Rule.declared, List.mem_map]
  constructor
  · rintro ⟨rule, hr, ⟨key, text⟩, he, h⟩
    cases h
    obtain ⟨_, inner, hs, hi⟩ := (mem_ruleList hp).1 hr
    rw [hi, mem_texts] at he
    exact textAt?_append_singleton_eq_some.2 ⟨inner, hs, (hp _ _ hs).find?_of_mem he⟩
  · intro h
    rcases List.eq_nil_or_concat' path with rfl | ⟨path, key, rfl⟩
    · cases h
    · obtain ⟨inner, hs, hf⟩ := textAt?_append_singleton_eq_some.1 h
      have he : (key, text) ∈ texts inner := mem_texts.2 (Table.mem_of_find? hf)
      refine ⟨⟨path, texts inner⟩, (mem_ruleList hp).2 ⟨?_, inner, hs, rfl⟩, (key, text), he, rfl⟩
      exact List.ne_nil_of_mem he

end Styles

end Theming
