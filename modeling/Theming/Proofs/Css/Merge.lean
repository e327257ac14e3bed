import Theming.Css.Style

/-! Where styles stand in nested blocks. A merged map holds at each path of keys what the later
map declares there, and otherwise what the earlier one does. -/

namespace Theming

namespace Style

/-- The style at the end of a path of keys through nested blocks. -/
def at? : Style → List String → Option Style
  | style, [] => some style
  | .block styles, key :: path => (Table.find? styles key).bind (·.at? path)
  | .declaration _, _ :: _ => none

def isBlock : Style → Bool
  | .block _ => true
  | .declaration _ => false

def text? : Style → Option String
  | .declaration text => some text
  | .block _ => none

def textAt? (style : Style) (path : List String) : Option String := (style.at? path).bind text?

def Proper (style : Style) : Prop :=
  ∀ path styles, style.at? path = some (.block styles) → Table.Distinct styles

/-- No path leads to a declaration in one of two styles and to a block in the other. -/
def Compatible (a b : Style) : Prop :=
  ∀ path x y, a.at? path = some x → b.at? path = some y → x.isBlock = y.isBlock

theorem at?_block_cons {styles : Styles} {key : String} {path : List String} {style : Style}
    (h : Table.find? styles key = some style) :
    (block styles).at? (key :: path) = style.at? path := by
  simp [at?, h]

theorem Proper.distinct {styles : Styles} (h : (block styles).Proper) : styles.Distinct :=
  h [] styles (by simp [at?])

theorem Proper.inner {styles : Styles} {key : String} {style : Style} (h : (block styles).Proper)
    (hk : Table.find? styles key = some style) : style.Proper :=
  fun path inner hp => h (key :: path) inner ((at?_block_cons hk).trans hp)

theorem Compatible.inner {a b : Styles} {key : String} {x y : Style}
    (h : (block a).Compatible (block b)) (hx : Table.find? a key = some x)
    (hy : Table.find? b key = some y) : x.Compatible y :=
  fun path s t hs ht =>
    h (key :: path) s t ((at?_block_cons hx).trans hs) ((at?_block_cons hy).trans ht)

end Style

namespace Styles

def textAt? (styles : Styles) (path : List String) : Option String :=
  (Style.block styles).textAt? path

theorem textAt?_cons (styles : Styles) (key : String) (path : List String) :
    textAt? styles (key :: path) = (Table.find? styles key).bind (·.textAt? path) := by
  cases h : Table.find? styles key <;> simp [textAt?, Style.textAt?, Style.at?, h]

theorem find?_merge (base : Styles) {later : Styles} (h : later.Distinct) (key : String) :
    Table.find? (merge base later) key = (Table.find? later key).elim (Table.find? base key)
      fun style => some ((Table.find? base key).elim style (·.overlay style)) := by
  induction later generalizing base with
  | nil => simp [merge, Table.find?]
  | cons e rest ih =>
    obtain ⟨k, style⟩ := e
    have hd : k ∉ Table.keys rest ∧ Table.Distinct rest := List.nodup_cons.1 h
    rw [merge, ih _ hd.2]
    by_cases hk : k = key
    · subst hk
      rw [Table.find?_eq_none_iff.2 hd.1]
      cases Table.find? base k <;> simp [Table.find?, Table.find?_put_self]
    · simp [Table.find?, hk, Table.find?_put_ne _ _ (Ne.symm hk)]

end Styles

theorem Style.textAt?_overlay {base later : Style} (hc : base.Compatible later)
    (hp : later.Proper) (path : List String) :
    (base.overlay later).textAt? path = (later.textAt? path).or (base.textAt? path) := by
  induction path generalizing base later with
  | nil =>
    have h := hc [] base later (by simp [at?]) (by simp [at?])
    cases base <;> cases later <;> simp_all [overlay, textAt?, at?, text?, isBlock]
  | cons key path ih =>
    have h := hc [] base later (by simp [at?]) (by simp [at?])
    cases base with
    | declaration text =>
      cases later with
      | declaration other => simp [overlay, textAt?, at?]
      | block later => cases h
    | block base =>
      cases later with
      | declaration text => cases h
      | block later =>
        change Styles.textAt? (Styles.merge base later) _ =
          (Styles.textAt? later _).or (Styles.textAt? base _)
        simp only [Styles.textAt?_cons, Styles.find?_merge base hp.distinct]
        cases hl : Table.find? later key with
        | none => simp
        | some style =>
          cases hb : Table.find? base key with
          | none => simp
          | some old => simpa using ih (hc.inner hb hl) (hp.inner hl)

theorem Styles.textAt?_merge {base later : Styles}
    (hc : (Style.block base).Compatible (.block later)) (hp : (Style.block later).Proper)
    (path : List String) :
    textAt? (merge base later) path = (textAt? later path).or (textAt? base path) :=
  Style.textAt?_overlay hc hp path

end Theming
