import Theming.Table

/-! Ordered maps of styles. The order of the entries is part of a style: it decides which of
two declarations wins and which class name a map gets. -/

namespace Theming

/-- What stands under a property, a nested selector or an at-rule. -/
inductive Style where
  | declaration (text : String)
  | block (styles : List (String × Style))
  deriving Repr, Inhabited

abbrev Styles := Table Style

mutual

/-- An earlier style with a later one of the same key: two blocks merge, otherwise the later
style counts. -/
def Style.overlay (base : Style) : Style → Style
  | .block later =>
    match base with
    | .block styles => .block (Styles.merge styles later)
    | .declaration _ => .block later
  | .declaration text => .declaration text
termination_by structural later => later

/-- Merges the entries of the second map into the first, in which keys keep their places. -/
def Styles.merge (base : Styles) : List (String × Style) → Styles
  | [] => base
  | (key, style) :: rest =>
    let merged := match Table.find? base key with
      | some old => Style.overlay old style
      | none => style
    Styles.merge (Table.put base key merged) rest
termination_by structural later => later

end

namespace Styles

def mergeAll (maps : List Styles) : Styles := maps.foldl merge []

end Styles

end Theming
