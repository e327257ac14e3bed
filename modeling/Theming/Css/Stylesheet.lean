import Theming.Css.Rules
import Theming.Text.CodeUnit

/-! Style engines turn style maps into class names. The stylesheet derives the name from the
text of the map and collects the rules of each class. -/

namespace Theming

/-- An engine with states `σ`: it gives a class name to a sequence of maps, of which the later
ones replace entries of the earlier ones. -/
class StyleEngine (σ : Type) where
  emitClass : σ → List Styles → String × σ

/-- A multiplicative hash of the code units of a text, in 32 bits. -/
def classHash (text : String) : UInt32 :=
  (text.toList.flatMap codeUnits).foldl (fun hash unit => hash * 101 + unit) 11

def defaultClassPrefix : String := "go"

/-- The rules of each class that has been asked for, and the text collected so far. -/
structure Stylesheet where
  classPrefix : String
  rules : Table String
  css : String

namespace Stylesheet

def empty (classPrefix : String) : Stylesheet := ⟨classPrefix, [], ""⟩

def className (sheet : Stylesheet) (styles : Styles) : String :=
  sheet.classPrefix ++ toString (classHash (Styles.flatten styles)).toNat

/-- The first map of a class decides on its rules. They are collected unless the text holds them
already. -/
def emitClass (sheet : Stylesheet) (maps : List Styles) : String × Stylesheet :=
  let styles : Styles := maps.foldl Table.putAll []
  let name := sheet.className styles
  let rule := (sheet.rules.find? name).getD (styles.ruleText ("." ++ name))
  let css := if Text.contains sheet.css rule then sheet.css else sheet.css ++ rule
  (name, { sheet with rules := sheet.rules.put name rule, css := css })

/-- Takes the collected text out. Classes that are asked for again are collected again. -/
def extractCss (sheet : Stylesheet) : String × Stylesheet :=
  (sheet.css, { sheet with css := "" })

instance : StyleEngine Stylesheet := ⟨emitClass⟩

end Stylesheet

end Theming
