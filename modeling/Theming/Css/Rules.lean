import Theming.Css.Style
import Theming.Css.Selector
import Theming.Text.LowerCase

/-! The text of style maps: as rules under a selector, and as the plain text that a class name
is derived from. -/

namespace Theming

/-- The name of a property as it stands in a rule: capitals become small letters with a hyphen
in front of those of ASCII. Custom properties are kept as they are. -/
def propertyName (key : String) : String :=
  match key.toList with
  | '-' :: '-' :: _ => key
  | chars => String.ofList (chars.flatMap fun c =>
      if c.isUpper then '-' :: lowerCase c else lowerCase c)

inductive BlockKind where
  /-- Rules whose selector is the key itself. -/
  | fontFace
  /-- Frames, whose selectors stand alone. -/
  | keyframes
  /-- A condition around rules of the same selector. -/
  | conditional
  /-- Rules of a selector below the present one. -/
  | nested
  deriving DecidableEq, Repr

def BlockKind.ofKey (key : String) : BlockKind :=
  match key.toList with
  | '@' :: 'f' :: _ => .fontFace
  | '@' :: 'k' :: _ => .keyframes
  | '@' :: _ => .conditional
  | _ => .nested

def isAtRule (key : String) : Bool := key.toList.head? == some '@'

/-- The rules of a map: statements such as imports, the declarations of the selector itself,
and the rules of nested blocks. -/
structure Rules where
  statements : String
  declarations : String
  blocks : String

namespace Rules

def empty : Rules := ⟨"", "", ""⟩

def append (a b : Rules) : Rules :=
  ⟨a.statements ++ b.statements, a.declarations ++ b.declarations, a.blocks ++ b.blocks⟩

def braced (head body : String) : String := head ++ "\x7b" ++ body ++ "\x7d"

/-- Statements come first, then one rule for all declarations, then the blocks. -/
def text (selector : String) (rules : Rules) : String :=
  let own := if selector.isEmpty || rules.declarations.isEmpty then rules.declarations
    else braced selector rules.declarations
  rules.statements ++ own ++ rules.blocks

end Rules

mutual

def Style.rules (selector key : String) : Style → Rules
  | .declaration text =>
    if isAtRule key then { Rules.empty with statements := key ++ " " ++ text ++ ";" }
    else { Rules.empty with declarations := propertyName key ++ ":" ++ text ++ ";" }
  | .block styles =>
    let inner (selector : String) := (Styles.rules selector styles).text selector
    let text := match BlockKind.ofKey key with
      | .fontFace => inner key
      | .keyframes => Rules.braced key (inner "")
      | .conditional => Rules.braced key (inner selector)
      | .nested => inner (Selector.nest selector key)
    { Rules.empty with blocks := text }
termination_by structural style => style

def Styles.rules (selector : String) : List (String × Style) → Rules
  | [] => .empty
  | (key, style) :: rest => (Style.rules selector key style).append (Styles.rules selector rest)
termination_by structural styles => styles

end

def Styles.ruleText (styles : Styles) (selector : String) : String :=
  (Styles.rules selector styles).text selector

mutual

def Style.flatten : Style → String
  | .declaration text => text
  | .block styles => Styles.flatten styles
termination_by structural style => style

/-- Every key followed by its value, nested blocks included. -/
def Styles.flatten : List (String × Style) → String
  | [] => ""
  | (key, style) :: rest => key ++ Style.flatten style ++ Styles.flatten rest
termination_by structural styles => styles

end

end Theming
