import Theming.Css.Style
import Theming.Text.Search

/-! The states that a box or a style set reacts to, and the order of the cascade. -/

namespace Theming

/-- A pseudo-class together with the accessibility attributes that mean the same. -/
inductive State where
  | hover
  | active
  | focus
  | focusVisible
  | checked
  | pressed
  | current
  | invalid
  | disabled
  deriving DecidableEq, Repr

namespace State

def setOrder : List State :=
  [.hover, .active, .focus, .focusVisible, .checked, .pressed, .current, .invalid, .disabled]

/-- The order in which the state blocks of a box are put in front of its rules. -/
def boxOrder : List State :=
  [.hover, .active, .focus, .focusVisible, .checked, .disabled, .invalid, .pressed, .current]

def key : State → String
  | hover => "__hover"
  | active => "__active"
  | focus => "__focus"
  | focusVisible => "__focusVisible"
  | checked => "__checked"
  | pressed => "__pressed"
  | current => "__current"
  | invalid => "__invalid"
  | disabled => "__disabled"

def ofKey? (key : String) : Option State := setOrder.find? fun s => s.key == key

def selector : State → String
  | hover => "&:hover"
  | active => "&:active"
  | focus => "&:focus,&:focus-within"
  | focusVisible => "&:focus-visible"
  | checked => "&:checked,&[aria-checked=true],&[aria-checked=mixed]"
  | pressed => "&[aria-pressed=true],&[aria-pressed=mixed]"
  | current => "&[aria-current=true],&[aria-current=page],&[aria-current=step]," ++
      "&[aria-current=location],&[aria-current=date],&[aria-current=time]"
  | invalid => "&:invalid,&[aria-invalid=true],&[aria-invalid=grammar],&[aria-invalid=spelling]"
  | disabled => "&:disabled,&[aria-disabled=true]"

theorem mem_setOrder (s : State) : s ∈ setOrder := by cases s <;> decide

theorem mem_boxOrder (s : State) : s ∈ boxOrder := by cases s <;> decide

end State

/-- One entry for each state that is declared. -/
abbrev States (α : Type) := State → Option α

def States.put {α : Type} (states : States α) (state : State) (entry : Option α) : States α :=
  fun s => if s = state then entry else states s

def selectionSelector : String := "&::selection"

/-- Words that rank a key in the cascade, the weakest first. -/
def rankWords : List String :=
  ["checked", "invalid", "pressed", "current", "focus", "focus-visible", "hover", "active",
    "disabled"]

/-- The place of the first rank word inside a key. Declarations and pseudo-elements have none. -/
def specificity (key : String) : Option Nat :=
  rankWords.findIdx? fun word => Text.contains key word

def ranks : List (Option Nat) := none :: (List.range rankWords.length).map some

/-- Brings the top-level entries into cascade order. Entries of one rank keep their order. -/
def Styles.sorted (styles : Styles) : Styles :=
  ranks.flatMap fun rank => styles.filter fun entry => specificity entry.1 == rank

end Theming
