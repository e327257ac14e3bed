import Theming.Text.Quoted
import Theming.Value

/-! Why a value does not have the shape that its place in a configuration asks for. -/

namespace Theming

inductive Misfit where
  /-- The value is of another type. -/
  | wrongType (found : Value) (expected : String)
  /-- An entry is missing that has no default. -/
  | missingField (name : String)
  /-- The value fits none of the types that are allowed together under a name. -/
  | noAlternative (name : String)
  /-- A list stands for a record, but ends before an item that has no default. -/
  | tooShort (length : Nat) (record : String) (fields : Nat)
  /-- A list stands for a record, but has more items than fields. -/
  | tooLong (length : Nat)
  /-- The same for a record inside a style set. -/
  | tooLongPart (length fields : Nat)
  deriving Repr

namespace Misfit

/-- The type of a value and, if it is short, the value itself. -/
def describe : Value → String
  | .null => "null"
  | .flag b => "boolean `" ++ Value.flagText b ++ "`"
  | .number (.integer n) => "integer `" ++ toString n ++ "`"
  | .number (.real x) => "floating point `" ++ Number.text (.real x) ++ "`"
  | .text s => "string " ++ Text.quoted s
  | .list _ => "sequence"
  | .object _ => "map"

def counted (n : Nat) (noun : String) : String :=
  toString n ++ " " ++ noun ++ if n = 1 then "" else "s"

def message : Misfit → String
  | wrongType found expected => "invalid type: " ++ describe found ++ ", expected " ++ expected
  | missingField name => "missing field `" ++ name ++ "`"
  | noAlternative name => "data did not match any variant of untagged enum " ++ name
  | tooShort length record fields =>
    "invalid length " ++ toString length ++ ", expected struct " ++ record ++ " with " ++
      counted fields "element"
  | tooLong length => "invalid length " ++ toString length ++ ", expected fewer elements in array"
  | tooLongPart length fields =>
    "invalid length " ++ toString length ++ ", expected " ++ counted fields "element" ++
      " in sequence"

end Misfit

/-- A value read as something else, or why it cannot be. -/
abbrev Reader (α : Type) := Value → Except Misfit α

namespace Reader

/-- Null is read as nothing. -/
def optional {α : Type} (read : Reader α) : Reader (Option α)
  | .null => .ok none
  | value => (read value).map some

def orDefault {α : Type} (read : Reader α) (default : α) : Reader α := fun value =>
  (read.optional value).map (·.getD default)

def text : Reader String
  | .text s => .ok s
  | value => .error (.wrongType value "a string")

def table {α : Type} (read : Reader α) : Reader (Table α)
  | .object entries => entries.mapM fun (key, value) => (read value).map (key, ·)
  | value => .error (.wrongType value "a map")

/-- Hides what is wrong inside a value that may be of several types. -/
def oneOf {α : Type} (name : String) (read : Reader α) : Reader α := fun value =>
  (read value).mapError fun _ => .noAlternative name

end Reader

end Theming
