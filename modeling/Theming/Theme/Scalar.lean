import Theming.Record

/-! The values of style properties. -/

namespace Theming

inductive Scalar where
  | text (s : String)
  | number (n : Number)
  | flag (b : Bool)
  deriving DecidableEq, Repr

namespace Scalar

/-- Empty texts and false flags count as if they were absent, but zero does not. -/
def isSet : Scalar → Bool
  | text s => !s.isEmpty
  | number _ => true
  | flag b => b

def toText : Scalar → String
  | text s => s
  | number n => n.text
  | flag b => Value.flagText b

def read : Reader Scalar
  | .text s => .ok (text s)
  | .number n => .ok (number n)
  | .flag b => .ok (flag b)
  | _ => .error (.noAlternative "ThemeValue")

end Scalar

/-- A gradient, and a plain color for places where gradients are not allowed. -/
structure Gradient where
  definition : Option Scalar
  fallbackColor : Option Scalar
  deriving DecidableEq, Repr

def Gradient.record : Record Gradient where
  name := "GradientDefinition"
  fields := [
    .optional "definition" Scalar.read fun g x => { g with definition := x },
    .optional "fallbackColor" Scalar.read fun g x => { g with fallbackColor := x }]
  blank := ⟨none, none⟩
  isPart := true

inductive Color where
  | gradient (g : Gradient)
  | plain (value : Scalar)
  deriving DecidableEq, Repr

namespace Color

def isSet : Color → Bool
  | gradient _ => true
  | plain value => value.isSet

def read : Reader Color := Reader.oneOf "ColorValue" fun value =>
  match value with
  | .object _ | .list _ => (Gradient.record.read value).map gradient
  | _ => (Scalar.read value).map plain

end Color

/-- A backdrop filter, and a background for engines that do not have such filters. -/
structure Filter where
  definition : Option Scalar
  fallbackBackground : Option Color
  deriving DecidableEq, Repr

def Filter.record : Record Filter where
  name := "BackdropFilterDefinition"
  fields := [
    .optional "definition" Scalar.read fun f x => { f with definition := x },
    .optional "fallbackBackground" Color.read fun f x => { f with fallbackBackground := x }]
  blank := ⟨none, none⟩
  isPart := true

/-- The value of a backdrop filter property. A text may be a reference to a filter. -/
inductive Backdrop where
  | filter (f : Filter)
  | plain (value : Scalar)
  deriving DecidableEq, Repr

namespace Backdrop

def read : Reader Backdrop := Reader.oneOf "BackdropFilter" fun value =>
  match value with
  | .object _ | .list _ => (Filter.record.read value).map filter
  | _ => (Scalar.read value).map plain

end Backdrop

end Theming
