import Theming.Json.Fault
import Theming.Misfit

/-! What can go wrong when a theme is loaded. -/

namespace Theming

inductive CycleKind where
  | variables
  | styleSets
  | boxes
  | components
  | bases
  deriving DecidableEq, Repr

def CycleKind.label : CycleKind → String
  | .variables => "variable"
  | .styleSets => "style set"
  | .boxes => "box"
  | .components => "component"
  | .bases => "basedOn"

inductive MisfitPlace where
  | whole
  /-- A backdrop filter that a reference leads to. -/
  | backdropFilter (reference : String)
  /-- A part of a variant, merged with the same part of the default variant. -/
  | mergedPart (name : String)
  deriving DecidableEq, Repr

def MisfitPlace.label : MisfitPlace → String
  | whole => ""
  | backdropFilter reference => "backdrop filter " ++ reference ++ ": "
  | mergedPart name => "part " ++ name ++ ": "

inductive BadSyntax where
  | json (fault : Json.Fault)
  | yaml
  deriving DecidableEq, Repr

/-- The description of bad syntax. For YAML there is none. -/
def BadSyntax.message? : BadSyntax → Option String
  | json fault => some fault.message
  | yaml => none

inductive ThemeError where
  /-- There is no configuration at all. -/
  | noConfig
  /-- A configuration lacks required keys. -/
  | incomplete (name : String) (missing : List String)
  /-- A configuration does not have the shape of a theme. -/
  | misfit (name : String) (place : MisfitPlace) (cause : Misfit)
  | badSyntax (cause : BadSyntax)
  /-- References lead back to where they have been. The path ends with the repeated label. -/
  | cycle (kind : CycleKind) (path : List String)
  deriving Repr

def ThemeError.message : ThemeError → String
  | noConfig => "No Theming Config found!"
  | incomplete name missing =>
    "Falsy Theming Configuration: Please check your Config schema for " ++ name ++
      " (missing: " ++ ", ".intercalate missing ++ ")"
  | misfit name place cause =>
    "invalid theming configuration " ++ name ++ ": " ++ place.label ++ cause.message
  | badSyntax cause =>
    "failed to parse theming configuration: " ++ cause.message?.getD "invalid YAML"
  | cycle kind path =>
    "cycle detected in " ++ kind.label ++ " references: " ++ " -> ".intercalate path

end Theming
