import Theming.Error
import Theming.Files.Path
import Theming.Json.Reader
import Theming.Yaml.Document

/-! The formats of configuration documents. -/

namespace Theming

inductive Format where
  | json
  | yaml
  deriving DecidableEq, Repr

namespace Format

/-- The ends of file names with their formats. -/
def extensions : List (String × Format) := [(".json", json), (".yaml", yaml), (".yml", yaml)]

def ofFileName? (name : String) : Option Format :=
  (extensions.find? fun entry => entry.1.toList.isSuffixOf name.toList).map (·.2)

def ofPath? (path : String) : Option Format := (Path.fileName? path).bind ofFileName?

def read (format : Format) (text : String) : Except ThemeError Value :=
  match format with
  | json => (Json.parse Json.documentDepth text).mapError fun fault => .badSyntax (.json fault)
  | yaml =>
    match Yaml.parse? text with
    | some value => .ok value
    | none => .error (.badSyntax .yaml)

end Format

end Theming
