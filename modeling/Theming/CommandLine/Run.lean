import Theming.CommandLine.Arguments
import Theming.CommandLine.Report
import Theming.Json.Print
import Theming.Manager

/-! What the commands do. -/

namespace Theming

structure Outcome where
  code : Nat
  stdout : String
  stderr : String
  deriving DecidableEq, Repr

namespace Command

def readTheme (files : Files) (path : String) : Except CommandError Value := do
  let some format := Format.ofPath? path | throw (.unsupportedFile path)
  let text ← (files.readText path).mapError (.file path)
  (format.read text).mapError (.document path)

def readPools (files : Files) (paths : List String) : Except CommandError Pool :=
  paths.foldlM (fun pool path =>
    match (Pool.addDirectory files path).run.run pool with
    | (.ok _, pool) => .ok pool
    | (.error cause, _) => .error (.pool path cause)) []

def load (files : Files) (theme : String) (pools : List String) (classPrefix : String) :
    Except CommandError (LoadedTheme × Stylesheet) := do
  let config ← readTheme files theme
  let pool ← readPools files pools
  let (result, sheet) := (LoadedTheme.ofConfig config pool.configs).run.run (.empty classPrefix)
  return (← result.mapError .theme, sheet)

/-- A line for the theme and one for each component. -/
def summary (loaded : LoadedTheme) : String :=
  let head := loaded.name ++ " (" ++ toString loaded.components.length ++ " components)\n"
  let line (component : CompiledComponent) :=
    "  " ++ component.component ++ ": " ++
      ", ".intercalate (component.variants.map CompiledVariant.variant) ++ "\n"
  head ++ String.join (loaded.components.map line)

def output (files : Files) : Command → Except CommandError String
  | compile theme pools format classPrefix => do
    let (loaded, sheet) ← load files theme pools classPrefix
    match format with
    | .json =>
      return Json.indented 0 (.list (loaded.components.map CompiledComponent.toValue)) ++ "\n"
    | .css => return sheet.extractCss.1 ++ "\n"
  | check theme pools => do
    let (loaded, _) ← load files theme pools defaultClassPrefix
    return summary loaded

/-- Failures are reported with code 1. -/
def outcome (files : Files) (command : Command) : Outcome :=
  match command.output files with
  | .ok text => ⟨0, text, ""⟩
  | .error error => ⟨1, "", error.report⟩

def paths : Command → List String
  | compile theme pools _ _ | check theme pools => theme :: pools

end Command

def usage : String :=
  "Usage: json-themes [-v] compile <THEME> [--pool <DIR>]... [--format <json|css>] " ++
    "[--prefix <PREFIX>]\n       json-themes [-v] check <THEME> [--pool <DIR>]...\n"

/-- Arguments that make no sense are reported with code 2. -/
def outcome (files : Files) (args : List String) : Outcome :=
  match Request.ofArguments? args with
  | some (.run command) => command.outcome files
  | some .inform => ⟨0, usage, ""⟩
  | none => ⟨2, "", usage⟩

end Theming
