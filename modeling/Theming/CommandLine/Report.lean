import Theming.Pool

/-! The reports of failed commands. -/

namespace Theming

inductive CommandError where
  | unsupportedFile (path : String)
  | file (path : String) (fault : FileFault)
  | document (path : String) (cause : ThemeError)
  | pool (path : String) (cause : PoolError)
  | theme (cause : ThemeError)
  deriving Repr

namespace CommandError

/-- What went wrong, and its causes from the nearest on. -/
def chain : CommandError → String × List String
  | unsupportedFile path =>
    ("unsupported theme file " ++ path ++ " (expected .json, .yaml or .yml)", [])
  | file path fault => ("failed to read " ++ path, [fault.message])
  | document path cause => ("failed to parse " ++ path, [cause.message])
  | pool path cause =>
    let deeper := match cause with
      | .file _ fault => [fault.message]
      | _ => []
    ("failed to load pool " ++ path, cause.message :: deeper)
  | theme cause => (cause.message, [])

def indented (first others : String) (text : String) : String :=
  first ++ String.ofList (Text.replace '\n' ('\n' :: others.toList) text.toList)

/-- A single cause is indented, and several ones are numbered. -/
def causeLines : List String → List String
  | [cause] => [indented "    " "    " cause]
  | causes => causes.mapIdx fun i cause => indented ("    " ++ toString i ++ ": ") "       " cause

def report (error : CommandError) : String :=
  let (top, causes) := error.chain
  let because := if causes.isEmpty then ""
    else "\n\nCaused by:\n" ++ "\n".intercalate (causeLines causes)
  "Error: " ++ top ++ because ++ "\n"

end CommandError

end Theming
